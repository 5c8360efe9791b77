import SuperH.Proofs.Sections

/-!
# Sources cut and joined between lines

A source cut between two lines falls into two sources whose lines are those of the whole. The
statements of the first part are read as if it stood alone. Those of the second part are too, on
later lines, if it starts by opening a section.
-/
namespace SuperH

namespace Text

theorem lines_cons {c : Char} {s : List Char} (hc : c ≠ '\n')
    (hs : c = '\r' → s.head? ≠ some '\n') : lines (c :: s) = consHead c (lines s) := by
  rw [lines]
  · exact hc
  · rintro rest rfl rfl
    exact hs rfl rfl

private theorem consHead_append (c : Char) {ls : List (List Char)} (h : ls ≠ [])
    (ms : List (List Char)) : consHead c (ls ++ ms) = consHead c ls ++ ms := by
  cases ls with
  | nil => exact absurd rfl h
  | cons l ls => rfl

private theorem lines_ne_nil {s : List Char} (h : s ≠ []) : lines s ≠ [] := by
  induction s using lines.induct with
  | case1 => exact absurd rfl h
  | case2 rest _ => simp [lines]
  | case3 rest _ => simp [lines]
  | case4 c rest hn hr _ =>
    rw [lines]
    · cases lines rest <;> simp [consHead]
    · exact hn
    · exact hr

private theorem lines_append_newline (s rest : List Char) :
    lines (s ++ '\n' :: rest) = lines (s ++ ['\n']) ++ lines rest := by
  induction s using lines.induct with
  | case1 => simp [lines]
  | case2 s ih => simp [lines, ih]
  | case3 s ih => simp [lines, ih]
  | case4 c s hn hr ih =>
    by_cases hlast : c = '\r' ∧ s = []
    · obtain ⟨rfl, rfl⟩ := hlast
      simp [lines]
    · have hs (t : List Char) : c = '\r' → (s ++ '\n' :: t).head? ≠ some '\n' := by
        intro hc
        cases s with
        | nil => exact absurd ⟨hc, rfl⟩ hlast
        | cons d s =>
          rintro h
          cases h
          exact hr s hc rfl
      rw [List.cons_append, List.cons_append, lines_cons hn (hs rest), lines_cons hn (hs []), ih,
        consHead_append c (lines_ne_nil (by simp))]

private theorem consHead_take (c : Char) (n : Nat) (ls : List (List Char)) :
    consHead c (ls.take (n + 1)) = (consHead c ls).take (n + 1) := by
  cases ls <;> simp [consHead]

private theorem exists_cut (s : List Char) (n : Nat) : ∃ before after, s = before ++ after ∧
    lines before = (lines s).take n ∧ lines after = (lines s).drop n := by
  induction s using lines.induct generalizing n with
  | case1 => exact ⟨[], [], rfl, by simp [lines], by simp [lines]⟩
  | case2 s ih =>
    cases n with
    | zero => exact ⟨[], _, rfl, by simp [lines], by simp⟩
    | succ n =>
      obtain ⟨before, after, rfl, hbefore, hafter⟩ := ih n
      exact ⟨'\n' :: before, after, rfl, by simp [lines, hbefore], by simp [lines, hafter]⟩
  | case3 s ih =>
    cases n with
    | zero => exact ⟨[], _, rfl, by simp [lines], by simp⟩
    | succ n =>
      obtain ⟨before, after, rfl, hbefore, hafter⟩ := ih n
      exact ⟨'\r' :: '\n' :: before, after, rfl, by simp [lines, hbefore], by simp [lines, hafter]⟩
  | case4 c s hn hr ih =>
    cases n with
    | zero => exact ⟨[], _, rfl, by simp [lines], by simp⟩
    | succ n =>
      obtain ⟨before, after, rfl, hbefore, hafter⟩ := ih (n + 1)
      have hwhole : lines (c :: (before ++ after)) = consHead c (lines (before ++ after)) :=
        lines_cons hn fun hc h => by
          obtain ⟨t, ht⟩ := List.head?_eq_some_iff.mp h
          exact hr t hc ht
      have hfirst : lines (c :: before) = consHead c (lines before) :=
        lines_cons hn fun hc h => by
          obtain ⟨t, rfl⟩ := List.head?_eq_some_iff.mp h
          exact hr (t ++ after) hc rfl
      refine ⟨c :: before, after, rfl, ?_, ?_⟩
      · rw [hwhole, hfirst, hbefore, consHead_take]
      · rw [hwhole, hafter]
        cases lines (before ++ after) <;> simp [consHead]

end Text

/-- The text is empty or ends with a line feed, so that a text after it starts a new line. -/
def EndsLine (text : String) : Prop :=
  text = "" ∨ ∃ start, text = start ++ "\n"

private theorem textLines_append {text : String} (h : EndsLine text) (rest : String) :
    textLines (text ++ rest) = textLines text ++ textLines rest := by
  rcases h with rfl | ⟨start, rfl⟩
  · simp [textLines, Text.lines]
  · simp [textLines, Text.lines_append_newline start.toList rest.toList]

theorem exists_textLines_cut (text : String) (n : Nat) : ∃ before after, text = before ++ after ∧
    textLines before = (textLines text).take n ∧ textLines after = (textLines text).drop n := by
  obtain ⟨before, after, htext, hbefore, hafter⟩ := Text.exists_cut text.toList n
  refine ⟨String.ofList before, String.ofList after, ?_, ?_, ?_⟩
  · rw [← String.ofList_append, ← htext, String.ofList_toList]
  · simp [textLines, hbefore, List.map_take]
  · simp [textLines, hafter, List.map_drop]

/-! ## Lines with numbers -/

theorem SourceLine.numbered_append (number : Nat) (raws raws' : List String) :
    numbered number (raws ++ raws') =
      numbered number raws ++ numbered (number + raws.length) raws' := by
  induction raws generalizing number with
  | nil => rfl
  | cons raw raws ih =>
    have hnumber : number + 1 + raws.length = number + (raw :: raws).length := by
      simp only [List.length_cons]
      omega
    simp only [List.cons_append, numbered, ih, hnumber]
    split <;> rfl

def SourceLine.moveDown (n : Nat) (l : SourceLine) : SourceLine :=
  { l with number := n + l.number }

def SourceStatement.moveDown (n : Nat) (s : SourceStatement) : SourceStatement :=
  { s with line := n + s.line }

private theorem SourceLine.numbered_add (n number : Nat) (raws : List String) :
    numbered (n + number) raws = (numbered number raws).map (moveDown n) := by
  induction raws generalizing number with
  | nil => rfl
  | cons raw raws ih =>
    simp only [numbered, Nat.add_assoc, ih]
    split <;> rfl

private theorem SourceLine.ofText_append {text : String} (h : EndsLine text) (rest : String) :
    ofText (text ++ rest) =
      ofText text ++ (ofText rest).map (moveDown (textLines text).length) := by
  rw [ofText, textLines_append h, numbered_append, Nat.add_comm 1, numbered_add]
  rfl

/-! ## Sections -/

/-- The section in which a line after `ls` stands. -/
def sectionAfter (current : Option Section) : List SourceLine → Option Section
  | [] => current
  | l :: rest => sectionAfter ((Section.parse? l.code).or current) rest

private theorem inSections_append (current : Option Section) (ls ms : List SourceLine) :
    inSections current (ls ++ ms) =
      inSections current ls ++ inSections (sectionAfter current ls) ms := by
  induction ls generalizing current with
  | nil => rfl
  | cons l ls ih =>
    simp only [List.cons_append, inSections, sectionAfter]
    cases Section.parse? l.code <;> simp [ih]

def OpensSection (source : String) : Prop :=
  ∀ l ∈ (SourceLine.ofText source).head?, (Section.parse? l.code).isSome = true

instance (source : String) : Decidable (OpensSection source) :=
  inferInstanceAs (Decidable (∀ l ∈ (SourceLine.ofText source).head?, _))

private theorem inSections_of_opens {ls : List SourceLine}
    (h : ∀ l, ls.head? = some l → (Section.parse? l.code).isSome = true)
    (current : Option Section) : inSections current ls = inSections none ls := by
  cases ls with
  | nil => rfl
  | cons l ls =>
    obtain ⟨next, hnext⟩ := Option.isSome_iff_exists.mp (h l rfl)
    simp only [inSections, hnext]

private theorem inSections_moveDown (n : Nat) (current : Option Section) (ls : List SourceLine) :
    inSections current (ls.map (.moveDown n)) =
      (inSections current ls).map fun x => (x.1, x.2.moveDown n) := by
  induction ls generalizing current with
  | nil => rfl
  | cons l ls ih =>
    have hcode : (l.moveDown n).code = l.code := rfl
    rw [List.map_cons, inSections, inSections, hcode]
    cases Section.parse? l.code <;> simp [ih]

/-! ## Statements -/

theorem readLines_append (current : Option Section) (ls ms : List SourceLine) :
    readLines current (ls ++ ms) = do
      let ss ← readLines current ls
      let tt ← readLines (sectionAfter current ls) ms
      return ss ++ tt := by
  rw [readLines_eq_mapM, inSections_append, List.mapM_append, readLines_eq_mapM,
    readLines_eq_mapM]

private theorem readLine_moveDown {x : Option Section × SourceLine} {s : SourceStatement}
    (h : readLine x = .ok s) (n : Nat) : readLine (x.1, x.2.moveDown n) = .ok (s.moveDown n) := by
  obtain ⟨hline, hread⟩ := readLine_eq_ok.mp h
  refine readLine_eq_ok.mpr ⟨?_, hread⟩
  rw [SourceStatement.moveDown, SourceLine.moveDown, hline]

private theorem readLines_moveDown {current : Option Section} {ls : List SourceLine}
    {ss : List SourceStatement} (h : readLines current ls = .ok ss) (n : Nat) :
    readLines current (ls.map (.moveDown n)) = .ok (ss.map (.moveDown n)) := by
  rw [readLines_eq_mapM, mapM_eq_ok] at h ⊢
  rw [inSections_moveDown, List.forall₂_map_left_iff, List.forall₂_map_right_iff]
  exact h.imp fun x s hread => readLine_moveDown hread n

theorem readLines_join {first second : String} (hfirst : EndsLine first)
    (hsecond : OpensSection second) {ss tt : List SourceStatement}
    (hss : readLines none (SourceLine.ofText first) = .ok ss)
    (htt : readLines none (SourceLine.ofText second) = .ok tt) :
    readLines none (SourceLine.ofText (first ++ second)) =
      .ok (ss ++ tt.map (.moveDown (textLines first).length)) := by
  -- The section that `first` ends in does not reach the statements of `second`.
  have hopens : readLines (sectionAfter none (SourceLine.ofText first))
      (SourceLine.ofText second) = .ok tt := by
    rw [readLines_eq_mapM, inSections_of_opens hsecond, ← readLines_eq_mapM, htt]
  rw [SourceLine.ofText_append hfirst, readLines_append, hss, readLines_moveDown hopens]
  rfl

/-- Reading stops at the first line that cannot be read, and what follows it does not matter. -/
theorem readLines_eq_error {current : Option Section} {ls : List SourceLine} {d : Diagnostic}
    (h : readLines current ls = .error d) :
    ∃ before l after, ls = before ++ l :: after ∧ (∃ ss, readLines current before = .ok ss) ∧
      (∀ rest, readLines current (before ++ l :: rest) = .error d) ∧
      d.line = l.number ∧ d.raw = l.raw := by
  induction ls generalizing current with
  | nil => cases h
  | cons l ls ih =>
    rw [readLines] at h
    cases hsection : Section.parse? l.code with
    | some next =>
      rw [hsection] at h
      obtain ⟨before, m, after, rfl, ⟨ss, hss⟩, hrest, hplace⟩ := ih h
      refine ⟨l :: before, m, after, rfl, ⟨ss, ?_⟩, ?_, hplace⟩
      · rw [readLines, hsection]
        exact hss
      · intro rest
        rw [List.cons_append, readLines, hsection]
        exact hrest rest
    | none =>
      rw [hsection] at h
      rcases bind_eq_error.mp h with h | ⟨statement, hstatement, h⟩
      · refine ⟨[], l, ls, rfl, ⟨[], rfl⟩, ?_, ?_⟩
        · intro rest
          rw [List.nil_append, readLines, hsection]
          exact bind_eq_error.mpr (.inl h)
        · obtain ⟨_, _, rfl⟩ := SourceLine.diagnose_eq_error.mp h
          exact ⟨rfl, rfl⟩
      · rcases bind_eq_error.mp h with h | ⟨tt, _, h⟩
        · obtain ⟨before, m, after, rfl, ⟨ss, hss⟩, hrest, hplace⟩ := ih h
          refine ⟨l :: before, m, after, rfl, ⟨⟨l.number, statement⟩ :: ss, ?_⟩, ?_, hplace⟩
          · rw [readLines, hsection, hstatement, hss]
            rfl
          · intro rest
            rw [List.cons_append, readLines, hsection, hstatement, hrest rest]
            rfl
        · cases h

end SuperH
