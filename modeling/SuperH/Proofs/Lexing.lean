import Mathlib.Data.List.TakeWhile
import SuperH.Proofs.Traversal
import SuperH.Statement

/-!
# Taking written code apart

A statement that is written as a label, a colon, a mnemonic and operands between commas is taken
apart into just these. The pieces may hold anything that does not read as one of the marks around
them: operands may have commas inside parentheses, and nothing may end a line or open a comment.
-/
namespace SuperH

namespace Text

/-! ## Blanks -/

/-- Neither end of the text is a blank. -/
structure Trimmed (s : List Char) : Prop where
  head : ∀ c, s.head? = some c → isBlank c = false
  last : ∀ c, s.getLast? = some c → isBlank c = false

theorem trimStart_eq_self {s : List Char} (h : ∀ c, s.head? = some c → isBlank c = false) :
    trimStart s = s := by
  cases s with
  | nil => rfl
  | cons c rest => rw [trimStart, List.dropWhile_cons_of_neg (by simp [h c rfl])]

private theorem trimEnd_append_of_last {s blanks : List Char}
    (hblanks : ∀ c ∈ blanks, isBlank c = true)
    (h : ∀ c, s.getLast? = some c → isBlank c = false) : trimEnd (s ++ blanks) = s := by
  have hhead : ∀ c, s.reverse.head? = some c → isBlank c = false := by
    simpa only [List.head?_reverse] using h
  have hdrop : s.reverse.dropWhile isBlank = s.reverse := trimStart_eq_self hhead
  rw [trimEnd, List.reverse_append, List.dropWhile_append_of_pos (by simpa using hblanks), hdrop,
    List.reverse_reverse]

theorem trimEnd_eq_nil {s : List Char} : trimEnd s = [] ↔ ∀ c ∈ s, isBlank c = true := by
  simp [trimEnd]

theorem trim_eq_nil {s : List Char} : trim s = [] ↔ ∀ c ∈ s, isBlank c = true := by
  constructor
  · intro h c hc
    rw [trim, trimEnd_eq_nil] at h
    rw [← List.takeWhile_append_dropWhile (p := isBlank) (l := s), List.mem_append] at hc
    rcases hc with hc | hc
    · exact List.mem_takeWhile_imp hc
    · exact h c hc
  · intro h
    rw [trim, trimStart, List.dropWhile_eq_nil_iff.mpr h]
    rfl

theorem Trimmed.trim_append_trimEnd {s : List Char} (h : Trimmed s) (hs : s ≠ [])
    (t : List Char) : trim (s ++ t) = s ++ trimEnd t := by
  have hhead : ∀ c, (s ++ t).head? = some c → isBlank c = false := by
    intro c hc
    rw [List.head?_append_of_ne_nil _ hs] at hc
    exact h.head c hc
  have hlast : s.reverse.dropWhile isBlank = s.reverse := by
    apply trimStart_eq_self
    simpa only [List.head?_reverse] using h.last
  rw [trim, trimStart_eq_self hhead, trimEnd, List.reverse_append, List.dropWhile_append, hlast]
  split
  · rename_i hnil
    rw [trimEnd, List.isEmpty_iff.mp hnil, List.reverse_reverse, List.reverse_nil, List.append_nil]
  · rw [List.reverse_append, List.reverse_reverse, trimEnd]

theorem Trimmed.trim_append {s blanks : List Char} (h : Trimmed s) (hs : s ≠ [])
    (hblanks : ∀ c ∈ blanks, isBlank c = true) : trim (s ++ blanks) = s := by
  rw [h.trim_append_trimEnd hs, trimEnd_eq_nil.mpr hblanks, List.append_nil]

theorem Trimmed.append_trimEnd {s : List Char} (h : Trimmed s) (hs : s ≠ []) (t : List Char) :
    Trimmed (s ++ trimEnd t) where
  head c hc := by
    rw [List.head?_append_of_ne_nil _ hs] at hc
    exact h.head c hc
  last c hc := by
    rw [List.getLast?_append, trimEnd, List.getLast?_reverse] at hc
    cases hdrop : (t.reverse.dropWhile isBlank).head? with
    | none =>
      rw [hdrop] at hc
      exact h.last c hc
    | some b =>
      have hfirst := List.head?_dropWhile_not isBlank t.reverse
      rw [hdrop] at hc hfirst
      cases hc
      simpa using hfirst

theorem Trimmed.trim_eq_self {s : List Char} (h : Trimmed s) : trim s = s := by
  have hend : trimEnd (s ++ []) = s := trimEnd_append_of_last (by simp) h.last
  rw [List.append_nil] at hend
  rw [trim, trimStart_eq_self h.head, hend]

theorem Trimmed.trim_cons {s : List Char} (h : Trimmed s) {c : Char} (hc : isBlank c = true) :
    trim (c :: s) = s := by
  have hstart : trimStart (c :: s) = trimStart s := List.dropWhile_cons_of_pos hc
  rw [trim, hstart, ← trim, h.trim_eq_self]

theorem Trimmed.append {s t : List Char} (hs : Trimmed s) (ht : Trimmed t) (hs' : s ≠ [])
    (ht' : t ≠ []) (mid : List Char) : Trimmed (s ++ (mid ++ t)) where
  head c hc := by
    rw [List.head?_append_of_ne_nil _ hs'] at hc
    exact hs.head c hc
  last c hc := by
    rw [← List.append_assoc, List.getLast?_append_of_ne_nil _ ht'] at hc
    exact ht.last c hc

theorem trimmed_of_solid {s : List Char} (h : ∀ c ∈ s, isBlank c = false) : Trimmed s where
  head c hc := h c (List.mem_of_head? hc)
  last c hc := h c (List.mem_of_getLast? hc)

theorem trimmed_singleton {c : Char} (h : isBlank c = false) : Trimmed [c] :=
  trimmed_of_solid (List.forall_mem_singleton.mpr h)

private theorem cutAtBlank_of_solid {s : List Char} (h : ∀ c ∈ s, isBlank c = false) :
    cutAtBlank s = (s, []) := by
  have hall : ∀ c ∈ s, (!isBlank c) = true := by simpa using h
  rw [cutAtBlank, List.takeWhile_eq_self_iff.mpr hall, List.dropWhile_eq_nil_iff.mpr hall]
  rfl

theorem cutAtBlank_append {s t : List Char} (h : ∀ c ∈ s, isBlank c = false) {c : Char}
    (hc : isBlank c = true) (ht : Trimmed t) : cutAtBlank (s ++ c :: t) = (s, t) := by
  have hall : ∀ c ∈ s, (!isBlank c) = true := by simpa using h
  rw [cutAtBlank, List.takeWhile_append_of_pos hall, List.dropWhile_append_of_pos hall,
    List.takeWhile_cons_of_neg (by simp [hc]), List.dropWhile_cons_of_neg (by simp [hc]),
    ht.trim_cons hc, List.append_nil]

theorem firstWord?_append {word rest : List Char} (h : ∀ c ∈ word, isBlank c = false)
    (hne : word ≠ []) (hrest : ∀ c, rest.head? = some c → isBlank c = true) :
    firstWord? (word ++ rest) = some word := by
  have hall : ∀ c ∈ word, (!isBlank c) = true := by simpa using h
  have hstart : trimStart (word ++ rest) = word ++ rest := by
    apply trimStart_eq_self
    intro c hc
    rw [List.head?_append_of_ne_nil _ hne] at hc
    exact h c (List.mem_of_head? hc)
  have htake : rest.takeWhile (!isBlank ·) = [] := by
    cases rest with
    | nil => rfl
    | cons c rest => exact List.takeWhile_cons_of_neg (by simp [hrest c rfl])
  rw [firstWord?, hstart, List.takeWhile_append_of_pos hall, htake, List.append_nil]
  cases word with
  | nil => exact absurd rfl hne
  | cons c word => rfl

theorem trimEnd_sublist (s : List Char) : (trimEnd s).Sublist s := by
  simpa [trimEnd] using (List.dropWhile_sublist (l := s.reverse) isBlank).reverse

theorem trim_sublist (s : List Char) : (trim s).Sublist s :=
  (trimEnd_sublist _).trans (List.dropWhile_sublist isBlank)

private theorem isBlank_of_head?_trimStart {s : List Char} {c : Char}
    (h : (trimStart s).head? = some c) : isBlank c = false := by
  have hfirst := List.head?_dropWhile_not isBlank s
  rw [← trimStart, h] at hfirst
  exact hfirst

theorem trimmed_trim (s : List Char) : Trimmed (trim s) where
  head c hc := by
    obtain ⟨rest, hrest⟩ : trim s <+: trimStart s := by
      simpa [trim, trimEnd] using
        (List.dropWhile_suffix (l := (trimStart s).reverse) isBlank).reverse
    apply isBlank_of_head?_trimStart (s := s)
    rw [← hrest, List.head?_append, hc]
    rfl
  last c hc := by
    rw [trim, trimEnd, List.getLast?_reverse] at hc
    exact isBlank_of_head?_trimStart hc

/-- The text `s` with blanks around it is `padded`. -/
def Pads (s padded : List Char) : Prop :=
  ∃ before after, (∀ c ∈ before, isBlank c = true) ∧ (∀ c ∈ after, isBlank c = true) ∧
    padded = before ++ (s ++ after)

theorem pads_trim (s : List Char) : Pads (trim s) s := by
  have hblank (t : List Char) : ∀ c ∈ t.takeWhile isBlank, isBlank c = true := fun c hc =>
    List.mem_takeWhile_imp hc
  refine ⟨s.takeWhile isBlank, ((trimStart s).reverse.takeWhile isBlank).reverse, hblank s, ?_, ?_⟩
  · simpa using hblank (trimStart s).reverse
  · rw [trim, trimEnd, ← List.reverse_append, List.takeWhile_append_dropWhile, List.reverse_reverse,
      trimStart, List.takeWhile_append_dropWhile]

theorem cutAtBlank_sublist (s : List Char) : (cutAtBlank s).2.Sublist s :=
  (trim_sublist _).trans (List.dropWhile_sublist _)

/-! ## Pieces between separators -/

theorem splitOn_of_not_mem {sep : Char} {s : List Char} (h : sep ∉ s) : splitOn sep s = [s] := by
  induction s with
  | nil => rfl
  | cons c s ih =>
    obtain ⟨hc, hs⟩ := not_or.mp (mt List.mem_cons.mpr h)
    rw [splitOn, if_neg (Ne.symm hc), ih hs, consHead]

theorem splitOn_append {sep : Char} {s : List Char} (h : sep ∉ s) (rest : List Char) :
    splitOn sep (s ++ sep :: rest) = s :: splitOn sep rest := by
  induction s with
  | nil => rw [List.nil_append, splitOn, if_pos rfl]
  | cons c s ih =>
    obtain ⟨hc, hs⟩ := not_or.mp (mt List.mem_cons.mpr h)
    rw [List.cons_append, splitOn, if_neg (Ne.symm hc), ih hs, consHead]

theorem splitOn_ne_nil (sep : Char) (s : List Char) : splitOn sep s ≠ [] := by
  cases s with
  | nil => simp [splitOn]
  | cons c s =>
    rw [splitOn]
    split
    · simp
    · cases splitOn sep s <;> simp [consHead]

/-- Whatever follows the last separator takes part in the last piece only. -/
theorem splitOn_append_last (sep : Char) (s : List Char) :
    ∃ pieces last, ∀ t, sep ∉ t → splitOn sep (s ++ t) = pieces ++ [last ++ t] := by
  induction s with
  | nil => exact ⟨[], [], fun t ht => splitOn_of_not_mem ht⟩
  | cons c s ih =>
    obtain ⟨pieces, last, hsplit⟩ := ih
    by_cases hc : c = sep
    · refine ⟨[] :: pieces, last, fun t ht => ?_⟩
      rw [List.cons_append, splitOn, if_pos hc, hsplit t ht, List.cons_append]
    · cases pieces with
      | nil =>
        refine ⟨[], c :: last, fun t ht => ?_⟩
        rw [List.cons_append, splitOn, if_neg hc, hsplit t ht]
        rfl
      | cons piece pieces =>
        refine ⟨(c :: piece) :: pieces, last, fun t ht => ?_⟩
        rw [List.cons_append, splitOn, if_neg hc, hsplit t ht]
        rfl

theorem splitOn_eq_pair {sep : Char} {s first second : List Char} :
    splitOn sep s = [first, second] ↔
      s = first ++ sep :: second ∧ sep ∉ first ∧ sep ∉ second := by
  constructor
  · intro h
    by_cases hmem : sep ∈ s
    · obtain ⟨a, rest, rfl, ha⟩ := List.eq_append_cons_of_mem hmem
      rw [splitOn_append ha] at h
      obtain ⟨rfl, hrest⟩ := List.cons.inj h
      by_cases hmem : sep ∈ rest
      · obtain ⟨b, others, rfl, hb⟩ := List.eq_append_cons_of_mem hmem
        rw [splitOn_append hb] at hrest
        exact absurd (List.cons.inj hrest).2 (splitOn_ne_nil sep others)
      · rw [splitOn_of_not_mem hmem] at hrest
        obtain ⟨rfl, _⟩ := List.cons.inj hrest
        exact ⟨rfl, ha, hmem⟩
    · rw [splitOn_of_not_mem hmem] at h
      cases h
  · rintro ⟨rfl, hfirst, hsecond⟩
    rw [splitOn_append hfirst, splitOn_of_not_mem hsecond]

/-! ## Lines -/

/-- The text ends no line and opens no comment. -/
def Plain (s : List Char) : Prop :=
  ∀ c ∈ s, c ≠ ';' ∧ c ≠ '\n' ∧ c ≠ '\r'

theorem Plain.append {s t : List Char} (hs : Plain s) (ht : Plain t) : Plain (s ++ t) := by
  intro c hc
  rcases List.mem_append.mp hc with hc | hc
  · exact hs c hc
  · exact ht c hc

def withoutReturn (s : List Char) : List Char :=
  if s.getLast? = some '\r' then s.dropLast else s

theorem withoutReturn_append (s : List Char) {t : List Char} (h : t ≠ []) :
    withoutReturn (s ++ t) = s ++ withoutReturn t := by
  rw [withoutReturn, withoutReturn, List.getLast?_append_of_ne_nil s h,
    List.dropLast_append_of_ne_nil h]
  split <;> rfl

theorem withoutReturn_cons {c : Char} {s : List Char} (h : c = '\r' → s ≠ []) :
    withoutReturn (c :: s) = c :: withoutReturn s := by
  cases s with
  | nil => simp [withoutReturn, mt h]
  | cons d s => exact withoutReturn_append [c] (List.cons_ne_nil d s)

theorem Plain.withoutReturn_eq {s : List Char} (h : Plain s) : withoutReturn s = s := by
  rw [withoutReturn, if_neg]
  intro hlast
  exact (h _ (List.mem_of_getLast? hlast)).2.2 rfl

theorem lines_append {s : List Char} (h : '\n' ∉ s) (rest : List Char) :
    lines (s ++ '\n' :: rest) = withoutReturn s :: lines rest := by
  induction s with
  | nil => rw [List.nil_append, lines, withoutReturn, if_neg (by simp)]
  | cons c s ih =>
    obtain ⟨hn, hs⟩ := not_or.mp (mt List.mem_cons.mpr h)
    by_cases hlast : c = '\r' ∧ s = []
    · obtain ⟨rfl, rfl⟩ := hlast
      rw [List.cons_append, List.nil_append, lines]
      rfl
    · rw [List.cons_append, lines, ih hs, consHead, withoutReturn_cons]
      · intro hc hnil
        exact hlast ⟨hc, hnil⟩
      · exact Ne.symm hn
      · intro tail hc hrest
        cases s with
        | nil => exact hlast ⟨hc, rfl⟩
        | cons d s =>
          cases hrest
          exact hs List.mem_cons_self

theorem of_mem_lines {s l : List Char} (h : l ∈ lines s) : l.Sublist s ∧ '\n' ∉ l := by
  induction s using lines.induct generalizing l with
  | case1 => simp [lines] at h
  | case2 rest ih =>
    rw [lines] at h
    rcases List.mem_cons.mp h with rfl | h
    · exact ⟨List.nil_sublist _, List.not_mem_nil⟩
    · exact ⟨(ih h).1.cons _, (ih h).2⟩
  | case3 rest ih =>
    rw [lines] at h
    rcases List.mem_cons.mp h with rfl | h
    · exact ⟨List.nil_sublist _, List.not_mem_nil⟩
    · exact ⟨((ih h).1.cons _).cons _, (ih h).2⟩
  | case4 c rest hn hr ih =>
    -- The character starts a line of its own, or is put in front of the next one.
    have hcons {m : List Char} (hm : m.Sublist rest ∧ '\n' ∉ m) :
        (c :: m).Sublist (c :: rest) ∧ '\n' ∉ c :: m := by
      refine ⟨hm.1.cons_cons c, ?_⟩
      rw [List.mem_cons, not_or]
      exact ⟨Ne.symm hn, hm.2⟩
    rw [lines] at h
    · cases hlines : lines rest with
      | nil =>
        rw [hlines, consHead, List.mem_singleton] at h
        rw [h]
        exact hcons ⟨List.nil_sublist rest, List.not_mem_nil⟩
      | cons m ms =>
        rw [hlines, consHead] at h
        rw [hlines] at ih
        rcases List.mem_cons.mp h with rfl | h
        · exact hcons (ih List.mem_cons_self)
        · have hrest := ih (List.mem_cons_of_mem m h)
          exact ⟨hrest.1.cons c, hrest.2⟩
    · exact hn
    · exact hr

private theorem lines_flatMap {ls : List (List Char)} (h : ∀ l ∈ ls, '\n' ∉ l) :
    lines (ls.flatMap (· ++ ['\n'])) = ls.map withoutReturn := by
  induction ls with
  | nil => rw [List.flatMap_nil, lines, List.map_nil]
  | cons l ls ih =>
    obtain ⟨hl, hls⟩ := List.forall_mem_cons.mp h
    rw [List.flatMap_cons, List.append_assoc, List.singleton_append, lines_append hl, ih hls,
      List.map_cons]

end Text

/-- Lines that are written one after the other are read back, less a carriage return that they end
in. -/
theorem textLines_join {ls : List String} (h : ∀ l ∈ ls, '\n' ∉ l.toList) :
    textLines (String.join (ls.map (· ++ "\n"))) =
      ls.map fun l => String.ofList (Text.withoutReturn l.toList) := by
  have hjoin : (String.join (ls.map (· ++ "\n"))).toList =
      (ls.map String.toList).flatMap (· ++ ['\n']) := by
    simp [String.toList_join, List.flatMap_map]
  rw [textLines, hjoin, Text.lines_flatMap (by simpa using h), List.map_map, List.map_map]
  rfl

theorem textLines_join_of_plain {ls : List String} (h : ∀ l ∈ ls, Text.Plain l.toList) :
    textLines (String.join (ls.map (· ++ "\n"))) = ls := by
  rw [textLines_join fun l hl hmem => (h l hl _ hmem).2.1 rfl]
  conv_rhs => rw [← List.map_id ls]
  apply List.map_congr_left
  intro l hl
  rw [(h l hl).withoutReturn_eq, String.ofList_toList, id]

theorem beforeComment_eq_self {s : List Char} (h : Text.Plain s) (quoted : Bool) (before : Char) :
    beforeComment quoted before s = s := by
  induction s generalizing quoted before with
  | nil => rfl
  | cons c s ih =>
    obtain ⟨⟨hc, _, _⟩, hs⟩ := List.forall_mem_cons.mp h
    rw [beforeComment, if_neg (by simp [hc]), ih hs]

theorem beforeComment_of_no_marks {s : List Char} (h : ∀ c ∈ s, c ≠ ';' ∧ c ≠ '"') (before : Char)
    (rest : List Char) : beforeComment false before (s ++ rest) =
      s ++ beforeComment false (s.getLast?.getD before) rest := by
  induction s generalizing before with
  | nil => rfl
  | cons c s ih =>
    obtain ⟨⟨hcomment, hquote⟩, hs⟩ := List.forall_mem_cons.mp h
    rw [List.cons_append, beforeComment, if_neg (by simp [hcomment])]
    simp [hquote, ih hs, List.getLast?_cons]

theorem lineCode_sublist (line : String) : (lineCode line).toList.Sublist line.toList := by
  have hcomment (quoted : Bool) (before : Char) (s : List Char) :
      (beforeComment quoted before s).Sublist s := by
    induction s generalizing quoted before with
    | nil => exact List.Sublist.refl _
    | cons c s ih =>
      rw [beforeComment]
      split
      · exact List.nil_sublist _
      · exact (ih _ _).cons_cons c
  rw [lineCode, String.toList_ofList]
  exact (Text.trim_sublist _).trans (hcomment _ _ _)

/-! ## Labels -/

structure IsLabelName (name : List Char) : Prop where
  identifier : isIdentifierText name = true
  solid : ∀ c ∈ name, Text.isBlank c = false ∧ c ≠ ':'
  plain : Text.Plain name

theorem IsLabelName.ne_nil {name : List Char} (h : IsLabelName name) : name ≠ [] := by
  rintro rfl
  cases h.identifier

private theorem labelled?_append {name rest : List Char} (h : IsLabelName name)
    (hrest : '\n' ∉ Text.trimStart rest) :
    labelled? (name ++ ':' :: rest) = some (name, Text.trimStart rest) := by
  have hname : ∀ c ∈ name, (!Text.isBlank c && c != ':') = true := by
    intro c hc
    simp [h.solid c hc]
  have htake : (name ++ ':' :: rest).takeWhile (fun c => !Text.isBlank c && c != ':') = name := by
    rw [List.takeWhile_append_of_pos hname, List.takeWhile_cons_of_neg (by simp), List.append_nil]
  have hdrop : (name ++ ':' :: rest).dropWhile (fun c => !Text.isBlank c && c != ':') =
      ':' :: rest := by
    rw [List.dropWhile_append_of_pos hname, List.dropWhile_cons_of_neg (by simp)]
  have hcolon : Text.trimStart (':' :: rest) = ':' :: rest :=
    List.dropWhile_cons_of_neg (by decide)
  simp only [labelled?, htake, hdrop, hcolon]
  obtain ⟨c, cs, rfl⟩ := List.exists_cons_of_ne_nil h.ne_nil
  simp [hrest]

theorem takeLabel_append {name rest : List Char} (h : IsLabelName name)
    (hrest : '\n' ∉ Text.trimStart rest) :
    takeLabel (name ++ ':' :: rest) =
      .ok (some (String.ofList (Text.upper name)), Text.trimStart rest) := by
  simp [takeLabel, labelled?_append h hrest, h.identifier]

theorem labelled?_sublist {code name rest : List Char} (h : labelled? code = some (name, rest)) :
    (':' :: rest).Sublist code := by
  simp only [labelled?] at h
  split at h
  · rename_i after _ hafter
    split at h
    · cases h
    · cases h
      have hcolon : (':' :: after).Sublist code := by
        rw [← hafter]
        exact (List.dropWhile_sublist _).trans (List.dropWhile_sublist _)
      exact ((List.dropWhile_sublist _).cons_cons ':').trans hcolon
  · cases h

theorem takeLabel_sublist {code rest : List Char} {label : Option String}
    (h : takeLabel code = .ok (label, rest)) : rest.Sublist code := by
  unfold takeLabel at h
  split at h
  · cases h
    exact List.Sublist.refl _
  · rename_i name rest' hlabel
    split at h
    · cases h
      exact (List.sublist_cons_self _ _).trans (labelled?_sublist hlabel)
    · cases h

/-! ## Operands between commas -/

/-- Splitting runs through the text without a cut, whatever follows it. -/
def Uncut (depth : Nat) (s : List Char) : Prop :=
  ∀ rest, splitOutside depth (s ++ rest) =
    (splitOutside depth rest).map fun pieces => s.foldr Text.consHead pieces

theorem Uncut.append {depth : Nat} {s t : List Char} (hs : Uncut depth s) (ht : Uncut depth t) :
    Uncut depth (s ++ t) := by
  intro rest
  rw [List.append_assoc, hs, ht, Option.map_map]
  simp [Function.comp_def]

theorem uncut_of_flat {s : List Char} (h : ∀ c ∈ s, c ≠ ',' ∧ c ≠ '(' ∧ c ≠ ')') (depth : Nat) :
    Uncut depth s := by
  intro rest
  induction s with
  | nil => simp
  | cons c s ih =>
    obtain ⟨⟨hcomma, hopen, hclose⟩, hs⟩ := List.forall_mem_cons.mp h
    rw [List.cons_append, splitOutside, ih hs, Option.map_map]
    · rfl
    all_goals assumption

theorem uncut_nested {s : List Char} (h : ∀ c ∈ s, c ≠ '(' ∧ c ≠ ')') (depth : Nat) :
    Uncut (depth + 1) s := by
  intro rest
  induction s with
  | nil => simp
  | cons c s ih =>
    obtain ⟨⟨hopen, hclose⟩, hs⟩ := List.forall_mem_cons.mp h
    by_cases hcomma : c = ','
    · subst hcomma
      rw [List.cons_append, splitOutside, if_neg (Nat.succ_ne_zero depth), ih hs, Option.map_map]
      rfl
    · rw [List.cons_append, splitOutside, ih hs, Option.map_map]
      · rfl
      all_goals assumption

theorem Uncut.parens {depth : Nat} {s : List Char} (h : Uncut (depth + 1) s) :
    Uncut depth ('(' :: (s ++ [')'])) := by
  intro rest
  rw [List.cons_append, List.append_assoc, List.singleton_append, splitOutside, h, splitOutside,
    Option.map_map, Option.map_map]
  simp [Function.comp_def]

theorem foldr_consHead (s piece : List Char) (pieces : List (List Char)) :
    s.foldr Text.consHead (piece :: pieces) = (s ++ piece) :: pieces := by
  induction s with
  | nil => rfl
  | cons c s ih => rw [List.foldr_cons, ih, Text.consHead, List.cons_append]

/-- The text of an operand, as it can stand between commas. -/
structure IsOperandText (t : List Char) : Prop where
  ne_nil : t ≠ []
  trimmed : Text.Trimmed t
  uncut : Uncut 0 t
  plain : Text.Plain t

private theorem splitOutside_intercalate {t : List Char} {ts : List (List Char)}
    (h : ∀ x ∈ t :: ts, IsOperandText x) :
    splitOutside 0 ([',', ' '].intercalate (t :: ts)) = some (t :: ts.map (' ' :: ·)) := by
  induction ts generalizing t with
  | nil =>
    have ht := (h t List.mem_cons_self).uncut []
    rw [List.append_nil] at ht
    simp [ht, splitOutside, foldr_consHead]
  | cons u us ih =>
    obtain ⟨ht, hus⟩ := List.forall_mem_cons.mp h
    rw [List.intercalate_cons_cons, List.append_assoc, ht.uncut]
    simp [splitOutside, ih hus, foldr_consHead, Text.consHead]

private theorem trimmed_intercalate {t : List Char} {ts : List (List Char)}
    (h : ∀ x ∈ t :: ts, IsOperandText x) :
    Text.Trimmed ([',', ' '].intercalate (t :: ts)) ∧ [',', ' '].intercalate (t :: ts) ≠ [] := by
  induction ts generalizing t with
  | nil =>
    have ht := h t List.mem_cons_self
    simpa using ⟨ht.trimmed, ht.ne_nil⟩
  | cons u us ih =>
    obtain ⟨ht, hus⟩ := List.forall_mem_cons.mp h
    obtain ⟨htrimmed, hne⟩ := ih hus
    rw [List.intercalate_cons_cons, List.append_assoc]
    exact ⟨ht.trimmed.append htrimmed ht.ne_nil hne _, by simp⟩

theorem operandTexts_intercalate {ts : List (List Char)} (h : ∀ x ∈ ts, IsOperandText x) :
    operandTexts (String.ofList ([',', ' '].intercalate ts)) = .ok (ts.map String.ofList) := by
  cases ts with
  | nil => rfl
  | cons t ts =>
    obtain ⟨htrimmed, hne⟩ := trimmed_intercalate h
    have hpieces : (t :: ts.map (' ' :: ·)).map Text.trim = t :: ts := by
      obtain ⟨ht, hts⟩ := List.forall_mem_cons.mp h
      rw [List.map_cons, ht.trimmed.trim_eq_self, List.map_map]
      have htrim : ∀ x ∈ ts, (Text.trim ∘ (' ' :: ·)) x = id x := fun x hx =>
        (hts x hx).trimmed.trim_cons (by decide)
      rw [List.map_congr_left htrim, List.map_id]
    have hnil : (t :: ts).contains [] = false := by
      rw [← Bool.not_eq_true, List.contains_iff_mem]
      intro hmem
      exact (h [] hmem).ne_nil rfl
    simp only [operandTexts, String.toList_ofList, htrimmed.trim_eq_self, hne, if_false,
      splitOutside_intercalate h, hpieces, hnil, Bool.false_eq_true]

/-! ## Whole statements -/

structure IsMnemonic (mnemonic : List Char) : Prop where
  ne_nil : mnemonic ≠ []
  solid : ∀ c ∈ mnemonic, Text.isBlank c = false
  noDirective : mnemonic.head? ≠ some '.'
  plain : Text.Plain mnemonic

/-- Blanks that may follow a mnemonic without operands are not part of the statement. -/
private theorem exists_body {mnemonic : List Char} (hm : IsMnemonic mnemonic)
    {ts : List (List Char)} (hts : ∀ x ∈ ts, IsOperandText x) :
    ∃ body blanks, mnemonic ++ ' ' :: [',', ' '].intercalate ts = body ++ blanks ∧
      (∀ c ∈ blanks, Text.isBlank c = true) ∧ body ≠ [] ∧ Text.Trimmed body ∧
      Text.cutAtBlank body = (mnemonic, [',', ' '].intercalate ts) := by
  have htrimmed := Text.trimmed_of_solid hm.solid
  cases ts with
  | nil =>
    exact ⟨mnemonic, [' '], rfl, List.forall_mem_singleton.mpr (by decide), hm.ne_nil, htrimmed,
      Text.cutAtBlank_of_solid hm.solid⟩
  | cons t ts =>
    obtain ⟨hargs, hne⟩ := trimmed_intercalate hts
    exact ⟨_, [], (List.append_nil _).symm, by simp, by simp,
      htrimmed.append hargs hm.ne_nil hne [' '], Text.cutAtBlank_append hm.solid (by decide) hargs⟩

theorem mem_intercalate {sep : List Char} {ts : List (List Char)} {c : Char}
    (h : c ∈ sep.intercalate ts) : c ∈ sep ∨ ∃ t ∈ ts, c ∈ t := by
  induction ts with
  | nil => simp at h
  | cons t ts ih =>
    cases ts with
    | nil => exact .inr ⟨t, List.mem_cons_self, by simpa using h⟩
    | cons u us =>
      rw [List.intercalate_cons_cons, List.mem_append, List.mem_append] at h
      rcases h with (h | h) | h
      · exact .inr ⟨t, List.mem_cons_self, h⟩
      · exact .inl h
      · exact (ih h).imp_right fun ⟨x, hx, hc⟩ => ⟨x, List.mem_cons_of_mem t hx, hc⟩

private theorem plain_intercalate {ts : List (List Char)} (h : ∀ x ∈ ts, IsOperandText x) :
    Text.Plain ([',', ' '].intercalate ts) := by
  intro c hc
  rcases mem_intercalate hc with hc | ⟨t, ht, hc⟩
  · have hseparator : Text.Plain [',', ' '] := by simp [Text.Plain]
    exact hseparator c hc
  · exact (h t ht).plain c hc

private theorem parse?_labelled {name rest : List Char} (h : IsLabelName name)
    (hrest : ∀ c, rest.head? = some c → Text.isBlank c = true) :
    Section.parse? (String.ofList (name ++ ':' :: rest)) = none := by
  have hsolid : ∀ c ∈ name ++ [':'], Text.isBlank c = false := by
    intro c hc
    rcases List.mem_append.mp hc with hc | hc
    · exact (h.solid c hc).1
    · rw [List.mem_singleton.mp hc]
      decide
  have hword : Text.firstWord? (name ++ ':' :: rest) = some (name ++ [':']) := by
    rw [List.append_cons]
    exact Text.firstWord?_append hsolid (by simp) hrest
  rw [Section.parse?, String.toList_ofList, hword, Option.bind_some, List.find?_eq_none]
  intro sec _ hsame
  have hlast := congrArg List.getLast? (eq_of_beq hsame)
  rw [String.toList_ofList, List.map_append, List.getLast?_append] at hlast
  cases sec <;> simp [Section.name] at hlast

/-- A line of a section that reads as a statement. -/
structure Reads (current : Section) (raw : String) (statement : Statement) : Prop where
  plain : Text.Plain raw.toList
  ne_empty : lineCode raw ≠ ""
  noSection : Section.parse? (lineCode raw) = none
  read : Statement.read (some current) (lineCode raw) = .ok statement

theorem readLines_cons {current : Section} {raw : String} {statement : Statement}
    (h : Reads current raw statement) {k : Nat} {raws : List String} {ss : List SourceStatement}
    (hrest : readLines (some current) (SourceLine.numbered (k + 1) raws) = .ok ss) :
    readLines (some current) (SourceLine.numbered k (raw :: raws)) =
      .ok (⟨k, statement⟩ :: ss) := by
  rw [SourceLine.numbered, if_neg h.ne_empty, readLines, h.noSection, h.read, hrest]
  rfl

private theorem lineCode_eq {code blanks : List Char} (hcode : Text.Trimmed code) (hne : code ≠ [])
    (hblanks : ∀ c ∈ blanks, Text.isBlank c = true) (hplain : Text.Plain (code ++ blanks)) :
    lineCode (String.ofList (code ++ blanks)) = String.ofList code := by
  rw [lineCode, String.toList_ofList, beforeComment_eq_self hplain, hcode.trim_append hne hblanks]

theorem lineCode_eq_self {raw : String} (htrimmed : Text.Trimmed raw.toList)
    (hplain : Text.Plain raw.toList) : lineCode raw = raw := by
  rw [lineCode, beforeComment_eq_self hplain, htrimmed.trim_eq_self, String.ofList_toList]

theorem reads_label {name : List Char} (h : IsLabelName name) :
    Reads .text (String.ofList (name ++ [':']))
      (.code (some (String.ofList (Text.upper name))) none) := by
  have htrimmed : Text.Trimmed (name ++ [':']) :=
    (Text.trimmed_of_solid fun c hc => (h.solid c hc).1).append
      (Text.trimmed_singleton (by decide)) h.ne_nil (List.cons_ne_nil ':' []) []
  have hplain : Text.Plain (name ++ [':']) := h.plain.append (by simp [Text.Plain])
  have hcode : lineCode (String.ofList (name ++ [':'])) = String.ofList (name ++ [':']) := by
    apply lineCode_eq_self
    all_goals rwa [String.toList_ofList]
  refine ⟨by rwa [String.toList_ofList], ?_, ?_, ?_⟩
  · rw [hcode]
    simp
  · rw [hcode]
    exact parse?_labelled h (by simp)
  · rw [hcode, Statement.read, WrittenCode.parse, String.toList_ofList,
      takeLabel_append h (by simp [Text.trimStart])]
    rfl

theorem read_labelled {name mnemonic : List Char} {ts : List (List Char)} (h : IsLabelName name)
    (hm : IsMnemonic mnemonic) (hts : ∀ x ∈ ts, IsOperandText x) {raw : String}
    (hraw : raw = String.ofList
      (name ++ ':' :: ' ' :: (mnemonic ++ ' ' :: [',', ' '].intercalate ts))) :
    Text.Plain raw.toList ∧ lineCode raw ≠ "" ∧ Section.parse? (lineCode raw) = none ∧
      Statement.read (some .text) (lineCode raw) = do
        let inst ← Instruction.ofWritten
          ⟨String.ofList (Text.upper mnemonic), ts.map String.ofList⟩
        return .code (some (String.ofList (Text.upper name))) (some inst) := by
  obtain ⟨body, blanks, hbody, hblanks, hne, htrimmed, hcut⟩ := exists_body hm hts
  have hargs : Text.Plain (mnemonic ++ ' ' :: [',', ' '].intercalate ts) :=
    hm.plain.append (Text.Plain.append (s := [' ']) (by simp [Text.Plain]) (plain_intercalate hts))
  rw [hbody] at hargs hraw
  subst hraw
  have hplain : Text.Plain (name ++ ':' :: ' ' :: (body ++ blanks)) :=
    h.plain.append (Text.Plain.append (s := [':', ' ']) (by simp [Text.Plain]) hargs)
  have hcode : lineCode (String.ofList (name ++ ':' :: ' ' :: (body ++ blanks))) =
      String.ofList (name ++ ':' :: ' ' :: body) := by
    have hassoc : name ++ ':' :: ' ' :: (body ++ blanks) =
        (name ++ ([':', ' '] ++ body)) ++ blanks := by simp
    rw [hassoc] at hplain ⊢
    refine lineCode_eq ?_ (by simp) hblanks hplain
    exact (Text.trimmed_of_solid fun c hc => (h.solid c hc).1).append htrimmed h.ne_nil hne _
  have hstart : Text.trimStart (' ' :: body) = body := by
    have hdrop : Text.trimStart (' ' :: body) = Text.trimStart body :=
      List.dropWhile_cons_of_pos (by decide)
    rw [hdrop, Text.trimStart_eq_self htrimmed.head]
  have hline : '\n' ∉ Text.trimStart (' ' :: body) := by
    rw [hstart]
    intro hmem
    exact (hargs '\n' (List.mem_append_left _ hmem)).2.1 rfl
  refine ⟨by rwa [String.toList_ofList], ?_, ?_, ?_⟩
  · rw [hcode]
    simp
  · rw [hcode]
    refine parse?_labelled h ?_
    intro c hc
    cases hc
    decide
  · rw [hcode, Statement.read, WrittenCode.parse, String.toList_ofList, takeLabel_append h hline,
      hstart]
    simp only [bind, Except.bind, hne, if_false, hcut, hm.noDirective,
      operandTexts_intercalate hts, pure, Except.pure, Option.mapM_some]
    cases Instruction.ofWritten ⟨String.ofList (Text.upper mnemonic), ts.map String.ofList⟩ <;> rfl

theorem reads_inst {name mnemonic : List Char} {ts : List (List Char)} (h : IsLabelName name)
    (hm : IsMnemonic mnemonic) (hts : ∀ x ∈ ts, IsOperandText x) {inst : Instruction}
    (hinst : Instruction.ofWritten
      ⟨String.ofList (Text.upper mnemonic), ts.map String.ofList⟩ = .ok inst) :
    Reads .text
      (String.ofList (name ++ ':' :: ' ' :: (mnemonic ++ ' ' :: [',', ' '].intercalate ts)))
      (.code (some (String.ofList (Text.upper name))) (some inst)) := by
  obtain ⟨hplain, hne, hsection, hread⟩ := read_labelled h hm hts rfl
  rw [hinst] at hread
  exact ⟨hplain, hne, hsection, hread⟩

/-- A source of a section directive and one statement. -/
theorem readLines_section {source raw : String} {sec : Section}
    (hlines : textLines source = [sec.name, raw]) (hne : lineCode raw ≠ "")
    (hsection : Section.parse? (lineCode raw) = none) :
    readLines none (SourceLine.ofText source) = do
      let statement ← SourceLine.diagnose ⟨2, raw, lineCode raw⟩
        (Statement.read (some sec) (lineCode raw))
      return [⟨2, statement⟩] := by
  have hname : lineCode sec.name = sec.name ∧ sec.name ≠ "" ∧
      Section.parse? sec.name = some sec := by
    cases sec <;> decide
  have hnumbered : SourceLine.ofText source =
      [⟨1, sec.name, sec.name⟩, ⟨2, raw, lineCode raw⟩] := by
    rw [SourceLine.ofText, hlines]
    simp [SourceLine.numbered, hname, hne]
  rw [hnumbered, readLines, hname.2.2]
  simp only [readLines, hsection]
  rfl

end SuperH
