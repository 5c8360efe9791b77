import SuperH.Proofs.Joining
import SuperH.Proofs.LineNumbers
import SuperH.Proofs.Linking
import SuperH.Proofs.Placing

/-!
# Where errors are reported

Every diagnostic of a source names one of its lines, with the text of that line. Reading reports
the first line that it cannot read, and depends on nothing after it; placing and linking report
the line of an instruction, a vector or a byte of data.
-/
namespace SuperH

theorem SourceLine.numbered_eq_append {number : Nat} {raws : List String}
    {before after : List SourceLine} {l : SourceLine}
    (h : numbered number raws = before ++ l :: after) :
    ∃ i, raws[i]? = some l.raw ∧ l.number = number + i ∧
      numbered number (raws.take i) = before ∧
      numbered number (raws.take (i + 1)) = before ++ [l] := by
  induction raws generalizing number before with
  | nil => simp [numbered] at h
  | cons raw raws ih =>
    by_cases hcode : lineCode raw = ""
    · simp only [numbered, hcode, if_true] at h
      obtain ⟨i, hraw, hnumber, hbefore, hupto⟩ := ih h
      refine ⟨i + 1, by simpa using hraw, by omega, ?_, ?_⟩
      · simp [numbered, hcode, hbefore]
      · simp [numbered, hcode, hupto]
    · simp only [numbered, hcode, if_false] at h
      cases before with
      | nil =>
        cases h
        exact ⟨0, rfl, rfl, rfl, by simp [numbered, hcode]⟩
      | cons m before =>
        rw [List.cons_append, List.cons.injEq] at h
        obtain ⟨i, hraw, hnumber, hbefore, hupto⟩ := ih h.2
        refine ⟨i + 1, by simpa using hraw, by omega, ?_, ?_⟩
        · simp [numbered, hcode, hbefore, h.1]
        · simp [numbered, hcode, hupto, h.1]

namespace Program

theorem ofSource_eq_error {source : String} {d : Diagnostic} :
    ofSource source = .error d ↔ readLines none (SourceLine.ofText source) = .error d := by
  unfold ofSource
  rw [bind_eq_error]
  simp [pure, Except.pure]

/-- A source that cannot be read: the lines before the reported one can be, and the lines up to it
cannot, whatever comes after them. -/
theorem ofSource_error_line {source : String} {d : Diagnostic} (h : ofSource source = .error d) :
    (1 ≤ d.line ∧ d.line ≤ (textLines source).length) ∧
    (textLines source)[d.line - 1]? = some d.raw ∧
    (∀ other, textLines other = (textLines source).take (d.line - 1) →
      ∃ p, ofSource other = .ok p) ∧
    ∀ other, (textLines other).take d.line = (textLines source).take d.line →
      ofSource other = .error d := by
  obtain ⟨before, l, after, hsplit, ⟨ss, hss⟩, hrest, hline, hraw⟩ :=
    readLines_eq_error (ofSource_eq_error.mp h)
  obtain ⟨i, hi, hnumber, hbefore, hupto⟩ := SourceLine.numbered_eq_append hsplit
  obtain ⟨hlt, _⟩ := List.getElem?_eq_some_iff.mp hi
  have hd : d.line = i + 1 := by omega
  refine ⟨by omega, ?_, ?_, ?_⟩
  · rw [hd, hraw, Nat.add_sub_cancel, hi]
  · intro other hother
    rw [hd, Nat.add_sub_cancel] at hother
    refine ⟨_, ofSource_eq_ok.mpr ⟨ss, ?_, rfl⟩⟩
    rw [SourceLine.ofText, hother, hbefore, hss]
  · intro other hother
    rw [ofSource_eq_error, SourceLine.ofText, ← List.take_append_drop d.line (textLines other),
      hother, SourceLine.numbered_append, hd, hupto, List.append_assoc]
    exact hrest _

private theorem vectorLine_mem {p : Program} {i : Nat} (h : i < p.vectors.length) :
    p.vectorLine i ∈ p.lineNumbers := by
  simp only [vectorLine, List.getElem?_eq_getElem h, lineNumbers, List.mem_append, List.mem_map]
  exact .inl (.inr ⟨_, List.getElem_mem h, rfl⟩)

private theorem line_mem_of_words {p : Program} {i line : Nat} {word : Word}
    (h : p.data.words[i]? = some (word, line)) : line ∈ p.lineNumbers := by
  have hpairs (bytes : List SourceByte) (hmem : (word, line) ∈ DataSection.pairUp bytes) :
      line ∈ bytes.map (·.line) := by
    induction bytes using DataSection.pairUp.induct with
    | case1 => cases hmem
    | case2 high =>
      cases List.mem_singleton.mp hmem
      simp
    | case3 high low rest ih =>
      rcases List.mem_cons.mp hmem with hmem | hmem
      · cases hmem
        simp
      · simp [ih hmem]
  exact List.mem_append_right _ (hpairs _ (List.mem_of_getElem? h))

/-- What does not fit starts with a vector, an instruction or a byte that exists. -/
theorem place_eq_error {p : Program} {l : Layout} {d : Diagnostic} (hl : l.validate = .ok ())
    (h : p.place l = .error d) : ∃ line ∈ p.lineNumbers, ∃ e, d = p.diagnose line e := by
  obtain ⟨_, _, hentries, _⟩ := Layout.validate_eq_ok.mp hl
  rw [place_eq] at h
  cases hsize : l.vectableSize p.vectors.length with
  | error e =>
    have hextra : l.vectableEntries.getD 0 < p.vectors.length := by
      obtain ⟨n, hn, hlt⟩ := Layout.vectableSize_eq_error hsize
      rwa [hn]
    rw [hsize] at h
    cases h
    exact ⟨_, vectorLine_mem hextra, e, rfl⟩
  | ok size =>
    simp only [hsize] at h
    split at h
    · rename_i hlarge
      -- A table of fixed size fits, so this one is as long as its vectors need.
      have hextra : l.segmentSize / 4 < p.vectors.length := by
        rcases Layout.vectableSize_eq_ok.mp hsize with ⟨n, hn, _, rfl⟩ | ⟨_, rfl⟩
        · have hfits := hentries n hn
          omega
        · omega
      cases h
      exact ⟨_, vectorLine_mem hextra, _, rfl⟩
    · split at h
      · rename_i first hfirst
        cases h
        refine ⟨first.line, ?_, _, rfl⟩
        simp only [lineNumbers, List.mem_append, List.mem_map]
        exact .inl (.inl ⟨first, List.mem_of_getElem? hfirst, rfl⟩)
      · split at h
        · rename_i word line hword
          cases h
          exact ⟨line, line_mem_of_words hword, _, rfl⟩
        · cases h

private theorem line_mem_of_link {p : Program} {place : Placement} {d : Diagnostic}
    (h : p.link place = .error d) : ∃ line ∈ p.lineNumbers, ∃ e, d = p.diagnose line e := by
  obtain ⟨_, b, _, line, e, _, _, hline, _, rfl⟩ := link_eq_error h
  refine ⟨line.line, ?_, e, rfl⟩
  simp only [lineNumbers, List.mem_append, List.mem_map]
  exact .inl (.inl ⟨line, List.mem_of_getElem? hline, rfl⟩)

end Program

theorem assemble_eq_error {source : String} {l : Layout} {d : Diagnostic} :
    assemble source l = .error (.source d) ↔ l.validate = .ok () ∧
      (Program.ofSource source = .error d ∨ ∃ p, Program.ofSource source = .ok p ∧
        (p.place l = .error d ∨ ∃ place, p.place l = .ok place ∧ p.link place = .error d)) := by
  unfold assemble
  simp only [bind_eq_error, mapError_eq_error, mapError_eq_ok, pure, Except.pure, reduceCtorEq,
    and_false, exists_false, or_false, false_or, Failure.source.injEq, exists_eq_right]
  constructor
  · rintro ⟨_, hl, h⟩
    exact ⟨hl, h⟩
  · rintro ⟨hl, h⟩
    exact ⟨(), hl, h⟩

/-- A source that is refused is refused on one of its lines, quoted as it stands. If it cannot be
read, the source cut before that line can be, and every source that starts with the same lines is
refused in the same way. -/
theorem assemble_error_line {source : String} {l : Layout} {d : Diagnostic}
    (h : assemble source l = .error (.source d)) :
    (1 ≤ d.line ∧ d.line ≤ (textLines source).length) ∧
    (textLines source)[d.line - 1]? = some d.raw ∧
    (Program.ofSource source = .error d →
      (∃ before after p, source = before ++ after ∧
        textLines before = (textLines source).take (d.line - 1) ∧
        textLines after = (textLines source).drop (d.line - 1) ∧
        Program.ofSource before = .ok p) ∧
      ∀ other, (textLines other).take d.line = (textLines source).take d.line →
        Program.ofSource other = .error d ∧
        ∀ l' : Layout, l'.validate = .ok () → assemble other l' = .error (.source d)) := by
  obtain ⟨hl, hread | ⟨p, hp, hlater⟩⟩ := assemble_eq_error.mp h
  · obtain ⟨hrange, hraw, hcut, hsame⟩ := Program.ofSource_error_line hread
    refine ⟨hrange, hraw, fun _ => ⟨?_, ?_⟩⟩
    · obtain ⟨before, after, hsource, hbefore, hafter⟩ :=
        exists_textLines_cut source (d.line - 1)
      obtain ⟨p, hp⟩ := hcut before hbefore
      exact ⟨before, after, p, hsource, hbefore, hafter, hp⟩
    · intro other hother
      have herror := hsame other hother
      exact ⟨herror, fun l' hl' => assemble_eq_error.mpr ⟨hl', .inl herror⟩⟩
  · have hline : ∃ line ∈ p.lineNumbers, ∃ e, d = p.diagnose line e := by
      rcases hlater with hplace | ⟨place, _, hlink⟩
      · exact Program.place_eq_error hl hplace
      · exact Program.line_mem_of_link hlink
    obtain ⟨line, hmem, e, rfl⟩ := hline
    have hrange := Program.line_le_of_mem_lineNumbers hp hmem
    refine ⟨hrange, Program.getElem?_textLines hp hrange, ?_⟩
    intro hread
    rw [hp] at hread
    cases hread

/-- A line that cannot be read, before other lines that cannot be read either, and a vector for
which there is no room. -/
theorem assemble_error_line_fault :
    (assemble ".text\nNOP\n\tFOO R1 ;x\n.data\n" {} =
        .error (.source ⟨3, "\tFOO R1 ;x", .unsupportedInstruction "FOO" [.reg]⟩) ∧
      (∃ before after p, ".text\nNOP\n\tFOO R1 ;x\n.data\n" = before ++ after ∧
        textLines before = [".text", "NOP"] ∧ Program.ofSource before = .ok p) ∧
      assemble ".text\r\nNOP\n\tFOO R1 ;x\n!!\n" { textOrigin := 4096 } =
        .error (.source ⟨3, "\tFOO R1 ;x", .unsupportedInstruction "FOO" [.reg]⟩)) ∧
    assemble ".vectable\nA: 10\nB: 20\n\nC: 30\n" { segmentSize := 8, dataOrigin := 8 } =
        .error (.source ⟨5, "C: 30", .segmentOverflow .text 12 8⟩) ∧
      (1 ≤ 5 ∧ 5 ≤ (textLines ".vectable\nA: 10\nB: 20\n\nC: 30\n").length) ∧
      (textLines ".vectable\nA: 10\nB: 20\n\nC: 30\n")[5 - 1]? = some "C: 30" := by
  have hread : assemble ".text\nNOP\n\tFOO R1 ;x\n.data\n" {} =
      .error (.source ⟨3, "\tFOO R1 ;x", .unsupportedInstruction "FOO" [.reg]⟩) := by
    decide +kernel
  have hplace : assemble ".vectable\nA: 10\nB: 20\n\nC: 30\n"
      { segmentSize := 8, dataOrigin := 8 } =
        .error (.source ⟨5, "C: 30", .segmentOverflow .text 12 8⟩) := by
    decide +kernel
  obtain ⟨⟨before, after, p, hsource, hbefore, _, hp⟩, hsame⟩ :=
    (assemble_error_line hread).2.2 (by decide +kernel)
  obtain ⟨hrange, hraw, _⟩ := assemble_error_line hplace
  refine ⟨⟨hread, ?_, ?_⟩, hplace, hrange, hraw⟩
  · exact ⟨before, after, p, hsource, hbefore, hp⟩
  · exact (hsame _ (by decide +kernel)).2 _ (by decide)

end SuperH
