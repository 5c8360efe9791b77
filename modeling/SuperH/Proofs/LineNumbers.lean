import SuperH.Proofs.Sections

/-!
# The lines of a program's parts

Statements stand on increasing lines of their source, and every instruction, vector and byte of
data stands on the line of its statement.
-/
namespace SuperH

private theorem SourceLine.le_number_of_mem {number : Nat} {raws : List String} {l : SourceLine}
    (h : l ∈ numbered number raws) : number ≤ l.number := by
  obtain ⟨i, _, hi, _⟩ := mem_numbered h
  omega

private theorem SourceLine.pairwise_numbered (number : Nat) (raws : List String) :
    (numbered number raws).Pairwise (·.number < ·.number) := by
  induction raws generalizing number with
  | nil => exact .nil
  | cons raw raws ih =>
    rw [numbered]
    split
    · exact ih (number + 1)
    · refine .cons ?_ (ih (number + 1))
      intro l hl
      exact le_number_of_mem hl

private theorem inSections_sublist (current : Option Section) (ls : List SourceLine) :
    ((inSections current ls).map Prod.snd).Sublist ls := by
  induction ls generalizing current with
  | nil => exact .slnil
  | cons l ls ih =>
    rw [inSections]
    split
    · exact (ih _).cons l
    · exact (ih _).cons_cons l

/-- The statement is what its line reads as, in the section that the statement belongs to. -/
def SourceStatement.StandsIn (source : String) (s : SourceStatement) : Prop :=
  0 < s.line ∧ ∃ raw, (textLines source)[s.line - 1]? = some raw ∧
    Statement.read s.statement.section? (lineCode raw) = .ok s.statement

theorem SourceStatement.StandsIn.line_le {source : String} {s : SourceStatement}
    (h : s.StandsIn source) : 1 ≤ s.line ∧ s.line ≤ (textLines source).length := by
  obtain ⟨hpos, raw, hraw, _⟩ := h
  obtain ⟨hlt, _⟩ := List.getElem?_eq_some_iff.mp hraw
  omega

theorem standsIn_of_mem {source : String} {ss : List SourceStatement}
    (h : readLines none (SourceLine.ofText source) = .ok ss) {s : SourceStatement} (hs : s ∈ ss) :
    s.StandsIn source := by
  rw [readLines_eq_mapM] at h
  obtain ⟨⟨current, l⟩, hx, hread⟩ := exists_of_mem_mapM h hs
  obtain ⟨hnumber, hstatement⟩ := readLine_eq_ok.mp hread
  obtain ⟨i, hraw, hi, hcode⟩ := mem_numbered (mem_of_mem_inSections hx)
  dsimp only at hnumber hstatement hi hraw hcode
  refine ⟨by omega, l.raw, ?_, ?_⟩
  · rw [hnumber, hi, Nat.add_sub_cancel_left, hraw]
  · rw [Statement.section?_of_read hstatement, ← hcode, hstatement]

theorem pairwise_line {source : String} {ss : List SourceStatement}
    (h : readLines none (SourceLine.ofText source) = .ok ss) :
    ss.Pairwise (·.line < ·.line) := by
  have hlines : ss.map (·.line) =
      ((inSections none (SourceLine.ofText source)).map Prod.snd).map (·.number) := by
    rw [readLines_eq_mapM, mapM_eq_ok] at h
    generalize inSections none (SourceLine.ofText source) = xs at h
    induction h with
    | nil => rfl
    | cons hread _ ih => simp only [List.map_cons, ih, (readLine_eq_ok.mp hread).1]
  have hnumbers : ((SourceLine.ofText source).map (·.number)).Pairwise (· < ·) :=
    List.pairwise_map.mpr (SourceLine.pairwise_numbered 1 (textLines source))
  have hsublist : (ss.map (·.line)).Sublist ((SourceLine.ofText source).map (·.number)) := by
    rw [hlines]
    exact (inSections_sublist none _).map _
  exact List.pairwise_map.mp (hnumbers.sublist hsublist)

/-! ## Parts of a program -/

theorem SourceStatement.line_of_code? {s : SourceStatement} {c : CodeLine}
    (h : s.code? = some c) : c.line = s.line := by
  obtain ⟨label, rfl⟩ := code?_eq_some.mp h
  rfl

theorem SourceStatement.line_of_vector? {s : SourceStatement} {v : VectorLine}
    (h : s.vector? = some v) : v.line = s.line := by
  unfold vector? at h
  split at h
  · cases h
    rfl
  · cases h

theorem SourceStatement.line_of_mem_bytesAt {s : SourceStatement} {offset : Nat} {b : SourceByte}
    (h : b ∈ s.bytesAt offset) : b.line = s.line := by
  unfold bytesAt at h
  split at h
  · rw [Directive.bytesAt, List.mem_append] at h
    rcases h with h | h
    · rw [List.eq_of_mem_replicate h]
    · obtain ⟨value, _, rfl⟩ := List.mem_map.mp h
      rfl
  · cases h

theorem exists_of_mem_dataFrom {offset : Nat} {ss : List SourceStatement} {b : SourceByte}
    (h : b ∈ dataFrom offset ss) : ∃ s ∈ ss, b.line = s.line := by
  induction ss generalizing offset with
  | nil => cases h
  | cons s ss ih =>
    rcases List.mem_append.mp h with h | h
    · exact ⟨s, List.mem_cons_self, SourceStatement.line_of_mem_bytesAt h⟩
    · obtain ⟨t, ht, hline⟩ := ih h
      exact ⟨t, List.mem_cons_of_mem s ht, hline⟩

namespace Program

/-- The lines on which the instructions, the vectors and the bytes of data stand. -/
def lineNumbers (p : Program) : List Nat :=
  p.code.map (·.line) ++ p.vectors.map (·.line) ++ p.data.bytes.map (·.line)

theorem exists_of_mem_lineNumbers {lines : Array String} {ss : List SourceStatement} {n : Nat}
    (h : n ∈ (ofStatements lines ss).lineNumbers) : ∃ s ∈ ss, n = s.line := by
  simp only [lineNumbers, ofStatements, List.mem_append, List.mem_map, List.mem_filterMap] at h
  rcases h with (⟨c, ⟨s, hs, hc⟩, rfl⟩ | ⟨v, ⟨s, hs, hv⟩, rfl⟩) | ⟨b, hb, rfl⟩
  · exact ⟨s, hs, SourceStatement.line_of_code? hc⟩
  · exact ⟨s, hs, SourceStatement.line_of_vector? hv⟩
  · exact exists_of_mem_dataFrom hb

theorem lines_of_ofSource {source : String} {p : Program} (h : Program.ofSource source = .ok p) :
    p.lines = (textLines source).toArray := by
  obtain ⟨ss, _, rfl⟩ := ofSource_eq_ok.mp h
  rfl

theorem line_le_of_mem_lineNumbers {source : String} {p : Program}
    (hp : Program.ofSource source = .ok p) {n : Nat} (h : n ∈ p.lineNumbers) :
    1 ≤ n ∧ n ≤ (textLines source).length := by
  obtain ⟨ss, hss, rfl⟩ := ofSource_eq_ok.mp hp
  obtain ⟨s, hs, rfl⟩ := exists_of_mem_lineNumbers h
  exact (standsIn_of_mem hss hs).line_le

theorem getElem?_textLines {source : String} {p : Program} (hp : Program.ofSource source = .ok p)
    {n : Nat} (h : 1 ≤ n ∧ n ≤ (textLines source).length) :
    (textLines source)[n - 1]? = some (p.raw n) := by
  obtain ⟨ss, _, rfl⟩ := ofSource_eq_ok.mp hp
  obtain ⟨m, rfl⟩ : ∃ m, n = m + 1 := ⟨n - 1, by omega⟩
  have hm : m < (textLines source).length := by omega
  simp [raw, lineText, ofStatements, hm]

end Program

end SuperH
