import SuperH.Proofs.Definitions
import SuperH.Proofs.Disassembly
import SuperH.Proofs.Joining
import SuperH.Proofs.Names
import SuperH.Proofs.Reassembly
import SuperH.Proofs.Recordings

/-!
# What stays true while a source is recorded

The parts of a recording fit together, and each leads back to its line of the source. This holds
after every line: what has been recorded up to a line is what the statements before it say, and only
their lines and their order matter.
-/
namespace SuperH

namespace Recording

/-- A label of the text stands for the first instruction on its line or after it. -/
structure MarksCode (source : String) (r : Recording) (name : String) (symbol : Symbol) : Prop where
  defined : ∃ inst, SourceStatement.StandsIn source ⟨symbol.line, .code (some name) inst⟩
  offset : symbol.offset = 2 * r.text.countP (·.line < symbol.line)
  first : ∀ i code, r.text[i]? = some code → (symbol.offset ≤ 2 * i ↔ symbol.line ≤ code.line)

/-- A label of the data stands for the payload of its line, after the byte that aligns it. -/
def MarksData (source : String) (r : Recording) (name : String) (symbol : Symbol) : Prop :=
  ∃ before padding after linesBefore linesAfter directive payload,
    SourceStatement.StandsIn source ⟨symbol.line, .data (some name) directive payload⟩ ∧
    r.data.bytes = before ++ padding ++ payload ++ after ∧
    r.data.lines = linesBefore ++
      List.replicate (padding.length + payload.length) symbol.line ++ linesAfter ∧
    linesBefore.length = before.length ∧
    padding =
      (if (directive = .word ∨ directive = .long) ∧ before.length % 2 = 1 then [0] else []) ∧
    symbol.offset = (before ++ padding).length ∧
    (∀ n ∈ linesBefore, n < symbol.line) ∧ ∀ n ∈ linesAfter, symbol.line < n

/-- The word at an index belongs to an entry of the table. A branch is recorded for the index if
this entry takes a label, and then the word is the opcode without a displacement. -/
def ListsBranch (r : Recording) (index : Nat) (word : Word) : Prop :=
  ∃ e, (∀ pc, ∃ ops, sh2.decode? word pc = some (e, ops)) ∧
    ((∃ b ∈ r.branches, b.index = index) ↔ e.shape = [.label]) ∧
    ∀ b ∈ r.branches, b.index = index →
      b.format = e.format ∧ word = e.opcode ∧ e.format.branchDisp word = 0

structure Consistent (source : String) (r : Recording) : Prop where
  lines_eq : r.lines = (textLines source).toArray
  text_sorted : (r.text.map (·.line)).Pairwise (· < ·)
  text_line : ∀ code ∈ r.text, 1 ≤ code.line ∧ code.line ≤ r.lines.size
  vectors_sorted : (r.vectors.map (·.line)).Pairwise (· < ·)
  vector_line : ∀ vector ∈ r.vectors, 1 ≤ vector.line ∧ vector.line ≤ r.lines.size
  branches_sorted : (r.branches.map (·.index)).Pairwise (· < ·)
  index_lt : ∀ b ∈ r.branches, b.index < r.text.length
  listsBranch : ∀ i code, r.text[i]? = some code → r.ListsBranch i code.word
  isName_target : ∀ b ∈ r.branches, IsName b.target
  isName_key : ∀ x ∈ r.symbols.entries, IsName x.1
  nodup_keys : (r.symbols.entries.map Prod.fst).Nodup
  marksCode : ∀ x ∈ r.symbols.entries, x.2.segment = .text → r.MarksCode source x.1 x.2
  marksData : ∀ x ∈ r.symbols.entries, x.2.segment = .data → r.MarksData source x.1 x.2
  length_data : r.data.bytes.length = r.data.lines.length
  data_sorted : r.data.lines.Pairwise (· ≤ ·)
  data_line : ∀ n ∈ r.data.lines, 1 ≤ n ∧ n ≤ r.lines.size

structure Begins (r whole : Recording) : Prop where
  text : r.text <+: whole.text
  branches : r.branches <+: whole.branches
  vectors : r.vectors <+: whole.vectors
  bytes : r.data.bytes <+: whole.data.bytes
  lines : r.data.lines <+: whole.data.lines

theorem begins_append (lines : Array String) (before after : List SourceStatement) :
    (ofProgram (.ofStatements lines before)).Begins
      (ofProgram (.ofStatements lines (before ++ after))) where
  text := by simp [ofProgram, Program.ofStatements, List.filterMap_append]
  branches := by
    simp [ofProgram, Program.ofStatements, Program.branches_eq, List.filterMap_append,
      List.zipIdx_append]
  vectors := by simp [ofProgram, Program.ofStatements, List.filterMap_append]
  bytes := by simp [ofProgram, Program.ofStatements, dataFrom_append]
  lines := by simp [ofProgram, Program.ofStatements, dataFrom_append]

end Recording

namespace Program

/-! ## Lines -/

theorem pairwise_line_filterMap {α : Type} {f : SourceStatement → Option α} {line : α → Nat}
    (hf : ∀ s a, f s = some a → line a = s.line) {ss : List SourceStatement}
    (h : ss.Pairwise (·.line < ·.line)) : ((ss.filterMap f).map line).Pairwise (· < ·) := by
  rw [List.pairwise_map, List.pairwise_filterMap]
  apply h.imp
  intro s t hst a ha b hb
  rw [hf s a ha, hf t b hb]
  exact hst

private theorem pairwise_line_dataFrom {ss : List SourceStatement}
    (h : ss.Pairwise (·.line < ·.line)) (offset : Nat) :
    ((dataFrom offset ss).map (·.line)).Pairwise (· ≤ ·) := by
  rw [List.pairwise_map]
  induction ss generalizing offset with
  | nil => exact .nil
  | cons s ss ih =>
    obtain ⟨hs, hss⟩ := List.pairwise_cons.mp h
    rw [dataFrom, List.pairwise_append]
    refine ⟨?_, ih hss _, ?_⟩
    · apply List.pairwise_of_forall_mem_list
      intro a ha b hb
      rw [SourceStatement.line_of_mem_bytesAt ha, SourceStatement.line_of_mem_bytesAt hb]
    · intro a ha b hb
      obtain ⟨t, ht, hline⟩ := exists_of_mem_dataFrom hb
      rw [SourceStatement.line_of_mem_bytesAt ha, hline]
      exact (hs t ht).le

/-! ## Branches -/

theorem pairwise_index (p : Program) : (p.branches.map (·.index)).Pairwise (· < ·) := by
  rw [List.pairwise_map, branches, List.pairwise_filterMap]
  have hindices : (p.code.zipIdx.map Prod.snd).Pairwise (· < ·) := by
    rw [List.zipIdx_map_snd]
    exact List.pairwise_lt_range'
  apply (List.pairwise_map.mp hindices).imp
  intro x y hxy b hb c hc
  obtain ⟨_, _, rfl⟩ := Option.map_eq_some_iff.mp hb
  obtain ⟨_, _, rfl⟩ := Option.map_eq_some_iff.mp hc
  exact hxy

private theorem exists_target? {inst : Instruction} (he : inst.entry.WellFormed)
    (hops : inst.operands.map Operand.mode = inst.entry.shape)
    (hlabel : inst.entry.shape = [.label]) : ∃ target, inst.target? = some target := by
  obtain ⟨_, hwidth⟩ := he.2.2.2.2.2.2 (by simp [hlabel])
  obtain ⟨bits, hbits⟩ := Option.isSome_iff_exists.mp hwidth
  have hentry : inst.entry.branchWidth = some bits := by
    rw [Entry.branchWidth, if_pos hlabel, hbits]
  rw [hlabel] at hops
  obtain ⟨op, hop, hmode⟩ := List.map_eq_singleton_iff.mp hops
  cases op with
  | label target => exact ⟨target, by rw [Instruction.target?, hentry, hop]⟩
  | _ => cases hmode

private theorem listsBranch_of_isWritten {p : Program} {i : Nat} {line : CodeLine} {code : String}
    (hline : p.code[i]? = some line) (h : line.inst.IsWritten code) :
    (Recording.ofProgram p).ListsBranch i line.inst.word := by
  obtain ⟨_, _, _, _, hlookup, hencode⟩ := h
  obtain ⟨he, _, hshape⟩ := lookup?_eq_some hlookup
  have hwf := instructions_wellFormed _ he
  have htargets {b : Branch} (hb : b ∈ p.branches) (hindex : b.index = i) :
      line.inst.target? = some b.target ∧ line.inst.entry.format = b.format := by
    obtain ⟨line', hline', hb⟩ := mem_branches.mp hb
    rw [hindex, hline] at hline'
    cases hline'
    exact hb
  refine ⟨line.inst.entry, ?_, ⟨?_, ?_⟩, ?_⟩
  · intro pc
    exact ⟨_, decode?_of_covers he (Entry.covers_encode hwf hencode) pc⟩
  · rintro ⟨b, hb, hindex⟩
    exact (Instruction.target?_eq_some (htargets hb hindex).1).1
  · intro hlabel
    obtain ⟨target, htarget⟩ := exists_target? hwf hshape.symm hlabel
    exact ⟨⟨i, target, line.inst.entry.format⟩, mem_branches.mpr ⟨line, hline, htarget, rfl⟩, rfl⟩
  · intro b hb hindex
    obtain ⟨htarget, hformat⟩ := htargets hb hindex
    obtain ⟨hlabel, ⟨bits, hbits⟩, rest, hops⟩ := Instruction.target?_eq_some htarget
    have hrest : rest = [] := by
      rw [hops, hlabel] at hshape
      simpa [Operand.mode] using hshape.symm
    rw [hops, hrest, Entry.encode, Format.encode_label hbits, Except.ok.injEq] at hencode
    refine ⟨hformat.symm, hencode.symm, ?_⟩
    rw [← hencode]
    exact branch_opcodes _ he hlabel

/-! ## Symbols -/

section Statements

variable {source : String} {lines : Array String} {ss : List SourceStatement}

private theorem exists_statement_of_mem_entries (hstands : ∀ s ∈ ss, s.StandsIn source)
    {x : String × Symbol} (hx : x ∈ (ofStatements lines ss).symbols.entries) :
    IsName x.1 ∧ ∃ before s after, ss = before ++ s :: after ∧ s.StandsIn source ∧
      Event.defined x.1 x.2 ∈ Event.ofStatement (before.filterMap SourceStatement.code?).length
        (dataFrom 0 before).length s := by
  obtain ⟨name, hdefined, hkey⟩ := exists_defined_of_mem_entries hx
  obtain ⟨before, s, after, rfl, hs⟩ := exists_split_of_mem_ofStatements hdefined
  simp only [Nat.zero_add] at hs
  have hstand : s.StandsIn source := hstands s (by simp)
  have hname : IsName name := by
    obtain ⟨_, raw, _, hread⟩ := hstand
    apply Statement.isName_of_label? hread
    rcases defined_mem_ofStatement hs with ⟨inst, rfl, _⟩ | ⟨directive, payload, rfl, _⟩ <;> rfl
  rw [hname.upcase] at hkey
  rw [hkey]
  exact ⟨hname, before, s, after, rfl, hstand, hs⟩

private theorem marksCode_of_mem_entries (hlines : ss.Pairwise (·.line < ·.line))
    (hstands : ∀ s ∈ ss, s.StandsIn source) {x : String × Symbol}
    (hx : x ∈ (ofStatements lines ss).symbols.entries) (hsegment : x.2.segment = .text) :
    (Recording.ofProgram (ofStatements lines ss)).MarksCode source x.1 x.2 := by
  obtain ⟨_, before, s, after, rfl, hstand, hs⟩ := exists_statement_of_mem_entries hstands hx
  obtain ⟨inst, rfl, _, hoffset⟩ | ⟨_, _, _, hdata, _⟩ := defined_mem_ofStatement hs
  · obtain ⟨rest, hcode, hfirst, hrest⟩ := code_cut hlines
    obtain ⟨hcount, hcut⟩ := cut_at_line hfirst hrest
    refine ⟨⟨inst, hstand⟩, ?_, ?_⟩
    · rw [hoffset, Recording.ofProgram, ofStatements, hcode, List.countP_map]
      exact congrArg (2 * ·) hcount.symm
    · intro i code hi
      rw [Recording.ofProgram, ofStatements, hcode, List.getElem?_map] at hi
      obtain ⟨line, hline, rfl⟩ := Option.map_eq_some_iff.mp hi
      rw [← hcut i line hline, hoffset]
      omega
  · rw [hsegment] at hdata
    cases hdata

private theorem replicate_startAt (d : Directive) (offset : Nat) :
    List.replicate (d.startAt offset - offset) (0 : UInt8) =
      if (d = .word ∨ d = .long) ∧ offset % 2 = 1 then [0] else [] := by
  unfold Directive.startAt
  by_cases hodd : offset % 2 = 1
  · cases d <;> simp [hodd, Directive.width]
  · simp [hodd]

private theorem marksData_of_mem_entries (hlines : ss.Pairwise (·.line < ·.line))
    (hstands : ∀ s ∈ ss, s.StandsIn source) {x : String × Symbol}
    (hx : x ∈ (ofStatements lines ss).symbols.entries) (hsegment : x.2.segment = .data) :
    (Recording.ofProgram (ofStatements lines ss)).MarksData source x.1 x.2 := by
  obtain ⟨_, before, s, after, rfl, hstand, hs⟩ := exists_statement_of_mem_entries hstands hx
  obtain ⟨_, _, htext, _⟩ | ⟨directive, payload, rfl, _, hoffset⟩ := defined_mem_ofStatement hs
  · rw [hsegment] at htext
    cases htext
  · obtain ⟨rest, hdata, hfirst, hrest⟩ := data_cut hlines 0
    have hle := directive.le_startAt (dataFrom 0 before).length
    refine ⟨(dataFrom 0 before).map (·.value),
      List.replicate (directive.startAt (dataFrom 0 before).length - (dataFrom 0 before).length) 0,
      rest.map (·.value), (dataFrom 0 before).map (·.line), rest.map (·.line), directive, payload,
      hstand, ?_, ?_, ?_, ?_, ?_, ?_, ?_⟩
    · simp [Recording.ofProgram, ofStatements, hdata, SourceStatement.bytesAt, Directive.bytesAt,
        Function.comp_def]
    · simp [Recording.ofProgram, ofStatements, hdata, SourceStatement.bytesAt, Directive.bytesAt,
        Function.comp_def, ← List.replicate_append_replicate]
    · simp
    · rw [List.length_map]
      exact replicate_startAt directive _
    · rw [hoffset, List.length_append, List.length_map, List.length_replicate]
      omega
    · simpa using hfirst
    · simpa using hrest

private theorem exists_read_of_mem_code (hstands : ∀ s ∈ ss, s.StandsIn source) {line : CodeLine}
    (hline : line ∈ (ofStatements lines ss).code) :
    ∃ raw label,
      Statement.read (some .text) (lineCode raw) = .ok (.code label (some line.inst)) := by
  obtain ⟨s, hs, hcode⟩ := List.mem_filterMap.mp hline
  obtain ⟨label, rfl⟩ := SourceStatement.code?_eq_some.mp hcode
  obtain ⟨_, raw, _, hread⟩ := hstands _ hs
  exact ⟨raw, label, hread⟩

private theorem isName_of_mem_branches (hstands : ∀ s ∈ ss, s.StandsIn source) {b : Branch}
    (hb : b ∈ (ofStatements lines ss).branches) : IsName b.target := by
  obtain ⟨line, hline, htarget, _⟩ := mem_branches.mp hb
  obtain ⟨_, _, hread⟩ := exists_read_of_mem_code hstands (List.mem_of_getElem? hline)
  obtain ⟨_, _, hinst⟩ := Statement.exists_written_of_read hread
  exact Instruction.isName_of_target? hinst htarget

theorem consistent_ofStatements (hlines : ss.Pairwise (·.line < ·.line))
    (hstands : ∀ s ∈ ss, s.StandsIn source) :
    (Recording.ofProgram (ofStatements (textLines source).toArray ss)).Consistent source := by
  have hbound {n : Nat} (hn : n ∈ (ofStatements (textLines source).toArray ss).lineNumbers) :
      1 ≤ n ∧ n ≤ (textLines source).toArray.size := by
    obtain ⟨s, hs, rfl⟩ := exists_of_mem_lineNumbers hn
    exact (hstands s hs).line_le
  exact {
    lines_eq := rfl
    text_sorted := by
      rw [Recording.ofProgram, List.map_map]
      exact pairwise_line_filterMap (fun _ _ => SourceStatement.line_of_code?) hlines
    text_line := by
      intro code hcode
      obtain ⟨line, hline, rfl⟩ := List.mem_map.mp hcode
      exact hbound (List.mem_append_left _ (List.mem_append_left _ (List.mem_map_of_mem hline)))
    vectors_sorted := pairwise_line_filterMap (fun _ _ => SourceStatement.line_of_vector?) hlines
    vector_line := by
      intro vector hvector
      exact hbound (List.mem_append_left _ (List.mem_append_right _ (List.mem_map_of_mem hvector)))
    branches_sorted := pairwise_index _
    index_lt := by
      intro b hb
      obtain ⟨line, hline, _⟩ := mem_branches.mp hb
      rw [Recording.ofProgram, List.length_map]
      exact (List.getElem?_eq_some_iff.mp hline).1
    listsBranch := by
      intro i code hcode
      rw [Recording.ofProgram, List.getElem?_map] at hcode
      obtain ⟨line, hline, rfl⟩ := Option.map_eq_some_iff.mp hcode
      obtain ⟨_, _, hread⟩ := exists_read_of_mem_code hstands (List.mem_of_getElem? hline)
      exact listsBranch_of_isWritten hline (Statement.isWritten_of_read hread)
    isName_target := fun b hb => isName_of_mem_branches hstands hb
    isName_key := by
      intro x hx
      change x ∈ (ofStatements (textLines source).toArray ss).symbols.entries at hx
      exact (exists_statement_of_mem_entries hstands hx).1
    nodup_keys := SuperH.nodup_keys _
    marksCode := fun x hx => marksCode_of_mem_entries hlines hstands hx
    marksData := fun x hx => marksData_of_mem_entries hlines hstands hx
    length_data := by simp [Recording.ofProgram]
    data_sorted := pairwise_line_dataFrom hlines 0
    data_line := fun n hn => hbound (List.mem_append_right _ hn) }

end Statements

theorem consistent_of_ofSource {source : String} {p : Program} (h : ofSource source = .ok p) :
    (Recording.ofProgram p).Consistent source := by
  obtain ⟨ss, hss, rfl⟩ := ofSource_eq_ok.mp h
  exact consistent_ofStatements (pairwise_line hss) fun s hs => standsIn_of_mem hss hs

end Program

namespace Recorder

private theorem exists_steps_take {source : String} {ss : List SourceStatement}
    (h : readLines none (SourceLine.ofText source) = .ok ss) (n : Nat) :
    ∃ s before after, ss = before ++ after ∧
      (start (textLines source)).steps 1 ((textLines source).take n) = .ok s ∧
      s.recording = .ofProgram (.ofStatements (textLines source).toArray before) := by
  rw [SourceLine.ofText, ← List.take_append_drop n (textLines source),
    SourceLine.numbered_append, readLines_append] at h
  obtain ⟨before, hbefore, h⟩ := bind_eq_ok.mp h
  obtain ⟨after, _, h⟩ := bind_eq_ok.mp h
  cases h
  have hsteps := steps_eq (textLines source).toArray none [] 1 ((textLines source).take n)
  rw [hbefore] at hsteps
  obtain ⟨s, hs, hrecording⟩ := map_eq_ok.mp hsteps
  exact ⟨s, before, after, rfl, hs, hrecording⟩

end Recorder

end SuperH
