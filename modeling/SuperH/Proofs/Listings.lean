import SuperH.Listing
import SuperH.Proofs.AddressSpace
import SuperH.Proofs.Disassembly
import SuperH.Proofs.Dumping
import SuperH.Proofs.Invariants
import SuperH.Proofs.Reassembly

/-!
# Complete listings

A listing goes through the lines of a source and takes an instruction from the front of the code
whenever its line comes up. Instructions stand on increasing lines, so none of them is left behind:
each gets the row of its line, with its address, its word and what the word decodes to.
-/
namespace SuperH.Listing

/-! ## Rows -/

theorem map_line_rowsFrom (line : Nat) (code : List (Nat × Nat × Word)) (raws : List String) :
    (rowsFrom line code raws).map Row.line = List.range' line raws.length := by
  fun_induction rowsFrom line code raws with
  | case1 => rfl
  | case2 _ _ _ _ _ _ ih => rw [List.map_cons, ih, List.length_cons, List.range'_succ]
  | case3 _ _ _ _ _ _ _ _ ih => rw [List.map_cons, ih, List.length_cons, List.range'_succ]
  | case4 _ _ _ ih => rw [List.map_cons, ih, List.length_cons, List.range'_succ]

private theorem map_raw_rowsFrom (line : Nat) (code : List (Nat × Nat × Word))
    (raws : List String) :
    (rowsFrom line code raws).map Row.raw = raws := by
  fun_induction rowsFrom line code raws with
  | case1 => rfl
  | case2 _ _ _ _ _ _ ih => rw [List.map_cons, ih]
  | case3 _ _ _ _ _ _ _ _ ih => rw [List.map_cons, ih]
  | case4 _ _ _ ih => rw [List.map_cons, ih]

/-- The row of an instruction, where `raws` are the lines from number `line` on. -/
def rowOf (line : Nat) (raws : List String) (x : Nat × Nat × Word) : Row :=
  ⟨x.1, raws.getD (x.1 - line) "", some x.2⟩

private theorem map_rowOf_cons {line : Nat} {code : List (Nat × Nat × Word)}
    (h : ∀ x ∈ code, line < x.1) (raw : String) (raws : List String) :
    code.map (rowOf line (raw :: raws)) = code.map (rowOf (line + 1) raws) := by
  apply List.map_congr_left
  intro x hx
  have hlt := h x hx
  rw [rowOf, rowOf, show x.1 - line = (x.1 - (line + 1)) + 1 by omega, List.getD_cons_succ]

/-- The rows of instructions on increasing lines. At each line the next instruction is the only one
that can stand there. -/
theorem filter_rowsFrom {line : Nat} {code : List (Nat × Nat × Word)} {raws : List String}
    (hsorted : code.Pairwise (·.1 < ·.1))
    (hrange : ∀ x ∈ code, line ≤ x.1 ∧ x.1 < line + raws.length) :
    (rowsFrom line code raws).filter (·.code.isSome) = code.map (rowOf line raws) := by
  fun_induction rowsFrom line code raws with
  | case1 line code =>
    cases code with
    | nil => rfl
    | cons x code =>
      have hx := hrange x List.mem_cons_self
      rw [List.length_nil] at hx
      omega
  | case2 raw raws line addr word code ih =>
    obtain ⟨hlater, hcode⟩ := List.pairwise_cons.mp hsorted
    have hrest : ∀ x ∈ code, line + 1 ≤ x.1 ∧ x.1 < line + 1 + raws.length := by
      intro x hx
      have hlt : line < x.1 := hlater x hx
      have hle := (hrange x (List.mem_cons_of_mem _ hx)).2
      rw [List.length_cons] at hle
      omega
    rw [List.filter_cons_of_pos (by simp), ih hcode hrest, List.map_cons, map_rowOf_cons hlater,
      rowOf, Nat.sub_self, List.getD_cons_zero]
  | case3 line raw raws n addr word code hn ih =>
    have hlater : ∀ x ∈ (n, addr, word) :: code, line < x.1 := by
      intro x hx
      have hfirst := (hrange (n, addr, word) List.mem_cons_self).1
      rcases List.mem_cons.mp hx with rfl | hx
      · exact lt_of_le_of_ne hfirst (Ne.symm hn)
      · exact hfirst.trans_lt ((List.pairwise_cons.mp hsorted).1 x hx)
    have hrest : ∀ x ∈ (n, addr, word) :: code, line + 1 ≤ x.1 ∧ x.1 < line + 1 + raws.length := by
      intro x hx
      have hlt := hlater x hx
      have hle := (hrange x hx).2
      rw [List.length_cons] at hle
      omega
    rw [List.filter_cons_of_neg (by simp), ih hsorted hrest, map_rowOf_cons hlater]
  | case4 line raw raws ih =>
    rw [List.filter_cons_of_neg (by simp), ih .nil (by simp), List.map_nil, List.map_nil]

/-- The instructions that have words, each with its line, its address and its word. -/
def codeOf (p : Program) (words : List Word) (place : Placement) : List (Nat × Nat × Word) :=
  (p.code.zip words).zipIdx.map fun x => (x.1.1.line, place.codeAddress x.2, x.1.2)

private theorem rows_eq (p : Program) (words : List Word) (place : Placement) :
    rows p words place = rowsFrom 1 (codeOf p words place) p.lines.toList :=
  rfl

private theorem map_fst_codeOf (p : Program) (words : List Word) (place : Placement) :
    (codeOf p words place).map Prod.fst = (p.code.take words.length).map (·.line) := by
  have hzip : (p.code.zip words).map Prod.fst = p.code.take words.length := by
    rw [List.zip_eq_zip_take_min, List.map_fst_zip (by simp), Nat.min_comm, ← List.take_eq_take_min]
  calc (codeOf p words place).map Prod.fst
      = (((p.code.zip words).zipIdx.map Prod.fst).map Prod.fst).map (·.line) := by
        rw [codeOf, List.map_map, List.map_map, List.map_map]
        rfl
    _ = (p.code.take words.length).map (·.line) := by rw [List.zipIdx_map_fst, hzip]

private theorem getElem?_codeOf (p : Program) (words : List Word) (place : Placement) (k : Nat) :
    (codeOf p words place)[k]? = (do
      let line ← p.code[k]?
      let word ← words[k]?
      return (line.line, place.codeAddress k, word)) := by
  rw [codeOf, List.getElem?_map, List.getElem?_zipIdx, List.zip, List.getElem?_zipWith]
  cases p.code[k]? <;> cases words[k]? <;> simp

private theorem codeOf_sorted {source : String} {p : Program} (hp : Program.ofSource source = .ok p)
    (words : List Word) (place : Placement) :
    (codeOf p words place).Pairwise (·.1 < ·.1) ∧
      ∀ x ∈ codeOf p words place, 1 ≤ x.1 ∧ x.1 < 1 + p.lines.toList.length := by
  have hsorted : (p.code.map (·.line)).Pairwise (· < ·) := by
    simpa [Recording.ofProgram, Function.comp_def] using
      (Program.consistent_of_ofSource hp).text_sorted
  have htake : ((p.code.take words.length).map (·.line)).Sublist (p.code.map (·.line)) :=
    (List.take_sublist _ _).map _
  constructor
  · rw [← List.pairwise_map, map_fst_codeOf]
    exact hsorted.sublist htake
  · intro x hx
    have hfst : x.1 ∈ (codeOf p words place).map Prod.fst := List.mem_map_of_mem hx
    rw [map_fst_codeOf] at hfst
    have hline := Program.line_le_of_mem_lineNumbers hp (n := x.1)
      (by simp [Program.lineNumbers, htake.mem hfst])
    rw [Program.lines_of_ofSource hp, List.toList_toArray]
    omega

private theorem filter_rows {source : String} {p : Program} (hp : Program.ofSource source = .ok p)
    (words : List Word) (place : Placement) :
    (rows p words place).filter (·.code.isSome) =
      (codeOf p words place).map fun x => ⟨x.1, p.raw x.1, some x.2⟩ := by
  obtain ⟨hsorted, hrange⟩ := codeOf_sorted hp words place
  rw [rows_eq, filter_rowsFrom hsorted hrange]
  apply List.map_congr_left
  intro x hx
  obtain ⟨n, hn⟩ := Nat.exists_eq_add_of_le' (hrange x hx).1
  simp [rowOf, hn, Program.raw, lineText]

/-! ## What rows show -/

theorem newline_mem_paint (colour : Text.Colour) (s : String) :
    '\n' ∈ (Text.paint colour s).toList ↔ '\n' ∈ s.toList := by
  have hstart : '\n' ∉ (Text.escape colour.code).toList := by cases colour <;> decide
  have hend : '\n' ∉ (Text.escape 39).toList := by decide
  simp [Text.paint, hstart, hend]

private theorem newline_mem_dim (s : String) : '\n' ∈ (Text.dim s).toList ↔ '\n' ∈ s.toList := by
  have hstart : '\n' ∉ (Text.escape 2).toList := by decide
  have hend : '\n' ∉ (Text.escape 22).toList := by decide
  simp [Text.dim, hstart, hend]

private theorem newline_not_mem_operandAt (f : Format) (word : Word) (pc : Nat) (r : Reg)
    (mode : Mode) :
    '\n' ∉ (f.operandAt word pc r mode).text.toList := by
  by_cases hmode : mode = .label
  · subst hmode
    exact MemoryWord.newline_not_mem_address _
  · have htext : IsOperandText (f.operandAt word pc r mode).text.toList :=
      Operand.isOperandText_text (by rwa [Format.mode_operandAt])
    exact fun hmem => (htext.plain _ hmem).2.1 rfl

private theorem newline_not_mem_styled {e : Entry} (he : e ∈ instructions) (word : Word)
    (pc : Nat) :
    '\n' ∉ (e.styled (e.format.decode word e.shape pc)).toList := by
  have hmnemonic : '\n' ∉ e.mnemonic.toList := fun hmem =>
    (Text.plain_of_flat (instructions_mnemonic e he).2.1 _ hmem).2.1 rfl
  have hops : '\n' ∉ [',', ' '].intercalate
      ((e.format.decode word e.shape pc).map (String.toList ∘ Operand.styled)) := by
    intro hmem
    rcases mem_intercalate hmem with hmem | ⟨_, ht, hmem⟩
    · exact absurd hmem (by decide)
    · obtain ⟨op, hop, rfl⟩ := List.mem_map.mp ht
      obtain ⟨r, mode, _, rfl⟩ := e.format.exists_of_mem_decodeFrom word pc hop
      rw [Function.comp_apply, Operand.styled, newline_mem_paint] at hmem
      exact newline_not_mem_operandAt _ _ _ _ _ hmem
  simp [Entry.styled, newline_mem_paint, Text.padRight, Text.spaces, hmnemonic, hops]

private theorem newline_not_mem_disassembled (word : Word) (addr : Nat) :
    '\n' ∉ (disassembled word addr).toList := by
  unfold disassembled
  split
  · rename_i e ops hdecode
    obtain ⟨he, _, rfl⟩ := covers_of_decode? hdecode
    exact newline_not_mem_styled he word addr
  · decide

private theorem newline_not_mem_text {row : Row} (h : '\n' ∉ row.raw.toList) :
    '\n' ∉ row.text.toList := by
  obtain ⟨line, raw, code⟩ := row
  have htrim : '\n' ∉ Text.trim raw.toList := fun hmem => h ((Text.trim_sublist _).mem hmem)
  have hend : '\n' ∉ Text.trimEnd raw.toList := fun hmem => h ((Text.trimEnd_sublist _).mem hmem)
  have hdigits := newline_not_mem_toDigits 10 line (by decide) (by decide)
  cases code with
  | none => simp [Row.text, Text.padLeft, Text.spaces, hend, hdigits]
  | some code =>
    simp [Row.text, Text.padLeft, Text.spaces, newline_mem_dim, htrim, hdigits,
      newline_not_mem_fixedHex, newline_not_mem_disassembled]

private theorem instructions_head_ne_escape :
    ∀ e ∈ instructions, e.mnemonic.toList.head? ≠ some '\x1b' := by
  set_option maxRecDepth 8000 in decide

/-- The name of an instruction follows the colour at once, where the question marks are also
bold. -/
theorem styled_ne_placeholder {e : Entry} (he : e ∈ instructions) (ops : List Operand) :
    e.styled ops ≠ Text.shout .red "????" := by
  intro h
  obtain ⟨c, name, hname⟩ := List.exists_cons_of_ne_nil (instructions_mnemonic e he).1
  have hbold : (Text.escape 1).toList = ['\x1b', '[', '1', 'm'] := by decide
  have hlists := congrArg String.toList h
  simp [Entry.styled, Text.paint, Text.shout, Text.padRight, hname, hbold] at hlists
  apply instructions_head_ne_escape e he
  rw [hname, List.head?_cons, hlists.1]

private theorem newline_not_mem_symbolText {name : String} (h : IsName name) (place : Placement)
    (symbol : Symbol) : '\n' ∉ (symbolText place name symbol).toList := by
  have hline := newline_not_mem_toDigits 10 symbol.line (by decide) (by decide)
  have hsegment : '\n' ∉ symbol.segment.name.toList := by cases symbol.segment <;> decide
  simp [symbolText, newline_mem_paint, newline_mem_dim, Text.padRight, Text.spaces,
    MemoryWord.newline_not_mem_address, h.newline_not_mem, hsegment, hline]

/-- An instruction is shown by its mnemonic, eight columns wide, and its operands. -/
theorem styled_eq (e : Entry) (ops : List Operand) :
    e.styled ops = "\x1b[31m" ++ e.mnemonic ++ Text.spaces (8 - e.mnemonic.length) ++ "\x1b[39m" ++
      ", ".intercalate (ops.map fun op => Text.paint op.colour op.text) := by
  have hstart : Text.escape Text.Colour.red.code = "\x1b[31m" := by decide
  have hend : Text.escape 39 = "\x1b[39m" := by decide
  rw [Entry.styled, Text.paint, hstart, hend, Text.padRight, ← String.append_assoc]
  rfl

private theorem exists_disassembled {source : String} {p : Program} {place : Placement}
    {words : List Word} (hp : Program.ofSource source = .ok p) (hlink : p.link place = .ok words)
    {k : Nat} {line : CodeLine} {word : Word} (hline : p.code[k]? = some line)
    (hword : words[k]? = some word) (addr : Nat) :
    ∃ ops, sh2.decode? word addr = some (line.inst.entry, ops) ∧
      disassembled word addr = line.inst.entry.styled ops ∧
      disassembled word addr ≠ Text.shout .red "????" := by
  obtain ⟨he, hcovers⟩ := Program.covers_of_link hp hlink hline hword
  have hdecode := decode?_of_covers he hcovers addr
  have hshown : disassembled word addr =
      line.inst.entry.styled (line.inst.entry.format.decode word line.inst.entry.shape addr) := by
    rw [disassembled, hdecode]
  exact ⟨_, hdecode, hshown, hshown ▸ styled_ne_placeholder he _⟩

/-! ## The listing of an assembled program -/

/-- Every source line has its row, and each instruction that has a word stands on its own. -/
structure Complete (source : String) (a : Assembly) (words : List Word) (rows : List Row) :
    Prop where
  line_eq : rows.map Row.line = List.range' 1 (textLines source).length
  raw_eq : rows.map Row.raw = textLines source
  code_eq : ∀ k, (rows.filter (·.code.isSome))[k]? = (do
    let line ← a.program.code[k]?
    let word ← words[k]?
    return Row.mk line.line (a.program.raw line.line) (some (a.place.codeAddress k, word)))

theorem complete_rows {source : String} {a : Assembly}
    (hp : Program.ofSource source = .ok a.program) (words : List Word) :
    Complete source a words (rows a.program words a.place) where
  line_eq := by
    rw [rows_eq, map_line_rowsFrom, Program.lines_of_ofSource hp]
  raw_eq := by
    rw [rows_eq, map_raw_rowsFrom, Program.lines_of_ofSource hp]
  code_eq := by
    intro k
    rw [filter_rows hp, List.getElem?_map, getElem?_codeOf]
    cases a.program.code[k]? <;> cases words[k]? <;> rfl

private theorem Complete.mem_of_code {source : String} {a : Assembly} {words : List Word}
    {rows : List Row} (h : Complete source a words rows) {k : Nat} {line : CodeLine} {word : Word}
    (hline : a.program.code[k]? = some line) (hword : words[k]? = some word) :
    ⟨line.line, a.program.raw line.line, some (a.place.codeAddress k, word)⟩ ∈ rows := by
  have hrow := h.code_eq k
  rw [hline, hword] at hrow
  exact List.mem_of_mem_filter (List.mem_of_getElem? hrow)

theorem Complete.newline_not_mem {source : String} {a : Assembly} {words : List Word}
    {rows : List Row} (h : Complete source a words rows) {row : Row} (hrow : row ∈ rows) :
    '\n' ∉ row.text.toList := by
  have hraw : row.raw ∈ textLines source := h.raw_eq ▸ List.mem_map_of_mem hrow
  exact newline_not_mem_text (newline_not_mem_of_mem_textLines hraw)

end SuperH.Listing
