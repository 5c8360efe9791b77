import SuperH.Proofs.Decoding
import SuperH.Proofs.Digits
import SuperH.Proofs.Linking
import SuperH.Proofs.Placing
import SuperH.Proofs.Sections

/-!
# Disassembling an assembled program

The words of an assembled program decode to the instructions that its source writes: the same
entries, and operands of the same modes, registers and, up to the width of their field, numbers.
A branch decodes to the address of its label.
-/
namespace SuperH

theorem lookup?_eq_some {mnemonic : String} {shape : List Mode} {e : Entry}
    (h : sh2.lookup? mnemonic shape = some e) :
    e ∈ instructions ∧ e.mnemonic = mnemonic ∧ e.shape = shape :=
  Table.mem_of_lookup? h

private theorem tdiv_two (a : Int) :
    Int.tdiv a 2 = a / 2 + if 0 ≤ a ∨ a % 2 = 0 then 0 else 1 := by
  simp only [Int.tdiv_eq_ediv, Int.dvd_iff_emod_eq_zero, show Int.sign 2 = 1 from rfl]

/-- Twice half the way from `here` to `target` ends between them, and at the target if both are
even. -/
private theorem exists_reached (here target : Nat) :
    ∃ n : Nat, (n : Int) = here + 2 * Int.tdiv ((target : Int) - here) 2 ∧
      n ≤ max here target ∧ (here % 2 = 0 → target % 2 = 0 → n = target) := by
  refine ⟨(here + 2 * Int.tdiv ((target : Int) - here) 2).toNat, ?_, ?_, ?_⟩ <;>
    rw [tdiv_two] <;> split <;> omega

/-- A word with the high bits of an encoded branch decodes to the entry of the branch and to the
address that its low bits lead to. -/
private theorem decode?_of_branch {inst : Instruction} {target : String}
    (he : inst.entry ∈ instructions) (hencode : inst.entry.encode inst.operands = .ok inst.word)
    (htarget : inst.target? = some target) {bits : Nat}
    (hw : inst.entry.format.branchWidth = some bits) {word : Word}
    (hhigh : word >>> bits = inst.word >>> bits) (pc : Nat) :
    sh2.decode? word pc =
      some (inst.entry, [.label (Text.address (inst.entry.format.branchTarget word pc))]) := by
  obtain ⟨hshape, _, _⟩ := Instruction.target?_eq_some htarget
  have hcovers : inst.entry.covers word = true := by
    rw [Entry.covers_iff, Format.and_mask_of_shiftRight hw hhigh, ← Entry.covers_iff]
    exact Entry.covers_encode (instructions_wellFormed _ he) hencode
  rw [decode?_of_covers he hcovers, hshape]
  rfl

private theorem branchTarget_eq {f : Format} {bits : Nat} (hw : f.branchWidth = some bits)
    {word : Word} {disp : Int} (hfits : FitsSigned disp bits)
    (hlow : word.extractLsb' 0 bits = BitVec.ofInt bits disp) {pc n : Nat}
    (hn : (n : Int) = pc + 2 * disp) (hlt : n < 2 ^ 32) : f.branchTarget word pc = n := by
  rw [Format.branchTarget, Format.branchDisp_of_extract hw hfits hlow, ← hn, Int.pow_eq]
  omega

private theorem recovers_label {inst : Instruction} {target : String}
    (hshape : inst.operands.map Operand.mode = inst.entry.shape)
    (htarget : inst.target? = some target) (name : String) :
    List.Forall₂ (Operand.Recovers inst.entry.format) inst.operands [.label name] := by
  obtain ⟨hlabel, _, rest, hops⟩ := Instruction.target?_eq_some htarget
  rw [hops, hlabel] at hshape
  have hrest : rest = [] := by simpa [Operand.mode] using hshape
  rw [hops, hrest]
  refine .cons ⟨rfl, rfl, ?_, ?_⟩ .nil
  · intro d hd
    cases hd
  · intro v hv
    cases hv

/-- Linking leaves a word in the encoding of its entry. -/
theorem Program.covers_of_link {source : String} {p : Program} {place : Placement}
    {words : List Word} (hp : Program.ofSource source = .ok p) (hlink : p.link place = .ok words)
    {i : Nat} {line : CodeLine} {word : Word} (hline : p.code[i]? = some line)
    (hword : words[i]? = some word) :
    line.inst.entry ∈ instructions ∧ line.inst.entry.covers word = true := by
  obtain ⟨_, _, _, _, _, _, _, hlookup, hencode⟩ :=
    Program.isWritten_of_mem_code hp (List.mem_of_getElem? hline)
  obtain ⟨he, _, _⟩ := lookup?_eq_some hlookup
  have hcovers := Entry.covers_encode (instructions_wellFormed _ he) hencode
  obtain ⟨hkept, hlinked⟩ := Program.link_word hlink hline hword
  refine ⟨he, ?_⟩
  cases htarget : line.inst.target? with
  | none => rwa [hkept htarget]
  | some target =>
    obtain ⟨_, bits, _, hw, _, hhigh, _⟩ := hlinked target htarget
    rwa [Entry.covers_iff, Format.and_mask_of_shiftRight hw hhigh, ← Entry.covers_iff]

/-- Every word of an assembled program decodes to the entry that its source line names, with
operands of the same modes and registers and the same numbers up to the width of their field; a
branch decodes to the address it leads to, which is that of its label if that is even. -/
theorem assemble_decode {source : String} {l : Layout} {out : Assembly}
    (h : assemble source l = .ok out) :
    out.words.length = out.program.code.length ∧
    ∀ (i : Nat) (line : CodeLine), out.program.code[i]? = some line →
      ∃ raw word ops, 0 < line.line ∧ (textLines source)[line.line - 1]? = some raw ∧
        line.inst.IsWritten (lineCode raw) ∧ out.words[i]? = some word ∧
        sh2.decode? word (out.place.codeAddress i) = some (line.inst.entry, ops) ∧
        List.Forall₂ (Operand.Recovers line.inst.entry.format) line.inst.operands ops ∧
        ∀ target, line.inst.target? = some target →
          ∃ (symbol : Symbol) (reached : Nat),
            out.program.symbols.get? target = some symbol ∧
            (reached : Int) = out.place.codeAddress i +
              2 * Int.tdiv ((out.place.address symbol : Int) - out.place.codeAddress i) 2 ∧
            reached < 2 ^ 32 ∧ ops = [.label (Text.address reached)] ∧
            Text.WritesAddress (Text.address reached) reached ∧
            (out.place.address symbol % 2 = 0 → reached = out.place.address symbol) := by
  obtain ⟨hl, hp, hplace, hlink, _⟩ := assemble_eq_ok.mp h
  have hlength : out.words.length = out.program.code.length := by
    simpa using length_mapM hlink
  refine ⟨hlength, ?_⟩
  intro i line hline
  obtain ⟨hi, _⟩ := List.getElem?_eq_some_iff.mp hline
  obtain ⟨word, hword⟩ : ∃ word, out.words[i]? = some word :=
    ⟨_, List.getElem?_eq_getElem (hlength ▸ hi)⟩
  obtain ⟨raw, hnumber, hraw, hwritten⟩ :=
    Program.isWritten_of_mem_code hp (List.mem_of_getElem? hline)
  obtain ⟨_, _, _, _, hlookup, hencode⟩ := id hwritten
  obtain ⟨he, _, hshape⟩ := lookup?_eq_some hlookup
  have hwf := instructions_wellFormed _ he
  obtain ⟨hkept, hlinked⟩ := Program.link_word hlink hline hword
  cases htarget : line.inst.target? with
  | none =>
    rw [hkept htarget] at hword
    refine ⟨raw, _, _, hnumber, hraw, hwritten, hword,
      decode?_of_covers he (Entry.covers_encode hwf hencode) _,
      Entry.decode_encode hwf hshape.symm hencode _, ?_⟩
    intro target h
    cases h
  | some target =>
    obtain ⟨symbol, bits, hsymbol, hw, hfits, hhigh, hlow⟩ := hlinked target htarget
    obtain ⟨reached, hreached, hle, heven⟩ :=
      exists_reached (out.place.codeAddress i) (out.place.address symbol)
    -- Both ends lie below `2 ^ 32`, so the decoder does not wrap the address around.
    have hlt : reached < 2 ^ 32 := by
      have hhere := Program.codeAddress_lt hl hplace hi
      have hthere := Program.address_lt hl hplace (Program.inBounds_of_get? hp hsymbol)
      omega
    have hdecode := decode?_of_branch he hencode htarget hw hhigh (out.place.codeAddress i)
    rw [branchTarget_eq hw hfits hlow hreached hlt] at hdecode
    refine ⟨raw, word, _, hnumber, hraw, hwritten, hword, hdecode,
      recovers_label hshape.symm htarget _, ?_⟩
    intro target' h
    cases h
    exact ⟨symbol, reached, hsymbol, hreached, hlt, rfl, Text.writesAddress_address hlt,
      heven (Program.codeAddress_even hl hplace i)⟩

/-- A negative displacement and a branch backward, to an even and to an odd address. -/
theorem assemble_decode_backward :
    ∃ out, assemble
        ".data\nA: .byte 1\nB: .byte 2\n.text\nX: MOV.L @(-2, R3), R7\nBF X\nBRA B\n"
        { textOrigin := 64, dataOrigin := 0, segmentSize := 64 } = .ok out ∧
      out.words = [0x573E, 0x8BFF, 0xAFDF] ∧
      (out.words.zipIdx.map fun x => (sh2.decode? x.1 (out.place.codeAddress x.2)).map Prod.snd) =
        [some [.dispReg 14 ⟨3⟩, .reg ⟨7⟩], some [.label "0x00000040"], some [.label "0x00000002"]] ∧
      out.words.length = out.program.code.length ∧
      ∀ (i : Nat) (line : CodeLine), out.program.code[i]? = some line →
        ∃ word ops, out.words[i]? = some word ∧
          sh2.decode? word (out.place.codeAddress i) = some (line.inst.entry, ops) ∧
          List.Forall₂ (Operand.Recovers line.inst.entry.format) line.inst.operands ops := by
  have hrun : (assemble
      ".data\nA: .byte 1\nB: .byte 2\n.text\nX: MOV.L @(-2, R3), R7\nBF X\nBRA B\n"
      { textOrigin := 64, dataOrigin := 0, segmentSize := 64 }).toOption.map (fun out =>
        (out.words, out.words.zipIdx.map fun x =>
          (sh2.decode? x.1 (out.place.codeAddress x.2)).map Prod.snd)) =
        some ([0x573E, 0x8BFF, 0xAFDF], [some [.dispReg 14 ⟨3⟩, .reg ⟨7⟩],
          some [.label "0x00000040"], some [.label "0x00000002"]]) := by
    decide +kernel
  obtain ⟨out, hout, hparts⟩ := Option.map_eq_some_iff.mp hrun
  obtain ⟨hwords, hdecoded⟩ := Prod.mk.inj hparts
  have h := toOption_eq_some.mp hout
  obtain ⟨hlength, hall⟩ := assemble_decode h
  refine ⟨out, h, hwords, hdecoded, hlength, ?_⟩
  intro i line hline
  obtain ⟨_, word, ops, _, _, _, hword, hdecode, hops, _⟩ := hall i line hline
  exact ⟨word, ops, hword, hdecode, hops⟩

end SuperH
