import SuperH.Proofs.Decoding

/-!
# Encoding a decoded instruction

The operands of a word, encoded by the entry that the word belongs to, give the word back: each
field of the format is read into an operand and written from it. Branches are not among them, as
their operand is a label.
-/
namespace SuperH

namespace Format

/-- The operand of a mode, with the register `r` if it needs one and its number off the word. -/
def operandAt (f : Format) (word : Word) (pc : Nat) (r : Reg) : Mode → Operand
  | .imm => .imm (f.wordImm word)
  | .reg => .reg (if f.impliesR0 then .r0 else r)
  | .indirect => .indirect r
  | .preDec => .preDec r
  | .postInc => .postInc r
  | .dispReg => .dispReg (f.wordDisp word) r
  | .dispGbr => .dispGbr (f.wordDisp word)
  | .indexGbr => .indexGbr
  | .dispPc => .dispPc (f.wordDisp word)
  | .indexReg => .indexReg r
  | .sys s => .sys s
  | .label => .label (Text.address (f.branchTarget word pc))

variable (f : Format) (word : Word) (pc : Nat)

private theorem decodeFrom_cons (regs : List Reg) (mode : Mode) (shape : List Mode) :
    f.decodeFrom word pc regs (mode :: shape) =
      f.operandAt word pc (regs.headD .r0) mode ::
        f.decodeFrom word pc (if mode.takesField f then regs.tail else regs) shape := by
  cases hf : f.impliesR0 <;> cases mode <;> simp [decodeFrom, operandAt, Mode.takesField, hf]

theorem mode_operandAt (r : Reg) (mode : Mode) : (f.operandAt word pc r mode).mode = mode := by
  cases mode <;> rfl

private theorem fieldReg?_operandAt (r : Reg) (mode : Mode) :
    f.fieldReg? (f.operandAt word pc r mode) = if mode.takesField f then some r else none := by
  cases hf : f.impliesR0 <;> cases mode <;>
    simp [fieldReg?, operandAt, Mode.takesField, hf, Operand.direct?, Operand.reg?]

theorem map_mode_decodeFrom (regs : List Reg) (shape : List Mode) :
    (f.decodeFrom word pc regs shape).map Operand.mode = shape := by
  induction shape generalizing regs with
  | nil => rfl
  | cons mode shape ih => rw [decodeFrom_cons, List.map_cons, mode_operandAt, ih]

private theorem regsOf_decodeFrom {regs : List Reg} {shape : List Mode}
    (h : shape.countP (Mode.takesField f) = regs.length) :
    f.regsOf (f.decodeFrom word pc regs shape) = regs := by
  induction shape generalizing regs with
  | nil => exact (List.length_eq_zero_iff.mp h.symm).symm
  | cons mode shape ih =>
    have hreg := f.fieldReg?_operandAt word pc (regs.headD .r0) mode
    rw [decodeFrom_cons]
    by_cases hfield : mode.takesField f = true
    · rw [List.countP_cons_of_pos hfield] at h
      cases regs with
      | nil => cases h
      | cons r regs =>
        rw [if_pos hfield] at hreg ⊢
        rw [regsOf, List.filterMap_cons_some hreg]
        exact congrArg (r :: ·) (ih (Nat.succ.inj h))
    · rw [List.countP_cons_of_neg hfield] at h
      rw [if_neg hfield] at hreg ⊢
      rw [regsOf, List.filterMap_cons_none hreg]
      exact ih h

theorem exists_of_mem_decodeFrom {regs : List Reg} {shape : List Mode} {op : Operand}
    (h : op ∈ f.decodeFrom word pc regs shape) :
    ∃ r, ∃ mode ∈ shape, op = f.operandAt word pc r mode := by
  induction shape generalizing regs with
  | nil => cases h
  | cons mode shape ih =>
    rw [decodeFrom_cons] at h
    rcases List.mem_cons.mp h with rfl | h
    · exact ⟨_, mode, List.mem_cons_self, rfl⟩
    · obtain ⟨r, mode', hmode, hop⟩ := ih h
      exact ⟨r, mode', List.mem_cons_of_mem _ hmode, hop⟩

theorem disp_of_mem_decodeFrom {regs : List Reg} {shape : List Mode} {op : Operand}
    (h : op ∈ f.decodeFrom word pc regs shape) {d : Int} (hd : op.disp? = some d) :
    d = f.wordDisp word := by
  obtain ⟨r, mode, _, rfl⟩ := f.exists_of_mem_decodeFrom word pc h
  cases mode <;> cases hd <;> rfl

theorem imm_of_mem_decodeFrom {regs : List Reg} {shape : List Mode} {op : Operand}
    (h : op ∈ f.decodeFrom word pc regs shape) {v : Int} (hv : op.imm? = some v) :
    v = f.wordImm word := by
  obtain ⟨r, mode, _, rfl⟩ := f.exists_of_mem_decodeFrom word pc h
  cases mode <;> cases hv
  rfl

def wordNumber : Int :=
  if f.takesImm then f.wordImm word else f.wordDisp word

/-- The field is read with a sign in some formats and without one in the others. -/
theorem wordNumber_eq {bits : Nat} (h : f.fieldWidth = some bits) :
    f.wordNumber word = (word.extractLsb' 0 bits).toNat ∨
      f.wordNumber word = (word.extractLsb' 0 bits).toInt := by
  cases f <;> cases h <;> first | exact .inl rfl | exact .inr rfl

private theorem ofInt_wordNumber {bits : Nat} (h : f.fieldWidth = some bits) :
    BitVec.ofInt bits (f.wordNumber word) = word.extractLsb' 0 bits := by
  rcases f.wordNumber_eq word h with h | h
  · rw [h, BitVec.ofInt_natCast, BitVec.ofNat_toNat, BitVec.setWidth_eq]
  · rw [h, BitVec.ofInt_toInt]

private theorem fits_wordNumber {bits : Nat} (h : f.fieldWidth = some bits) :
    Fits (f.wordNumber word) bits := by
  have hpow : (0 : Int) < 2 ^ (bits - 1) := by positivity
  rcases f.wordNumber_eq word h with h | h
  · have hlt : ((word.extractLsb' 0 bits).toNat : Int) < 2 ^ bits := by
      exact_mod_cast (word.extractLsb' 0 bits).isLt
    rw [h]
    exact fits_iff.mpr ⟨by omega, hlt⟩
  · have hlow := BitVec.le_toInt (word.extractLsb' 0 bits)
    have hhigh := BitVec.toInt_lt (x := word.extractLsb' 0 bits)
    have hmono : (2 : Int) ^ (bits - 1) ≤ 2 ^ bits := by
      exact_mod_cast Nat.pow_le_pow_right (by omega) (by omega)
    rw [h]
    exact fits_iff.mpr ⟨by omega, by omega⟩

end Format

private theorem instructions_number : ∀ e ∈ instructions, .label ∉ e.shape →
    e.format.fieldWidth.isSome = true →
      ∃ mode ∈ e.shape, if e.format.takesImm then mode = .imm else mode.hasDisp = true := by
  decide +kernel

private theorem findSome?_of_forall_eq {α β : Type} {g : α → Option β} {xs : List α} {x : α}
    (hx : x ∈ xs) (hsome : (g x).isSome = true) {b : β}
    (h : ∀ y ∈ xs, ∀ c, g y = some c → c = b) : xs.findSome? g = some b := by
  cases hfound : xs.findSome? g with
  | none =>
    rw [List.findSome?_eq_none_iff.mp hfound x hx] at hsome
    cases hsome
  | some c =>
    obtain ⟨y, hy, hc⟩ := List.exists_of_findSome?_eq_some hfound
    rw [h y hy c hc]

namespace Entry

variable {e : Entry} {word : Word}

private theorem fieldValue_decode (he : e ∈ instructions) (hlabel : .label ∉ e.shape) (pc : Nat)
    (hw : e.format.fieldWidth.isSome = true) :
    e.format.fieldValue (e.format.decode word e.shape pc) = e.format.wordNumber word := by
  obtain ⟨mode, hmode, hnumber⟩ := instructions_number e he hlabel hw
  rw [← e.format.map_mode_decodeFrom word pc (e.format.wordRegs word) e.shape] at hmode
  obtain ⟨op, hop, rfl⟩ := List.mem_map.mp hmode
  cases htakes : e.format.takesImm with
  | true =>
    have hsome : op.imm?.isSome = true := by
      simpa [htakes, Operand.imm?_isSome] using hnumber
    have hfirst : (e.format.decode word e.shape pc).findSome? Operand.imm? =
        some (e.format.wordImm word) := by
      refine findSome?_of_forall_eq hop hsome ?_
      exact fun op' hop' v => e.format.imm_of_mem_decodeFrom word pc hop'
    simp [Format.fieldValue, Format.wordNumber, htakes, hfirst]
  | false =>
    have hsome : op.disp?.isSome = true := by
      simpa [htakes, Operand.disp?_isSome] using hnumber
    have hfirst : (e.format.decode word e.shape pc).findSome? Operand.disp? =
        some (e.format.wordDisp word) := by
      refine findSome?_of_forall_eq hop hsome ?_
      exact fun op' hop' d => e.format.disp_of_mem_decodeFrom word pc hop'
    simp [Format.fieldValue, Format.wordNumber, htakes, hfirst]

theorem encode_decode (he : e ∈ instructions) (hlabel : .label ∉ e.shape)
    (h : e.covers word = true) (pc : Nat) :
    e.encode (e.format.decode word e.shape pc) = .ok word := by
  obtain ⟨_, hcount, _⟩ := instructions_wellFormed e he
  have hlength : (e.format.wordRegs word).length = e.format.regCount := by
    cases e.format <;> rfl
  have hregs : e.format.regsOf (e.format.decode word e.shape pc) = e.format.wordRegs word :=
    e.format.regsOf_decodeFrom word pc (by rw [hcount, hlength])
  have hvalue (bits : Nat) (hw : e.format.fieldWidth = some bits) :=
    @fieldValue_decode e word he hlabel pc (by rw [hw]; rfl)
  refine Format.encode_eq_ok.mpr ⟨?_, ?_, ?_⟩
  · intro hf op hop r hr
    obtain ⟨r', mode, _, rfl⟩ := e.format.exists_of_mem_decodeFrom word pc hop
    cases mode <;> cases hr
    simp [hf]
  · intro bits hw
    rw [hvalue bits hw]
    exact e.format.fits_wordNumber word hw
  · rw [hregs, Format.fill_wordRegs (covers_iff.mp h)]
    intro bits hw
    rw [hvalue bits hw]
    exact e.format.ofInt_wordNumber word hw

end Entry

end SuperH
