import Mathlib.Data.Int.ModEq
import Mathlib.Tactic.IntervalCases
import SuperH.InstructionSet
import SuperH.Proofs.Traversal

/-!
# Fields of an instruction word

An encoded word is its opcode with the registers and one number put into the bits that the opcode
leaves open. Encoding is described by this one equation for all formats. Reading the fields of such
a word gives the registers back, and the number up to the width of its field.
-/
namespace SuperH

private theorem extract_shifted (r : BitVec 4) {s : Nat} (h : s + 4 ≤ 16) :
    ((r.setWidth 16 : Word) <<< s).extractLsb' s 4 = r := by
  ext i hi
  have h16 : s + i < 16 := by omega
  simp [h16, BitVec.getLsbD_eq_getElem hi]

private theorem extract_shifted_disjoint (r : BitVec 4) {s t k : Nat}
    (h : s + 4 ≤ t ∨ t + k ≤ s) :
    ((r.setWidth 16 : Word) <<< s).extractLsb' t k = 0 := by
  ext i hi
  simp only [BitVec.getElem_extractLsb', BitVec.getLsbD_shiftLeft, BitVec.getLsbD_setWidth]
  rcases h with h | h
  · simp [BitVec.getLsbD_of_ge r (t + i - s) (by omega)]
  · simp [show t + i < s by omega]

private theorem extract_low {k : Nat} (x : BitVec k) (h : k ≤ 16) :
    (x.setWidth 16 : Word).extractLsb' 0 k = x := by
  ext i hi
  simp [show i < 16 by omega, BitVec.getLsbD_eq_getElem hi]

private theorem extract_above_low {k s n : Nat} (x : BitVec k) (h : k ≤ s) :
    (x.setWidth 16 : Word).extractLsb' s n = 0 := by
  ext i hi
  simp [BitVec.getLsbD_of_ge x (s + i) (by omega)]

private theorem extract_opcode {opcode mask : Word} (h : opcode &&& mask = opcode) {s k : Nat}
    (hm : mask.extractLsb' s k = 0) : opcode.extractLsb' s k = 0 := by
  rw [← h, BitVec.extractLsb'_and, hm]
  exact BitVec.and_zero

theorem getElem_lowMask (bits : Nat) {i : Nat} (hi : i < 16) :
    (BitVec.ofNat 16 (2 ^ bits - 1))[i] = decide (i < bits) := by
  rw [← BitVec.getLsbD_eq_getElem, BitVec.getLsbD_ofNat, Nat.testBit_two_pow_sub_one]
  simp [hi]

theorem extract_ofInt (v : Int) {bits : Nat} (h : bits ≤ 16) :
    (BitVec.ofInt 16 v).extractLsb' 0 bits = BitVec.ofInt bits v := by
  have hdvd : ((2 ^ bits : Nat) : Int) ∣ ((2 ^ 16 : Nat) : Int) := by
    exact_mod_cast Nat.pow_dvd_pow 2 h
  have hnonneg := Int.emod_nonneg v (show ((2 ^ 16 : Nat) : Int) ≠ 0 by decide)
  apply BitVec.eq_of_toNat_eq
  rw [BitVec.extractLsb'_toNat, Nat.shiftRight_zero, BitVec.toNat_ofInt, BitVec.toNat_ofInt]
  apply Int.ofNat_inj.mp
  rw [Int.natCast_emod, Int.toNat_of_nonneg hnonneg, Int.emod_emod_of_dvd v hdvd,
    Int.toNat_of_nonneg (Int.emod_nonneg v (by positivity))]

private theorem ofInt_emod (v : Int) {bits : Nat} (h : bits ≤ 16) :
    BitVec.ofInt 16 (v % 2 ^ bits) = (BitVec.ofInt bits v).setWidth 16 := by
  have hpow : (2 : Int) ^ bits ≤ 2 ^ 16 := by exact_mod_cast Nat.pow_le_pow_right (by decide) h
  have hnonneg := Int.emod_nonneg v (show (2 : Int) ^ bits ≠ 0 by positivity)
  have hlt := Int.emod_lt_of_pos v (show (0 : Int) < 2 ^ bits by positivity)
  apply BitVec.eq_of_toNat_eq
  rw [BitVec.toNat_setWidth, BitVec.toNat_ofInt, BitVec.toNat_ofInt]
  push_cast
  rw [Int.emod_eq_of_lt hnonneg (by omega)]
  omega

theorem toNat_ofInt_modEq (v : Int) (bits : Nat) :
    ((BitVec.ofInt bits v).toNat : Int) ≡ v [ZMOD 2 ^ bits] := by
  have hnonneg := Int.emod_nonneg v (show (2 : Int) ^ bits ≠ 0 by positivity)
  rw [BitVec.toNat_ofInt]
  push_cast
  rw [Int.toNat_of_nonneg hnonneg]
  exact Int.mod_modEq v _

theorem toInt_ofInt_modEq (v : Int) (bits : Nat) :
    (BitVec.ofInt bits v).toInt ≡ v [ZMOD 2 ^ bits] := by
  rw [BitVec.toInt_ofInt]
  have h : v.bmod (2 ^ bits) % ((2 ^ bits : Nat) : Int) = v % ((2 ^ bits : Nat) : Int) :=
    Int.bmod_emod
  exact_mod_cast h

theorem fits_iff {v : Int} {bits : Nat} : Fits v bits ↔ -2 ^ (bits - 1) ≤ v ∧ v < 2 ^ bits :=
  Iff.rfl

theorem fitField_eq_ok {v : Int} {bits : Nat} {low : Word} (hb : bits ≤ 16) :
    fitField v bits = .ok low ↔ Fits v bits ∧ low = (BitVec.ofInt bits v).setWidth 16 := by
  have hlow : BitVec.ofInt 16 (v % Int.pow 2 bits) = (BitVec.ofInt bits v).setWidth 16 :=
    ofInt_emod v hb
  unfold fitField
  by_cases h : Fits v bits
  · simp only [h, if_true, true_and, Except.ok.injEq, hlow]
    exact eq_comm
  · simp [h]

namespace Format

def fieldWidth : Format → Option Nat
  | .md | .nd4 | .nmd => some 4
  | .d | .nd8 | .i | .ni => some 8
  | .d12 => some 12
  | .zero | .n | .m | .nm => none

def regCount : Format → Nat
  | .n | .m | .nd8 | .ni | .md | .nd4 => 1
  | .nm | .nmd => 2
  | .zero | .d | .d12 | .i => 0

/-- The number of the field is an immediate. -/
def takesImm : Format → Bool
  | .i | .ni => true
  | _ => false

def fieldValue (f : Format) (ops : List Operand) : Int :=
  if f.takesImm then (ops.findSome? Operand.imm?).getD 0 else (ops.findSome? Operand.disp?).getD 0

def fieldReg? (f : Format) (op : Operand) : Option Reg :=
  if f.impliesR0 && op.direct?.isSome then none else op.reg?

def regsOf (f : Format) (ops : List Operand) : List Reg :=
  ops.filterMap f.fieldReg?

def regBits (f : Format) (regs : List Reg) : Word :=
  let reg (k : Nat) : Word := (regs.getD k .r0).field.setWidth 16
  match f with
  | .n | .m | .nd8 | .ni => reg 0 <<< 8
  | .nm | .nmd => reg 1 <<< 8 ||| reg 0 <<< 4
  | .md | .nd4 => reg 0 <<< 4
  | .zero | .d | .d12 | .i => 0

def lowBits (f : Format) (number : Int) : Word :=
  match f.fieldWidth with
  | none => 0
  | some bits => (BitVec.ofInt bits number).setWidth 16

/-- An opcode with its fields filled in. -/
def fill (f : Format) (opcode : Word) (regs : List Reg) (number : Int) : Word :=
  opcode ||| f.regBits regs ||| f.lowBits number

private theorem fieldWidth_le {f : Format} {bits : Nat} (h : f.fieldWidth = some bits) :
    bits ≤ 16 := by
  cases f <;> simp [fieldWidth] at h <;> omega

theorem fieldRegs_eq_ok {f : Format} {ops : List Operand} {regs : List Reg} :
    f.fieldRegs ops = .ok regs ↔
      (f.impliesR0 = true → ∀ op ∈ ops, ∀ r, op.direct? = some r → r = .r0) ∧
        regs = f.regsOf ops := by
  unfold fieldRegs
  by_cases hf : f.impliesR0 = true
  · have hregs : (ops.filter fun op => op.direct?.isNone).filterMap Operand.reg? =
        f.regsOf ops := by
      rw [List.filterMap_filter]
      apply List.filterMap_congr
      intro op _
      cases h : op.direct? <;> simp [fieldReg?, hf, h]
    simp only [hf, if_true, true_imp_iff, hregs]
    split
    · rename_i r hr
      have hne := List.find?_some hr
      obtain ⟨op, hop, hdirect⟩ := List.mem_filterMap.mp (List.mem_of_find?_eq_some hr)
      simp only [reduceCtorEq, false_iff, not_and]
      intro hall
      simp [hall op hop r hdirect] at hne
    · rename_i hnone
      rw [List.find?_eq_none] at hnone
      simp only [Except.ok.injEq]
      constructor
      · rintro rfl
        refine ⟨?_, rfl⟩
        intro op hop r hr
        simpa using hnone r (List.mem_filterMap.mpr ⟨op, hop, hr⟩)
      · rintro ⟨_, rfl⟩
        rfl
  · have hregs : ops.filterMap Operand.reg? = f.regsOf ops := by
      apply List.filterMap_congr
      intro op _
      simp [fieldReg?, hf]
    simp [hf, hregs, eq_comm]

private def numberBits (f : Format) (ops : List Operand) : Except EncodeError Word :=
  match f.fieldWidth with
  | none => .ok 0
  | some bits => fitField (f.fieldValue ops) bits

private theorem numberBits_eq_ok {f : Format} {ops : List Operand} {low : Word} :
    f.numberBits ops = .ok low ↔
      (∀ bits, f.fieldWidth = some bits → Fits (f.fieldValue ops) bits) ∧
        low = f.lowBits (f.fieldValue ops) := by
  unfold numberBits lowBits
  cases hw : f.fieldWidth with
  | none =>
    simp only [reduceCtorEq, false_imp_iff, implies_true, true_and, Except.ok.injEq]
    exact eq_comm
  | some bits =>
    rw [fitField_eq_ok (fieldWidth_le hw)]
    simp

private theorem encode_eq (f : Format) (opcode : Word) (ops : List Operand) :
    f.encode opcode ops = do
      let regs ← f.fieldRegs ops
      let low ← f.numberBits ops
      return opcode ||| f.regBits regs ||| low := by
  unfold encode
  cases f <;>
    simp [numberBits, fieldWidth, fieldValue, takesImm, regBits, BitVec.or_assoc] <;> rfl

theorem encode_eq_ok {f : Format} {opcode word : Word} {ops : List Operand} :
    f.encode opcode ops = .ok word ↔
      (f.impliesR0 = true → ∀ op ∈ ops, ∀ r, op.direct? = some r → r = .r0) ∧
      (∀ bits, f.fieldWidth = some bits → Fits (f.fieldValue ops) bits) ∧
      word = f.fill opcode (f.regsOf ops) (f.fieldValue ops) := by
  rw [encode_eq, bind_eq_ok]
  constructor
  · rintro ⟨regs, hregs, h⟩
    obtain ⟨low, hlow, h⟩ := bind_eq_ok.mp h
    obtain ⟨hr0, rfl⟩ := fieldRegs_eq_ok.mp hregs
    obtain ⟨hfits, rfl⟩ := numberBits_eq_ok.mp hlow
    cases h
    exact ⟨hr0, hfits, rfl⟩
  · rintro ⟨hr0, hfits, rfl⟩
    refine ⟨_, fieldRegs_eq_ok.mpr ⟨hr0, rfl⟩, bind_eq_ok.mpr ?_⟩
    exact ⟨_, numberBits_eq_ok.mpr ⟨hfits, rfl⟩, rfl⟩

/-- A label leaves the displacement of its branch at zero. -/
theorem encode_label {f : Format} {bits : Nat} (h : f.branchWidth = some bits)
    (opcode : Word) (name : String) : f.encode opcode [.label name] = .ok opcode := by
  have hvalue : f.fieldValue [.label name] = 0 := by
    cases f <;> rfl
  have hfill : f.fill opcode (f.regsOf [.label name]) 0 = opcode := by
    cases f <;> cases h <;> simp [fill, regBits, lowBits, fieldWidth]
  refine encode_eq_ok.mpr ⟨by simp [Operand.direct?], ?_, by rw [hvalue, hfill]⟩
  intro width _
  have hpow : (0 : Int) < 2 ^ (width - 1) := by positivity
  rw [hvalue]
  exact fits_iff.mpr ⟨by omega, by positivity⟩

private theorem fieldRegs_eq_error {f : Format} {ops : List Operand} {e : EncodeError} :
    f.fieldRegs ops = .error e ↔ f.impliesR0 = true ∧
      ∃ r, (ops.filterMap Operand.direct?).find? (· ≠ .r0) = some r ∧ e = .requiresR0 r := by
  unfold fieldRegs
  by_cases hf : f.impliesR0 = true
  · simp only [hf, if_true, true_and]
    cases (ops.filterMap Operand.direct?).find? (· ≠ .r0) with
    | none => simp
    | some r => simp [eq_comm]
  · simp [hf]

private theorem numberBits_eq_error {f : Format} {ops : List Operand} {e : EncodeError} :
    f.numberBits ops = .error e ↔ ∃ bits, f.fieldWidth = some bits ∧
      ¬ Fits (f.fieldValue ops) bits ∧ e = .outOfRange (f.fieldValue ops) bits := by
  unfold numberBits
  cases f.fieldWidth with
  | none => simp
  | some bits =>
    by_cases hfits : Fits (f.fieldValue ops) bits
    · simp [fitField, hfits]
    · simp [fitField, hfits, eq_comm]

/-- Registers are looked at before the number. -/
theorem encode_eq_error {f : Format} {opcode : Word} {ops : List Operand} {e : EncodeError} :
    f.encode opcode ops = .error e ↔
      (f.impliesR0 = true ∧
        ∃ r, (ops.filterMap Operand.direct?).find? (· ≠ .r0) = some r ∧ e = .requiresR0 r) ∨
      (f.impliesR0 = true → ∀ op ∈ ops, ∀ r, op.direct? = some r → r = .r0) ∧
        ∃ bits, f.fieldWidth = some bits ∧ ¬ Fits (f.fieldValue ops) bits ∧
          e = .outOfRange (f.fieldValue ops) bits := by
  rw [encode_eq, bind_eq_error, fieldRegs_eq_error]
  refine or_congr Iff.rfl ?_
  constructor
  · rintro ⟨regs, hregs, h⟩
    rcases bind_eq_error.mp h with h | ⟨low, _, h⟩
    · exact ⟨(fieldRegs_eq_ok.mp hregs).1, numberBits_eq_error.mp h⟩
    · cases h
  · rintro ⟨hr0, hnumber⟩
    refine ⟨_, fieldRegs_eq_ok.mpr ⟨hr0, rfl⟩, bind_eq_error.mpr (.inl ?_)⟩
    exact numberBits_eq_error.mpr hnumber

/-! ## Reading a filled word -/

private theorem regBits_and_mask (f : Format) (regs : List Reg) :
    f.regBits regs &&& f.mask = 0 := by
  ext i hi
  cases f <;> simp only [regBits, mask] <;> interval_cases i <;> simp

private theorem lowBits_and_mask (f : Format) (number : Int) :
    f.lowBits number &&& f.mask = 0 := by
  ext i hi
  cases f <;> simp only [lowBits, fieldWidth, mask] <;> interval_cases i <;> simp

theorem fill_and_mask {f : Format} {opcode : Word} (h : opcode &&& f.mask = opcode)
    (regs : List Reg) (number : Int) : f.fill opcode regs number &&& f.mask = opcode := by
  rw [fill, BitVec.and_or_distrib_right, BitVec.and_or_distrib_right, h, regBits_and_mask,
    lowBits_and_mask]
  simp

theorem extract_fill {f : Format} {opcode : Word} (h : opcode &&& f.mask = opcode)
    (regs : List Reg) (number : Int) {bits : Nat} (hw : f.fieldWidth = some bits) :
    (f.fill opcode regs number).extractLsb' 0 bits = BitVec.ofInt bits number := by
  have hop : opcode.extractLsb' 0 bits = 0 := by
    apply extract_opcode h
    cases f <;> cases hw <;> decide
  have hregs : (f.regBits regs).extractLsb' 0 bits = 0 := by
    cases f <;> cases hw <;>
      simp [regBits, BitVec.extractLsb'_or, extract_shifted_disjoint]
  simp only [fill, lowBits, hw, BitVec.extractLsb'_or, hop, hregs]
  rw [extract_low _ (fieldWidth_le hw)]
  simp

private theorem ofBits_fill {f : Format} {opcode : Word} (h : opcode &&& f.mask = opcode)
    (regs : List Reg) (number : Int) {start : Nat} (hmask : f.mask.extractLsb' start 4 = 0)
    (hlow : ∀ bits, f.fieldWidth = some bits → bits ≤ start) :
    Reg.ofBits (f.fill opcode regs number) start = Reg.ofBits (f.regBits regs) start := by
  have hnumber : (f.lowBits number).extractLsb' start 4 = 0 := by
    unfold lowBits
    cases hw : f.fieldWidth with
    | none => simp
    | some bits => exact extract_above_low _ (hlow bits hw)
  simp only [Reg.ofBits, fill, BitVec.extractLsb'_or, extract_opcode h hmask, hnumber]
  simp

theorem wordRegs_fill {f : Format} {opcode : Word} (h : opcode &&& f.mask = opcode)
    {regs : List Reg} (hregs : regs.length = f.regCount) (number : Int) :
    f.wordRegs (f.fill opcode regs number) = regs := by
  -- The fields at bits 4 and 8 hold the bits of `regBits` alone, whatever the number is.
  have h8 (hm : f.mask.extractLsb' 8 4 = 0) (hl : ∀ bits, f.fieldWidth = some bits → bits ≤ 8) :=
    ofBits_fill h regs number hm hl
  have h4 (hm : f.mask.extractLsb' 4 4 = 0) (hl : ∀ bits, f.fieldWidth = some bits → bits ≤ 4) :=
    ofBits_fill h regs number hm hl
  match regs, f with
  | [], .zero | [], .d | [], .d12 | [], .i => rfl
  | [r], .n | [r], .m | [r], .nd8 | [r], .ni =>
    rw [wordRegs, h8 (by decide) (by simp [fieldWidth])]
    simp [Reg.ofBits, regBits, extract_shifted]
  | [r], .md | [r], .nd4 =>
    rw [wordRegs, h4 (by decide) (by simp [fieldWidth])]
    simp [Reg.ofBits, regBits, extract_shifted]
  | [r, q], .nm | [r, q], .nmd =>
    rw [wordRegs, h4 (by decide) (by simp [fieldWidth]), h8 (by decide) (by simp [fieldWidth])]
    simp [Reg.ofBits, regBits, BitVec.extractLsb'_or, extract_shifted, extract_shifted_disjoint]

private theorem shifted_extract (word : Word) (s k : Nat) :
    ((word.extractLsb' s k).setWidth 16 : Word) <<< s =
      word &&& BitVec.ofNat 16 (2 ^ k - 1) <<< s := by
  ext i hi
  by_cases hs : s ≤ i
  · have hi' : s + (i - s) = i := by omega
    simp only [BitVec.getElem_shiftLeft, BitVec.getElem_and, Nat.not_lt.mpr hs,
      getElem_lowMask]
    simp [hi', BitVec.getLsbD_eq_getElem hi, Bool.and_comm]
  · simp [Nat.lt_of_not_le hs]

private def regMask : Format → Word
  | .n | .m | .nd8 | .ni => 0x0F00
  | .nm | .nmd => 0x0FF0
  | .md | .nd4 => 0x00F0
  | .zero | .d | .d12 | .i => 0

private theorem regBits_wordRegs (f : Format) (word : Word) :
    f.regBits (f.wordRegs word) = word &&& f.regMask := by
  cases f <;>
    simp only [wordRegs, regBits, Reg.ofBits, List.getD_cons_zero, List.getD_cons_succ,
      shifted_extract, ← BitVec.and_or_distrib_left] <;>
    simp [regMask]

private theorem lowBits_eq_and {f : Format} {word : Word} {number : Int}
    (hn : ∀ bits, f.fieldWidth = some bits → BitVec.ofInt bits number = word.extractLsb' 0 bits) :
    f.lowBits number = word &&& BitVec.ofNat 16 (2 ^ f.fieldWidth.getD 0 - 1) := by
  unfold lowBits
  cases hw : f.fieldWidth with
  | none => simp
  | some bits =>
    have hword := shifted_extract word 0 bits
    simp only [BitVec.shiftLeft_zero] at hword
    simp only [hn bits hw, hword, Option.getD_some]

theorem fill_wordRegs {f : Format} {opcode word : Word} (h : word &&& f.mask = opcode)
    {number : Int}
    (hn : ∀ bits, f.fieldWidth = some bits → BitVec.ofInt bits number = word.extractLsb' 0 bits) :
    f.fill opcode (f.wordRegs word) number = word := by
  -- Opcode and fields are parts of the word, each under its own mask; the masks cover all bits.
  have hmasks : f.mask ||| f.regMask ||| BitVec.ofNat 16 (2 ^ f.fieldWidth.getD 0 - 1) =
      BitVec.allOnes 16 := by
    cases f <;> rfl
  rw [fill, ← h, regBits_wordRegs, lowBits_eq_and hn, ← BitVec.and_or_distrib_left,
    ← BitVec.and_or_distrib_left, hmasks, BitVec.and_allOnes]

end Format

end SuperH
