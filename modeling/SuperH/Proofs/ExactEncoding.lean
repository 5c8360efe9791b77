import SuperH.Proofs.Digits
import SuperH.Proofs.Reencoding

/-!
# Which operands can be encoded

An instruction of the SH-2 takes every operand of its shape but for two faults: a register that has
to be R0 is another one, or a number does not fit its field. What it takes is read back from the
word: the entry, the registers, and the numbers up to the width of the field. So no word stands for
two instructions.
-/
namespace SuperH

def Operand.number? (op : Operand) : Option Int :=
  op.disp?.or op.imm?

theorem Operand.direct?_eq_some {op : Operand} {r : Reg} : op.direct? = some r ↔ op = .reg r := by
  cases op <;> simp [direct?]

namespace Format

/-- A format that implies R0 has no other register as an operand. -/
def TakesRegs (f : Format) (ops : List Operand) : Prop :=
  f.impliesR0 = true → ∀ r, .reg r ∈ ops → r = .r0

/-- The first register that should have been R0. -/
def FirstWrong (f : Format) (ops : List Operand) (r : Reg) : Prop :=
  f.impliesR0 = true ∧ ∃ before after, ops = before ++ .reg r :: after ∧ r ≠ .r0 ∧
    ∀ q, .reg q ∈ before → q = .r0

/-- A number lies between the least signed and the greatest unsigned value of the field. -/
def InField (f : Format) (number : Int) : Prop :=
  ∃ bits, f.fieldWidth = some bits ∧ -2 ^ (bits - 1) ≤ number ∧ number ≤ 2 ^ bits - 1

theorem inField_of_width {f : Format} {bits : Nat} (hw : f.fieldWidth = some bits) (number : Int) :
    f.InField number ↔ Fits number bits := by
  simp only [InField, hw, Option.some.injEq, exists_eq_left', fits_iff]
  omega

private theorem inField_zero {f : Format} {bits : Nat} (hw : f.fieldWidth = some bits) :
    f.InField 0 := by
  have hlow : (0 : Int) < 2 ^ (bits - 1) := by positivity
  have hhigh : (0 : Int) < 2 ^ bits := by positivity
  exact ⟨bits, hw, by omega, by omega⟩

theorem takesRegs_iff {f : Format} {ops : List Operand} :
    f.TakesRegs ops ↔
      (f.impliesR0 = true → ∀ op ∈ ops, ∀ r, op.direct? = some r → r = .r0) := by
  simp only [TakesRegs, Operand.direct?_eq_some]
  constructor
  · intro h hf op hop r hr
    exact h hf r (hr ▸ hop)
  · intro h hf r hr
    exact h hf _ hr r rfl

theorem find?_direct_eq_some {ops : List Operand} {r : Reg} :
    (ops.filterMap Operand.direct?).find? (· ≠ .r0) = some r ↔
      ∃ before after, ops = before ++ .reg r :: after ∧ r ≠ .r0 ∧
        ∀ q, .reg q ∈ before → q = .r0 := by
  simp only [List.find?_eq_some_iff_append, List.filterMap_eq_append_iff,
    List.filterMap_eq_cons_iff, Operand.direct?_eq_some]
  constructor
  · rintro ⟨hr, _, _, ⟨first, _, rfl, rfl, skipped, _, after, rfl, hskipped, rfl, _⟩, hfirst⟩
    refine ⟨first ++ skipped, after, by simp, by simpa using hr, ?_⟩
    intro q hq
    by_cases hmem : .reg q ∈ first
    · simpa using hfirst q (List.mem_filterMap.mpr ⟨_, hmem, rfl⟩)
    · have hskip := hskipped (.reg q) (by simpa [hmem] using hq)
      simp [Operand.direct?] at hskip
  · rintro ⟨before, after, hops, hr, hbefore⟩
    refine ⟨by simpa using hr, before.filterMap Operand.direct?, after.filterMap Operand.direct?,
      ⟨before, .reg r :: after, hops, rfl, [], .reg r, after, rfl, by simp, rfl, rfl⟩, ?_⟩
    intro q hq
    simp only [List.mem_filterMap, Operand.direct?_eq_some, exists_eq_right] at hq
    simpa using hbefore q hq

private theorem fieldValue_eq_zero_or_mem (f : Format) (ops : List Operand) :
    f.fieldValue ops = 0 ∨ ∃ op ∈ ops, op.number? = some (f.fieldValue ops) := by
  unfold fieldValue
  by_cases himm : f.takesImm = true
  · simp only [himm, if_true]
    cases hfound : ops.findSome? Operand.imm? with
    | none => exact .inl rfl
    | some v =>
      obtain ⟨op, hop, hv⟩ := List.exists_of_findSome?_eq_some hfound
      have hnumber : op.number? = some v := by
        cases op <;> simp_all [Operand.number?, Operand.disp?, Operand.imm?]
      exact .inr ⟨op, hop, hnumber⟩
  · simp only [himm]
    cases hfound : ops.findSome? Operand.disp? with
    | none => exact .inl rfl
    | some d =>
      obtain ⟨op, hop, hd⟩ := List.exists_of_findSome?_eq_some hfound
      have hnumber : op.number? = some d := by simp [Operand.number?, hd]
      exact .inr ⟨op, hop, hnumber⟩

end Format

namespace Entry

variable {e : Entry} {ops : List Operand}

private theorem fieldValue_of_number (he : e.WellFormed) (hshape : ops.map Operand.mode = e.shape)
    {op : Operand} (hop : op ∈ ops) {v : Int} (hv : op.number? = some v) :
    e.format.fieldValue ops = v ∧ e.format.fieldWidth.isSome = true := by
  cases hd : op.disp? with
  | some d =>
    have hvalue : d = v := by simpa [Operand.number?, hd] using hv
    exact hvalue ▸ fieldValue_of_disp he hshape hop hd
  | none =>
    have himm : op.imm? = some v := by simpa [Operand.number?, hd] using hv
    obtain ⟨hvalue, htakes⟩ := fieldValue_of_imm he hshape hop himm
    refine ⟨hvalue, ?_⟩
    cases hf : e.format <;> simp [hf, Format.takesImm, Format.fieldWidth] at htakes ⊢

theorem fits_fieldValue_iff (he : e.WellFormed) (hshape : ops.map Operand.mode = e.shape) :
    (∀ bits, e.format.fieldWidth = some bits → Fits (e.format.fieldValue ops) bits) ↔
      ∀ op ∈ ops, ∀ v, op.number? = some v → e.format.InField v := by
  constructor
  · intro h op hop v hv
    obtain ⟨hvalue, hsome⟩ := fieldValue_of_number he hshape hop hv
    obtain ⟨bits, hw⟩ := Option.isSome_iff_exists.mp hsome
    rw [Format.inField_of_width hw, ← hvalue]
    exact h bits hw
  · intro h bits hw
    rw [← Format.inField_of_width hw]
    rcases e.format.fieldValue_eq_zero_or_mem ops with hzero | ⟨op, hop, hv⟩
    · rw [hzero]
      exact Format.inField_zero hw
    · exact h op hop _ hv

def Refuses (e : Entry) (ops : List Operand) (error : EncodeError) : Prop :=
  (∃ r, e.format.FirstWrong ops r ∧ error = .requiresR0 r) ∨
  e.format.TakesRegs ops ∧ ∃ op ∈ ops, ∃ v bits, op.number? = some v ∧
    e.format.fieldWidth = some bits ∧ ¬ e.format.InField v ∧ error = .outOfRange v bits

theorem exists_encode_eq_ok (he : e.WellFormed) (hshape : ops.map Operand.mode = e.shape) :
    (∃ word, e.encode ops = .ok word) ↔ e.format.TakesRegs ops ∧
      ∀ op ∈ ops, ∀ v, op.number? = some v → e.format.InField v := by
  rw [Format.takesRegs_iff, ← fits_fieldValue_iff he hshape]
  simp only [encode, Format.encode_eq_ok]
  constructor
  · intro ⟨_, hr0, hfits, _⟩
    exact ⟨hr0, hfits⟩
  · intro ⟨hr0, hfits⟩
    exact ⟨_, hr0, hfits, rfl⟩

theorem encode_eq_error_iff (he : e.WellFormed) (hshape : ops.map Operand.mode = e.shape)
    (error : EncodeError) : e.encode ops = .error error ↔ e.Refuses ops error := by
  rw [encode, Format.encode_eq_error, ← Format.takesRegs_iff, Refuses]
  refine or_congr ?_ (and_congr_right fun _ => ?_)
  · simp only [Format.FirstWrong, Format.find?_direct_eq_some]
    constructor
    · intro ⟨hf, r, hr, herror⟩
      exact ⟨r, ⟨hf, hr⟩, herror⟩
    · intro ⟨r, ⟨hf, hr⟩, herror⟩
      exact ⟨hf, r, hr, herror⟩
  · constructor
    · intro ⟨bits, hw, hfits, herror⟩
      rw [← Format.inField_of_width hw] at hfits
      rcases e.format.fieldValue_eq_zero_or_mem ops with hzero | ⟨op, hop, hv⟩
      · exact absurd (hzero ▸ Format.inField_zero hw) hfits
      · exact ⟨op, hop, _, bits, hv, hw, hfits, herror⟩
    · intro ⟨op, hop, v, bits, hv, hw, hfits, herror⟩
      have hvalue := (fieldValue_of_number he hshape hop hv).1
      rw [Format.inField_of_width hw, ← hvalue] at hfits
      exact ⟨bits, hw, hfits, hvalue ▸ herror⟩

/-- The label of an encoded branch reads as the address of the branch itself. -/
theorem label_of_mem_decode (he : e ∈ instructions) (hshape : ops.map Operand.mode = e.shape)
    {word : Word} (h : e.encode ops = .ok word) {pc : Nat} (hpc : pc < 2 ^ 32) {name : String}
    (hname : .label name ∈ e.format.decode word e.shape pc) : name = Text.address pc := by
  obtain ⟨r, mode, hmode, hop⟩ := e.format.exists_of_mem_decodeFrom word pc hname
  have hlabel : mode = .label := by
    cases mode <;> simp [Format.operandAt] at hop ⊢
  subst hlabel
  obtain ⟨honly, hwidth⟩ := (instructions_wellFormed e he).2.2.2.2.2.2 hmode
  obtain ⟨bits, hbits⟩ := Option.isSome_iff_exists.mp hwidth
  -- A branch stays unlinked: its word is the opcode, with a displacement of zero.
  have hword : word = e.opcode := by
    obtain ⟨op, rfl, hlabel⟩ := List.map_eq_singleton_iff.mp (hshape.trans honly)
    cases op <;> cases hlabel
    rw [encode, Format.encode_label hbits, Except.ok.injEq] at h
    exact h.symm
  have htarget : e.format.branchTarget word pc = pc := by
    rw [Format.branchTarget, hword, branch_opcodes e he honly, Int.pow_eq]
    omega
  simpa [Format.operandAt, htarget] using hop

end Entry

/-! ## Operands of one word -/

private theorem congruent_of_common {f : Format} {a b decoded : Option Int}
    (hsome : b.isSome = a.isSome)
    (ha : ∀ d, a = some d →
      ∃ e bits, decoded = some e ∧ f.fieldWidth = some bits ∧ e ≡ d [ZMOD 2 ^ bits])
    (hb : ∀ d, b = some d →
      ∃ e bits, decoded = some e ∧ f.fieldWidth = some bits ∧ e ≡ d [ZMOD 2 ^ bits])
    (d : Int) (hd : a = some d) :
    ∃ e bits, b = some e ∧ f.fieldWidth = some bits ∧ e ≡ d [ZMOD 2 ^ bits] := by
  obtain ⟨c, bits, hc, hbits, hcd⟩ := ha d hd
  rw [hd, Option.isSome_some] at hsome
  obtain ⟨d', hd'⟩ := Option.isSome_iff_exists.mp hsome
  obtain ⟨c', bits', hc', hbits', hcd'⟩ := hb d' hd'
  simp only [hc, hbits, Option.some.injEq] at hc' hbits'
  subst hc' hbits'
  exact ⟨d', bits, hd', hbits, hcd'.symm.trans hcd⟩

theorem Operand.Recovers.of_common {f : Format} {a b decoded : Operand}
    (ha : a.Recovers f decoded) (hb : b.Recovers f decoded) : a.Recovers f b := by
  have hmode : b.mode = a.mode := hb.mode.symm.trans ha.mode
  constructor
  · exact hmode
  · exact hb.reg.symm.trans ha.reg
  · refine congruent_of_common ?_ ha.disp hb.disp
    rw [b.disp?_isSome, hmode, ← a.disp?_isSome]
  · refine congruent_of_common ?_ ha.imm hb.imm
    rw [b.imm?_isSome, hmode, ← a.imm?_isSome]

private theorem forall₂_recovers_of_common {f : Format} {as bs decoded : List Operand}
    (has : List.Forall₂ (Operand.Recovers f) as decoded)
    (hbs : List.Forall₂ (Operand.Recovers f) bs decoded) :
    List.Forall₂ (Operand.Recovers f) as bs := by
  induction has generalizing bs with
  | nil =>
    cases hbs
    exact .nil
  | cons ha _ ih =>
    cases hbs with
    | cons hb hrest => exact .cons (ha.of_common hb) (ih hrest)

/-- An entry encodes operands, and its words are read back, as exactly as their fields allow. -/
structure Entry.EncodesExactly (e : Entry) (ops : List Operand) : Prop where
  accepts : (∃ word, e.encode ops = .ok word) ↔ e.format.TakesRegs ops ∧
    ∀ op ∈ ops, ∀ v, op.number? = some v → e.format.InField v
  refuses : ∀ error, e.encode ops = .error error ↔ e.Refuses ops error
  decodes : ∀ word, e.encode ops = .ok word → ∀ pc < 2 ^ 32, ∃ decoded,
    sh2.decode? word pc = some (e, decoded) ∧
    List.Forall₂ (Operand.Recovers e.format) ops decoded ∧
    (∀ name, .label name ∈ decoded → name = Text.address pc ∧ Text.WritesAddress name pc) ∧
    (.label ∉ e.shape → e.encode decoded = .ok word)
  injective : ∀ e' ∈ instructions, ∀ ops', ops'.map Operand.mode = e'.shape → ∀ word,
    e.encode ops = .ok word → e'.encode ops' = .ok word →
      e' = e ∧ List.Forall₂ (Operand.Recovers e.format) ops ops'

/-- An instruction encodes just those operands of its shape whose registers and numbers have a place
in the word, and names the first that has none. Its word decodes to it, with the same operands up to
the width of their fields, and no other instruction encodes to that word. -/
theorem Entry.encode_exact {e : Entry} (he : e ∈ instructions) {ops : List Operand}
    (hshape : ops.map Operand.mode = e.shape) : e.EncodesExactly ops := by
  have hwf := instructions_wellFormed e he
  constructor
  · exact exists_encode_eq_ok hwf hshape
  · exact encode_eq_error_iff hwf hshape
  · intro word h pc hpc
    have hcovers := covers_encode hwf h
    refine ⟨_, decode?_of_covers he hcovers pc, decode_encode hwf hshape h pc,
      fun name hname => ?_, fun hlabel => encode_decode he hlabel hcovers pc⟩
    rw [label_of_mem_decode he hshape h hpc hname]
    exact ⟨rfl, Text.writesAddress_address hpc⟩
  · intro e' he' ops' hshape' word h h'
    have hwf' := instructions_wellFormed e' he'
    -- Both instructions are what the one word decodes to.
    have hdecode := decode?_of_covers he (covers_encode hwf h) 0
    rw [decode?_of_covers he' (covers_encode hwf' h') 0, Option.some.injEq, Prod.mk.injEq]
      at hdecode
    obtain ⟨rfl, _⟩ := hdecode
    exact ⟨rfl, forall₂_recovers_of_common (decode_encode hwf hshape h 0)
      (decode_encode hwf' hshape' h' 0)⟩

/-- A displacement written with a sign, an immediate one above its limit, and one beside a register
that has to be R0. -/
theorem Entry.encode_exact_limits :
    (∃ decoded, sh2.decode? 0x5728 0x1000 =
        some (⟨"MOV.L", [.dispReg, .reg], 0x5000, .nmd⟩, decoded) ∧
      decoded = [.dispReg 8 ⟨2⟩, .reg ⟨7⟩] ∧
      List.Forall₂ (Operand.Recovers .nmd) [.dispReg (-8) ⟨2⟩, .reg ⟨7⟩] decoded ∧
      Entry.encode ⟨"MOV.L", [.dispReg, .reg], 0x5000, .nmd⟩ decoded = .ok 0x5728) ∧
    Entry.Refuses ⟨"AND", [.imm, .reg], 0xC900, .i⟩ [.imm 256, .reg .r0] (.outOfRange 256 8) ∧
    Entry.Refuses ⟨"AND", [.imm, .reg], 0xC900, .i⟩ [.imm 256, .reg ⟨3⟩] (.requiresR0 ⟨3⟩) := by
  have hmove : Entry.EncodesExactly ⟨"MOV.L", [.dispReg, .reg], 0x5000, .nmd⟩
      [.dispReg (-8) ⟨2⟩, .reg ⟨7⟩] :=
    Entry.encode_exact (by decide) rfl
  have hand (v : Int) (r : Reg) : Entry.EncodesExactly ⟨"AND", [.imm, .reg], 0xC900, .i⟩
      [.imm v, .reg r] :=
    Entry.encode_exact (by decide) rfl
  refine ⟨?_, ((hand _ _).refuses _).mp (by decide), ((hand _ _).refuses _).mp (by decide)⟩
  obtain ⟨decoded, hdecode, hrecovers, _, hencode⟩ :=
    hmove.decodes 0x5728 (by decide) 0x1000 (by decide)
  have hread : sh2.decode? 0x5728 0x1000 = some (⟨"MOV.L", [.dispReg, .reg], 0x5000, .nmd⟩,
      [.dispReg 8 ⟨2⟩, .reg ⟨7⟩]) := by
    decide
  rw [hread, Option.some.injEq, Prod.mk.injEq] at hdecode
  exact ⟨decoded, hdecode.2 ▸ hread, hdecode.2.symm, hrecovers, hencode (by decide)⟩

end SuperH
