import SuperH.Proofs.Encoding

/-!
# Decoding an encoded instruction

Decoding takes an encoded word apart by the entry that encoded it: no word belongs to two entries.
The operands come back with their modes and registers, and their numbers up to the width of the
field.
-/
namespace SuperH

def Mode.hasDisp : Mode → Bool
  | .dispReg | .dispGbr | .dispPc => true
  | _ => false

def Mode.takesField (f : Format) : Mode → Bool
  | .reg => !f.impliesR0
  | .indirect | .preDec | .postInc | .dispReg | .indexReg => true
  | _ => false

/-- What decoding keeps of an operand: its mode with the registers, and its number up to the width
of the field. -/
structure Operand.Recovers (f : Format) (written decoded : Operand) : Prop where
  mode : decoded.mode = written.mode
  reg : decoded.reg? = written.reg?
  disp : ∀ d, written.disp? = some d →
    ∃ e bits, decoded.disp? = some e ∧ f.fieldWidth = some bits ∧ e ≡ d [ZMOD 2 ^ bits]
  imm : ∀ v, written.imm? = some v →
    ∃ e bits, decoded.imm? = some e ∧ f.fieldWidth = some bits ∧ e ≡ v [ZMOD 2 ^ bits]

/-- The shape of an entry asks for the fields that its format has. -/
def Entry.WellFormed (e : Entry) : Prop :=
  e.opcode &&& e.format.mask = e.opcode ∧
  e.shape.countP (Mode.takesField e.format) = e.format.regCount ∧
  e.shape.countP Mode.hasDisp ≤ 1 ∧ e.shape.countP (· == .imm) ≤ 1 ∧
  (∀ mode ∈ e.shape, mode.hasDisp = true →
    e.format.takesImm = false ∧ e.format.fieldWidth.isSome = true) ∧
  (.imm ∈ e.shape → e.format.takesImm = true) ∧
  (.label ∈ e.shape → e.shape = [.label] ∧ e.format.branchWidth.isSome = true)

instance (e : Entry) : Decidable e.WellFormed :=
  inferInstanceAs (Decidable (_ ∧ _))

theorem instructions_wellFormed : ∀ e ∈ instructions, e.WellFormed := by
  decide +kernel

theorem branch_opcodes : ∀ e ∈ instructions, e.shape = [.label] →
    e.format.branchDisp e.opcode = 0 := by
  decide +kernel

namespace Format

private theorem wordDisp_modEq {f : Format} {word : Word} {number : Int} {bits : Nat}
    (hw : f.fieldWidth = some bits) (h : word.extractLsb' 0 bits = BitVec.ofInt bits number) :
    f.wordDisp word ≡ number [ZMOD 2 ^ bits] := by
  cases f <;> cases hw <;> simp only [wordDisp, h]
  all_goals first | exact toNat_ofInt_modEq _ _ | exact toInt_ofInt_modEq _ _

private theorem wordImm_modEq {f : Format} {word : Word} {number : Int} {bits : Nat}
    (hi : f.takesImm = true) (hw : f.fieldWidth = some bits)
    (h : word.extractLsb' 0 bits = BitVec.ofInt bits number) :
    f.wordImm word ≡ number [ZMOD 2 ^ bits] := by
  cases f <;> cases hi <;> cases hw <;> simp only [wordImm, h]
  · exact toNat_ofInt_modEq _ _
  · exact toInt_ofInt_modEq _ _

private theorem fieldReg?_isSome (f : Format) (op : Operand) :
    (f.fieldReg? op).isSome = op.mode.takesField f := by
  cases hf : f.impliesR0 <;> cases op <;>
    simp [fieldReg?, hf, Operand.direct?, Operand.reg?, Operand.mode, Mode.takesField]

private theorem length_regsOf (f : Format) (ops : List Operand) :
    (f.regsOf ops).length = (ops.map Operand.mode).countP (Mode.takesField f) := by
  rw [regsOf, List.length_filterMap_eq_countP, List.countP_map]
  apply List.countP_congr
  intro op _
  simp [fieldReg?_isSome]

/-- An operand with its number and its label read off a word. -/
def reread (f : Format) (word : Word) (pc : Nat) : Operand → Operand
  | .imm _ => .imm (f.wordImm word)
  | .reg r => .reg (if f.impliesR0 then .r0 else r)
  | .dispReg _ r => .dispReg (f.wordDisp word) r
  | .dispGbr _ => .dispGbr (f.wordDisp word)
  | .dispPc _ => .dispPc (f.wordDisp word)
  | .label _ => .label (Text.address (f.branchTarget word pc))
  | op => op

private theorem decodeFrom_regsOf (f : Format) (word : Word) (pc : Nat) (ops : List Operand) :
    f.decodeFrom word pc (f.regsOf ops) (ops.map Operand.mode) = ops.map (f.reread word pc) := by
  induction ops with
  | nil => rfl
  | cons op ops ih =>
    rw [regsOf] at ih
    cases hf : f.impliesR0 <;> cases op <;>
      simp [regsOf, fieldReg?, hf, Operand.direct?, Operand.reg?, Operand.mode, decodeFrom,
        reread, ih]

private theorem reread_recovers {f : Format} {word : Word} (pc : Nat) {op : Operand}
    (hr0 : f.impliesR0 = true → ∀ r, op.direct? = some r → r = .r0)
    (hdisp : ∀ d, op.disp? = some d →
      ∃ bits, f.fieldWidth = some bits ∧ f.wordDisp word ≡ d [ZMOD 2 ^ bits])
    (himm : ∀ v, op.imm? = some v →
      ∃ bits, f.fieldWidth = some bits ∧ f.wordImm word ≡ v [ZMOD 2 ^ bits]) :
    op.Recovers f (f.reread word pc op) := by
  constructor
  · cases op <;> rfl
  · cases op with
    | reg r =>
      simp only [reread, Operand.reg?]
      split
      · rename_i h
        rw [hr0 h r rfl]
      · rfl
    | _ => rfl
  · intro d hd
    obtain ⟨bits, hbits, hmod⟩ := hdisp d hd
    refine ⟨_, bits, ?_, hbits, hmod⟩
    cases op <;> cases hd <;> rfl
  · intro v hv
    obtain ⟨bits, hbits, hmod⟩ := himm v hv
    refine ⟨_, bits, ?_, hbits, hmod⟩
    cases op <;> cases hv
    rfl

end Format

private theorem findSome?_of_countP_le_one {α β : Type} {g : α → Option β} {xs : List α}
    (hone : xs.countP (fun x => (g x).isSome) ≤ 1) {x : α} (hx : x ∈ xs) {b : β}
    (hb : g x = some b) : xs.findSome? g = some b := by
  induction xs with
  | nil => cases hx
  | cons y ys ih =>
    rw [List.findSome?_cons]
    rcases List.mem_cons.mp hx with rfl | hx
    · rw [hb]
    · cases hy : g y with
      | none =>
        rw [List.countP_cons_of_neg (by simp [hy])] at hone
        exact ih hone hx
      | some c =>
        have hpos : 0 < ys.countP (fun x => (g x).isSome) :=
          List.countP_pos_iff.mpr ⟨x, hx, by simp [hb]⟩
        rw [List.countP_cons_of_pos (by simp [hy])] at hone
        omega

theorem Operand.disp?_isSome (op : Operand) : op.disp?.isSome = op.mode.hasDisp := by
  cases op <;> rfl

theorem Operand.imm?_isSome (op : Operand) : op.imm?.isSome = (op.mode == .imm) := by
  cases op <;> rfl

namespace Entry

variable {e : Entry} {ops : List Operand}

theorem fieldValue_of_disp (he : e.WellFormed) (hshape : ops.map Operand.mode = e.shape)
    {op : Operand} (hop : op ∈ ops) {d : Int} (hd : op.disp? = some d) :
    e.format.fieldValue ops = d ∧ e.format.fieldWidth.isSome = true := by
  obtain ⟨_, _, hone, _, hwidth, _, _⟩ := he
  rw [← hshape] at hone hwidth
  have hmode : op.mode.hasDisp = true := by rw [← Operand.disp?_isSome, hd]; rfl
  obtain ⟨himm, hsome⟩ := hwidth op.mode (List.mem_map_of_mem hop) hmode
  rw [List.countP_map] at hone
  have hfirst := findSome?_of_countP_le_one (g := Operand.disp?)
    (by simpa only [Function.comp_def, Operand.disp?_isSome] using hone) hop hd
  exact ⟨by simp [Format.fieldValue, himm, hfirst], hsome⟩

theorem fieldValue_of_imm (he : e.WellFormed) (hshape : ops.map Operand.mode = e.shape)
    {op : Operand} (hop : op ∈ ops) {v : Int} (hv : op.imm? = some v) :
    e.format.fieldValue ops = v ∧ e.format.takesImm = true := by
  obtain ⟨_, _, _, hone, _, himm, _⟩ := he
  rw [← hshape] at hone himm
  have hmode : op.mode = .imm := by
    have h := op.imm?_isSome
    rw [hv] at h
    simpa using h.symm
  have htakes := himm (hmode ▸ List.mem_map_of_mem hop)
  rw [List.countP_map] at hone
  have hfirst := findSome?_of_countP_le_one (g := Operand.imm?)
    (by simpa only [Function.comp_def, Operand.imm?_isSome] using hone) hop hv
  exact ⟨by simp [Format.fieldValue, htakes, hfirst], htakes⟩

theorem covers_iff {word : Word} : e.covers word = true ↔ word &&& e.format.mask = e.opcode := by
  simp [covers]

theorem covers_encode (he : e.WellFormed) {word : Word} (h : e.encode ops = .ok word) :
    e.covers word = true := by
  obtain ⟨_, _, rfl⟩ := Format.encode_eq_ok.mp h
  exact covers_iff.mpr (Format.fill_and_mask he.1 _ _)

/-- Decoding an encoded word, with the encoder's entry at hand. -/
theorem decode_encode (he : e.WellFormed) (hshape : ops.map Operand.mode = e.shape) {word : Word}
    (h : e.encode ops = .ok word) (pc : Nat) :
    List.Forall₂ (Operand.Recovers e.format) ops (e.format.decode word e.shape pc) := by
  obtain ⟨hr0, _, rfl⟩ := Format.encode_eq_ok.mp h
  have hlength : (e.format.regsOf ops).length = e.format.regCount := by
    rw [Format.length_regsOf, hshape, he.2.1]
  rw [Format.decode, Format.wordRegs_fill he.1 hlength, ← hshape, Format.decodeFrom_regsOf,
    List.forall₂_map_right_iff, List.forall₂_same]
  intro op hop
  apply Format.reread_recovers
  · intro hf r hr
    exact hr0 hf op hop r hr
  · intro d hd
    obtain ⟨hvalue, hsome⟩ := fieldValue_of_disp he hshape hop hd
    obtain ⟨bits, hbits⟩ := Option.isSome_iff_exists.mp hsome
    refine ⟨bits, hbits, Format.wordDisp_modEq hbits ?_⟩
    rw [Format.extract_fill he.1 _ _ hbits, hvalue]
  · intro v hv
    obtain ⟨hvalue, htakes⟩ := fieldValue_of_imm he hshape hop hv
    obtain ⟨bits, hbits⟩ : ∃ bits, e.format.fieldWidth = some bits := by
      cases hf : e.format <;> simp [hf, Format.takesImm, Format.fieldWidth] at htakes ⊢
    refine ⟨bits, hbits, Format.wordImm_modEq htakes hbits ?_⟩
    rw [Format.extract_fill he.1 _ _ hbits, hvalue]

end Entry

/-! ## Looking a word up -/

theorem Entry.overlaps_of_covers {a b : Entry} {word : Word} (ha : a.covers word = true)
    (hb : b.covers word = true) : a.overlaps b = true := by
  rw [covers_iff] at ha hb
  simp only [overlaps, beq_iff_eq, ← ha, ← hb]
  ext i hi
  simp only [BitVec.getElem_and]
  cases a.format.mask[i] <;> cases b.format.mask[i] <;> simp

theorem Table.firstOverlap?_eq_none {entries : List Entry} :
    firstOverlap? entries = none ↔ entries.Pairwise fun a b => a.overlaps b = false := by
  induction entries with
  | nil => simp [firstOverlap?]
  | cons e rest ih =>
    rw [firstOverlap?, List.pairwise_cons, ← ih]
    cases h : rest.find? e.overlaps with
    | none =>
      have hall : ∀ other ∈ rest, e.overlaps other = false := by
        simpa [List.find?_eq_none] using h
      simp only [iff_and_self]
      exact fun _ => hall
    | some other =>
      have hoverlaps := List.find?_some h
      simp only [reduceCtorEq, false_iff, not_and]
      intro hall
      rw [hall other (List.mem_of_find?_eq_some h)] at hoverlaps
      cases hoverlaps

theorem instructions_disjoint :
    instructions.Pairwise fun a b => a.overlaps b = false := by
  rw [← Table.firstOverlap?_eq_none]
  decide +kernel

private theorem Table.find?_covers {entries : List Entry}
    (hdisjoint : entries.Pairwise fun a b => a.overlaps b = false) {e : Entry} (he : e ∈ entries)
    {word : Word} (h : e.covers word = true) : entries.find? (·.covers word) = some e := by
  induction entries with
  | nil => cases he
  | cons a rest ih =>
    rw [List.pairwise_cons] at hdisjoint
    rcases List.mem_cons.mp he with rfl | he
    · rw [List.find?_cons, h]
    · have ha : a.covers word = false := by
        rw [← Bool.not_eq_true]
        intro ha
        have hoverlaps := Entry.overlaps_of_covers ha h
        rw [hdisjoint.1 e he] at hoverlaps
        cases hoverlaps
      rw [List.find?_cons, ha]
      exact ih hdisjoint.2 he

theorem Table.decode?_eq_some_iff {entries : List Entry}
    (hdisjoint : entries.Pairwise fun a b => a.overlaps b = false) {word : Word} {pc : Nat}
    {e : Entry} {ops : List Operand} :
    (⟨entries⟩ : Table).decode? word pc = some (e, ops) ↔
      e ∈ entries ∧ e.covers word = true ∧ ops = e.format.decode word e.shape pc := by
  simp only [decode?, Option.map_eq_some_iff, Prod.mk.injEq]
  constructor
  · rintro ⟨found, hfind, rfl, rfl⟩
    have hcovers : found.covers word = true := by simpa using List.find?_some hfind
    exact ⟨List.mem_of_find?_eq_some hfind, hcovers, rfl⟩
  · intro ⟨he, hcovers, hops⟩
    exact ⟨e, find?_covers hdisjoint he hcovers, rfl, hops.symm⟩

theorem Table.mem_of_lookup? {t : Table} {mnemonic : String} {shape : List Mode} {e : Entry}
    (h : t.lookup? mnemonic shape = some e) :
    e ∈ t.entries ∧ e.mnemonic = mnemonic ∧ e.shape = shape := by
  have hkey := List.find?_some h
  rw [Bool.and_eq_true, beq_iff_eq, beq_iff_eq] at hkey
  exact ⟨List.mem_of_find?_eq_some h, hkey⟩

theorem decode?_of_covers {e : Entry} (he : e ∈ instructions) {word : Word}
    (h : e.covers word = true) (pc : Nat) :
    sh2.decode? word pc = some (e, e.format.decode word e.shape pc) :=
  (Table.decode?_eq_some_iff instructions_disjoint).mpr ⟨he, h, rfl⟩

theorem covers_of_decode? {e : Entry} {ops : List Operand} {word : Word} {pc : Nat}
    (h : sh2.decode? word pc = some (e, ops)) :
    e ∈ instructions ∧ e.covers word = true ∧ ops = e.format.decode word e.shape pc :=
  (Table.decode?_eq_some_iff instructions_disjoint).mp h

end SuperH
