import Mathlib.Data.List.Nodup
import SuperH.Proofs.Decoding

/-!
# Tables without ambiguity

A list of entries is taken as a table if no key comes twice and no word belongs to two entries. In
such a table a key has one entry and a word has one instruction, whatever the order of the list.
-/
namespace SuperH

namespace Entry

def signature (e : Entry) : String × List Mode :=
  (e.mnemonic, e.shape)

/-- The opcode has no bit where the format has a field. -/
def Confined (e : Entry) : Prop :=
  e.opcode &&& e.format.mask = e.opcode

instance (e : Entry) : Decidable e.Confined :=
  inferInstanceAs (Decidable (_ = _))

theorem sameKey_iff {a b : Entry} : a.sameKey b = true ↔ a.signature = b.signature := by
  simp [sameKey, signature]

private theorem overlaps_comm (a b : Entry) : a.overlaps b = b.overlaps a := by
  rw [Bool.eq_iff_iff]
  simp only [overlaps, beq_iff_eq, BitVec.and_comm b.format.mask a.format.mask]
  exact eq_comm

/-- If two opcodes agree where both fix a bit, their bits together make a word of the first. -/
theorem covers_or {a b : Entry} (ha : a.Confined) (hb : b.Confined) (h : a.overlaps b = true) :
    a.covers (a.opcode ||| b.opcode) = true := by
  rw [covers_iff]
  simp only [overlaps, beq_iff_eq] at h
  ext i hi
  have hai : (a.opcode[i] && a.format.mask[i]) = a.opcode[i] := by
    rw [← BitVec.getElem_and, ha]
  have hbi : (b.opcode[i] && b.format.mask[i]) = b.opcode[i] := by
    rw [← BitVec.getElem_and, hb]
  have hcommon : (a.opcode[i] && (a.format.mask[i] && b.format.mask[i])) =
      (b.opcode[i] && (a.format.mask[i] && b.format.mask[i])) := by
    simp only [← BitVec.getElem_and, h]
  -- Where only the mask of `a` has a bit, `b` is confined to zero, and the other way round.
  rw [BitVec.getElem_and, BitVec.getElem_or]
  cases hma : a.format.mask[i] <;> cases hmb : b.format.mask[i] <;> simp_all

theorem overlaps_iff {a b : Entry} (ha : a.Confined) (hb : b.Confined) :
    a.overlaps b = true ↔ ∃ word, a.covers word = true ∧ b.covers word = true := by
  constructor
  · intro h
    have hcomm : b.overlaps a = true := by rwa [overlaps_comm]
    exact ⟨a.opcode ||| b.opcode, covers_or ha hb h, BitVec.or_comm _ _ ▸ covers_or hb ha hcomm⟩
  · intro ⟨word, hwa, hwb⟩
    exact overlaps_of_covers hwa hwb

end Entry

namespace Table

/-! ## Keys -/

def DistinctKeys (entries : List Entry) : Prop :=
  (entries.map Entry.signature).Nodup

/-- The first entry whose key has come before. -/
def FirstRepeated (entries : List Entry) (e : Entry) : Prop :=
  ∃ before after, entries = before ++ e :: after ∧ DistinctKeys before ∧
    e.signature ∈ before.map Entry.signature

theorem any_sameKey_iff {seen : List Entry} {e : Entry} :
    seen.any e.sameKey = true ↔ e.signature ∈ seen.map Entry.signature := by
  simp only [List.any_eq_true, Entry.sameKey_iff, List.mem_map]
  exact exists_congr fun a => and_congr_right fun _ => eq_comm

theorem firstDuplicate?_eq_none {seen entries : List Entry} :
    firstDuplicate? seen entries = none ↔ DistinctKeys entries ∧
      ∀ e ∈ entries, e.signature ∉ seen.map Entry.signature := by
  induction entries generalizing seen with
  | nil => simp [firstDuplicate?, DistinctKeys]
  | cons e rest ih =>
    by_cases hseen : e.signature ∈ seen.map Entry.signature
    · have hany := any_sameKey_iff.mpr hseen
      simp only [firstDuplicate?, hany, if_true, reduceCtorEq, false_iff]
      intro ⟨_, hall⟩
      exact hall e List.mem_cons_self hseen
    · have hany : seen.any e.sameKey = false := by
        rwa [← Bool.not_eq_true, any_sameKey_iff]
      simp only [firstDuplicate?, hany, Bool.false_eq_true, if_false, ih, DistinctKeys,
        List.map_cons, List.nodup_cons, List.mem_cons, not_or, forall_eq_or_imp]
      constructor
      · intro ⟨hnodup, hall⟩
        refine ⟨⟨?_, hnodup⟩, hseen, fun a ha => (hall a ha).2⟩
        intro hmem
        obtain ⟨a, ha, hsame⟩ := List.mem_map.mp hmem
        exact (hall a ha).1 hsame
      · intro ⟨⟨hnew, hnodup⟩, _, hall⟩
        refine ⟨hnodup, fun a ha => ⟨?_, hall a ha⟩⟩
        intro hsame
        exact hnew (hsame ▸ List.mem_map_of_mem ha)

theorem firstDuplicate?_eq_some {seen entries : List Entry} {e : Entry} :
    firstDuplicate? seen entries = some e ↔ ∃ before after, entries = before ++ e :: after ∧
      firstDuplicate? seen before = none ∧
      e.signature ∈ (before ++ seen).map Entry.signature := by
  -- Entries move to `seen` as they are passed, so the key is among both.
  induction entries generalizing seen with
  | nil => simp [firstDuplicate?]
  | cons x rest ih =>
    by_cases hseen : seen.any x.sameKey = true
    · simp only [firstDuplicate?, hseen, if_true, Option.some.injEq]
      constructor
      · intro hx
        subst hx
        exact ⟨[], rest, rfl, rfl, any_sameKey_iff.mp hseen⟩
      · intro ⟨before, after, hsplit, hnone, _⟩
        cases before with
        | nil => simpa using (List.cons.inj hsplit).1
        | cons y before =>
          obtain ⟨rfl, _⟩ := List.cons.inj hsplit
          simp [firstDuplicate?, hseen] at hnone
    · simp only [firstDuplicate?, hseen, Bool.false_eq_true, if_false, ih]
      constructor
      · intro ⟨before, after, hsplit, hnone, hmem⟩
        refine ⟨x :: before, after, by rw [hsplit]; rfl, by simpa [firstDuplicate?, hseen], ?_⟩
        simp only [List.map_append, List.map_cons, List.cons_append, List.mem_append,
          List.mem_cons] at hmem ⊢
        tauto
      · intro ⟨before, after, hsplit, hnone, hmem⟩
        cases before with
        | nil =>
          obtain ⟨rfl, _⟩ := List.cons.inj hsplit
          exact absurd (any_sameKey_iff.mpr hmem) hseen
        | cons y before =>
          obtain ⟨rfl, hrest⟩ := List.cons.inj hsplit
          refine ⟨before, after, hrest, by simpa [firstDuplicate?, hseen] using hnone, ?_⟩
          simp only [List.map_append, List.map_cons, List.cons_append, List.mem_append,
            List.mem_cons] at hmem ⊢
          tauto

theorem firstDuplicate?_nil_eq_none {entries : List Entry} :
    firstDuplicate? [] entries = none ↔ DistinctKeys entries := by
  simp [firstDuplicate?_eq_none]

theorem firstDuplicate?_nil_eq_some {entries : List Entry} {e : Entry} :
    firstDuplicate? [] entries = some e ↔ FirstRepeated entries e := by
  simp [firstDuplicate?_eq_some, firstDuplicate?_nil_eq_none, FirstRepeated]

/-! ## Entries grouped by mnemonic -/

/-- The entries of each mnemonic, in table order. -/
abbrev Groups := String → List Entry

def Groups.add (groups : Groups) (e : Entry) : Groups :=
  Function.update groups e.mnemonic (groups e.mnemonic ++ [e])

/-- Group entries one after the other, looking for a repeated key in its group only. -/
def group (groups : Groups) : List Entry → Except TableError Groups
  | [] => .ok groups
  | e :: rest =>
    if (groups e.mnemonic).any (·.shape == e.shape) then .error (.duplicateKey e)
    else group (groups.add e) rest

def groupsOf (entries : List Entry) : Groups :=
  fun mnemonic => entries.filter (·.mnemonic == mnemonic)

private theorem groupsOf_add (entries : List Entry) (e : Entry) :
    (groupsOf entries).add e = groupsOf (entries ++ [e]) := by
  funext mnemonic
  by_cases h : mnemonic = e.mnemonic
  · subst h
    simp [Groups.add, groupsOf]
  · simp [Groups.add, groupsOf, h, Ne.symm h]

/-- Grouping finds the repeated keys that comparing with all earlier entries finds. -/
theorem group_groupsOf (before entries : List Entry) :
    group (groupsOf before) entries =
      match firstDuplicate? before.reverse entries with
      | some e => .error (.duplicateKey e)
      | none => .ok (groupsOf (before ++ entries)) := by
  induction entries generalizing before with
  | nil => simp [group, firstDuplicate?]
  | cons e rest ih =>
    have hany : (groupsOf before e.mnemonic).any (·.shape == e.shape) =
        before.reverse.any e.sameKey := by
      rw [groupsOf, List.any_filter, List.any_reverse]
      congr 1
      funext a
      rw [Entry.sameKey, BEq.comm (a := a.mnemonic), BEq.comm (a := a.shape)]
    have hrest := ih (before ++ [e])
    rw [List.reverse_append, List.append_assoc] at hrest
    rw [group, firstDuplicate?, hany, groupsOf_add, hrest]
    split <;> rfl

private theorem find?_groupsOf (entries : List Entry) (mnemonic : String) (shape : List Mode) :
    (groupsOf entries mnemonic).find? (·.shape == shape) =
      (⟨entries⟩ : Table).lookup? mnemonic shape := by
  simp only [groupsOf, lookup?, List.find?_filter, Bool.decide_and, Bool.decide_eq_true]

/-! ## Words -/

def DisjointWords (entries : List Entry) : Prop :=
  entries.Pairwise fun a b => ∀ word, ¬ (a.covers word = true ∧ b.covers word = true)

private theorem disjointWords_of_overlaps {entries : List Entry}
    (h : entries.Pairwise fun a b => a.overlaps b = false) : DisjointWords entries := by
  refine h.imp ?_
  intro a b hab word ⟨ha, hb⟩
  rw [Entry.overlaps_of_covers ha hb] at hab
  cases hab

theorem disjointWords_iff {entries : List Entry} (hconfined : ∀ e ∈ entries, e.Confined) :
    DisjointWords entries ↔ firstOverlap? entries = none := by
  rw [firstOverlap?_eq_none]
  refine List.Pairwise.iff_of_mem ?_
  intro a b ha hb
  rw [← Bool.not_eq_true, Entry.overlaps_iff (hconfined a ha) (hconfined b hb), not_exists]

private theorem countP_covers_le_one {entries : List Entry} (h : DisjointWords entries)
    (word : Word) :
    entries.countP (·.covers word) ≤ 1 := by
  induction entries with
  | nil => simp
  | cons e rest ih =>
    obtain ⟨hhead, hrest⟩ := List.pairwise_cons.mp h
    by_cases he : e.covers word = true
    · have hnone : rest.countP (·.covers word) = 0 := by
        rw [List.countP_eq_zero]
        intro other hother hcovers
        exact hhead other hother word ⟨he, hcovers⟩
      simp [he, hnone]
    · simp only [List.countP_cons, he]
      exact ih hrest

/-! ## Accepted tables -/

theorem ofEntries_eq_ok {entries : List Entry} {t : Table} :
    ofEntries entries = .ok t ↔
      DistinctKeys entries ∧ (entries.Pairwise fun a b => a.overlaps b = false) ∧
        t = ⟨entries⟩ := by
  rw [← firstDuplicate?_nil_eq_none, ← firstOverlap?_eq_none]
  unfold ofEntries
  cases firstDuplicate? [] entries with
  | some e => simp
  | none =>
    cases firstOverlap? entries with
    | some pair => simp
    | none => simp [eq_comm]

theorem ofEntries_instructions : ofEntries instructions = .ok sh2 := by
  have hkeys : firstDuplicate? [] instructions = none := by decide +kernel
  exact ofEntries_eq_ok.mpr ⟨firstDuplicate?_nil_eq_none.mp hkeys, instructions_disjoint, rfl⟩

private theorem ofEntries_eq_duplicateKey {entries : List Entry} {e : Entry} :
    ofEntries entries = .error (.duplicateKey e) ↔ FirstRepeated entries e := by
  rw [← firstDuplicate?_nil_eq_some]
  unfold ofEntries
  cases firstDuplicate? [] entries with
  | some e => simp
  | none =>
    cases firstOverlap? entries with
    | some pair => simp
    | none => simp

private theorem exists_firstRepeated {entries : List Entry} (h : ¬ DistinctKeys entries) :
    ∃ e, FirstRepeated entries e := by
  rw [← firstDuplicate?_nil_eq_none] at h
  obtain ⟨e, he⟩ := Option.ne_none_iff_exists'.mp h
  exact ⟨e, firstDuplicate?_nil_eq_some.mp he⟩

theorem lookup?_eq_some_iff {entries : List Entry} (h : DistinctKeys entries) {mnemonic : String}
    {shape : List Mode} {e : Entry} :
    (⟨entries⟩ : Table).lookup? mnemonic shape = some e ↔
      e ∈ entries ∧ e.mnemonic = mnemonic ∧ e.shape = shape := by
  constructor
  · exact mem_of_lookup?
  · intro ⟨he, hmnemonic, hshape⟩
    cases hfind : (⟨entries⟩ : Table).lookup? mnemonic shape with
    | none =>
      have hno := List.find?_eq_none.mp hfind e he
      simp [hmnemonic, hshape] at hno
    | some found =>
      obtain ⟨hmem, hkey⟩ := mem_of_lookup? hfind
      have hsame : found.signature = e.signature := by
        simp [Entry.signature, hkey, hmnemonic, hshape]
      rw [List.inj_on_of_nodup_map h hmem he hsame]

theorem ofEntries_perm {entries shuffled : List Entry} {t : Table}
    (h : ofEntries entries = .ok t) (hperm : entries.Perm shuffled) :
    ofEntries shuffled = .ok ⟨shuffled⟩ ∧
      ∀ word pc, (⟨shuffled⟩ : Table).decode? word pc = t.decode? word pc := by
  obtain ⟨hkeys, hdisjoint, rfl⟩ := ofEntries_eq_ok.mp h
  have hshuffled : shuffled.Pairwise fun a b => a.overlaps b = false := by
    refine (hperm.pairwise_iff ?_).mp hdisjoint
    intro a b hab
    rwa [Entry.overlaps_comm]
  have hkeysShuffled : DistinctKeys shuffled := (hperm.map Entry.signature).nodup_iff.mp hkeys
  refine ⟨ofEntries_eq_ok.mpr ⟨hkeysShuffled, hshuffled, rfl⟩, ?_⟩
  intro word pc
  apply Option.ext
  intro ⟨e, ops⟩
  rw [decode?_eq_some_iff hshuffled, decode?_eq_some_iff hdisjoint, hperm.mem_iff]

/-- Keys and words of a table have one answer each, which depends on the entries only and not on
their order. -/
structure Unambiguous (t : Table) (entries : List Entry) : Prop where
  covered_once : ∀ word, entries.countP (·.covers word) ≤ 1
  decode_iff : ∀ word pc e ops, t.decode? word pc = some (e, ops) ↔
    e ∈ entries ∧ e.covers word = true ∧ ops = e.format.decode word e.shape pc
  perm : ∀ shuffled, entries.Perm shuffled → ∃ t', ofEntries shuffled = .ok t' ∧
    ∀ word pc, t'.decode? word pc = t.decode? word pc
  lookup_iff : ∀ mnemonic shape e, t.lookup? mnemonic shape = some e ↔
    e ∈ entries ∧ e.mnemonic = mnemonic ∧ e.shape = shape
  lookup_none : ∀ mnemonic shape, t.lookup? mnemonic shape = none ↔
    ∀ e ∈ entries, ¬ (e.mnemonic = mnemonic ∧ e.shape = shape)
  lookup_group : ∃ groups, group (fun _ => []) entries = .ok groups ∧
    ∀ mnemonic shape, (groups mnemonic).find? (·.shape == shape) = t.lookup? mnemonic shape
  decodes : ∀ e ∈ entries, e.Confined → ∀ ops word, e.encode ops = .ok word → ∀ pc,
    t.decode? word pc = some (e, e.format.decode word e.shape pc)

theorem unambiguous_of_ofEntries {entries : List Entry} {t : Table}
    (h : ofEntries entries = .ok t) : t.Unambiguous entries := by
  obtain ⟨hkeys, hdisjoint, rfl⟩ := ofEntries_eq_ok.mp h
  refine {
    covered_once := countP_covers_le_one (disjointWords_of_overlaps hdisjoint)
    decode_iff := fun _ _ _ _ => decode?_eq_some_iff hdisjoint
    perm := fun shuffled hperm => ⟨_, ofEntries_perm h hperm⟩
    lookup_iff := fun _ _ _ => lookup?_eq_some_iff hkeys
    lookup_none := ?_
    lookup_group := ⟨groupsOf entries, ?_, find?_groupsOf entries⟩
    decodes := ?_ }
  · intro mnemonic shape
    simp only [Option.eq_none_iff_forall_ne_some, ne_eq, lookup?_eq_some_iff hkeys, not_and]
  · have hgroup := group_groupsOf [] entries
    rwa [List.reverse_nil, firstDuplicate?_nil_eq_none.mpr hkeys] at hgroup
  · intro e he hconfined ops word hencode pc
    obtain ⟨_, _, rfl⟩ := Format.encode_eq_ok.mp hencode
    have hcovers := Entry.covers_iff.mpr (Format.fill_and_mask hconfined
      (e.format.regsOf ops) (e.format.fieldValue ops))
    exact (decode?_eq_some_iff hdisjoint).mpr ⟨he, hcovers, rfl⟩

/-- A table is accepted exactly if it is unambiguous. A repeated key is reported before any overlap,
by the first entry that repeats one. -/
theorem ofEntries_unambiguous (entries : List Entry) :
    ((∀ e ∈ entries, e.Confined) →
      ((∃ t, ofEntries entries = .ok t) ↔ DistinctKeys entries ∧ DisjointWords entries)) ∧
    (¬ DistinctKeys entries → ∃ e, ofEntries entries = .error (.duplicateKey e)) ∧
    (∀ e, ofEntries entries = .error (.duplicateKey e) ↔ FirstRepeated entries e) ∧
    ∀ t, ofEntries entries = .ok t → t.Unambiguous entries := by
  refine ⟨?_, ?_, fun e => ofEntries_eq_duplicateKey, fun t => unambiguous_of_ofEntries⟩
  · intro hconfined
    rw [disjointWords_iff hconfined, firstOverlap?_eq_none]
    simp only [ofEntries_eq_ok, exists_and_left, exists_eq, and_true]
  · intro h
    obtain ⟨e, he⟩ := exists_firstRepeated h
    exact ⟨e, ofEntries_eq_duplicateKey.mpr he⟩

/-- Two formats that share a word, two that do not, a key that comes twice before an overlap, and
the whole instruction set. -/
theorem ofEntries_unambiguous_pairs :
    (∀ e ∈ [⟨"A", [.reg], 0x4015, .n⟩, ⟨"B", [.imm], 0x4500, .i⟩], Entry.Confined e) ∧
    ¬ (DistinctKeys [⟨"A", [.reg], 0x4015, .n⟩, ⟨"B", [.imm], 0x4500, .i⟩] ∧
      DisjointWords [⟨"A", [.reg], 0x4015, .n⟩, ⟨"B", [.imm], 0x4500, .i⟩]) ∧
    (∃ t, ofEntries [⟨"A", [.reg], 0x4015, .n⟩, ⟨"A", [.imm], 0x5500, .i⟩] = .ok t ∧
      t.Unambiguous [⟨"A", [.reg], 0x4015, .n⟩, ⟨"A", [.imm], 0x5500, .i⟩]) ∧
    FirstRepeated [⟨"A", [.reg], 0x4015, .n⟩, ⟨"B", [.imm], 0x4500, .i⟩, ⟨"A", [.reg], 0x7000, .ni⟩]
      ⟨"A", [.reg], 0x7000, .ni⟩ ∧
    ofEntries instructions = .ok sh2 ∧ sh2.Unambiguous instructions := by
  have hconfined : ∀ e ∈ [⟨"A", [.reg], 0x4015, .n⟩, ⟨"B", [.imm], 0x4500, .i⟩],
      Entry.Confined e := by
    decide
  refine ⟨hconfined, ?_, ⟨_, rfl, (ofEntries_unambiguous _).2.2.2 _ rfl⟩, ?_,
    ofEntries_instructions, (ofEntries_unambiguous _).2.2.2 _ ofEntries_instructions⟩
  · rw [← (ofEntries_unambiguous _).1 hconfined]
    intro ⟨t, ht⟩
    cases ht
  · exact ((ofEntries_unambiguous _).2.2.1 _).mp rfl

end Table

end SuperH
