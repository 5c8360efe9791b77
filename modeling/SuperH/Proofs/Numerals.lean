import Mathlib.Data.Nat.Digits.Defs
import SuperH.Proofs.CaseFolding

/-!
# The grammar of numbers

A number is an optional sign and digits, decimal ones or, after a mark, those of another radix. A
text in upper case is read as a number just if it has this form and its digits stand for less than
`2 ^ 63`; letters may have either case in the text that is read.
-/
namespace SuperH

namespace Text

theorem toUpper_of_not_ascii {c : Char} (hc : ¬ c.toNat < 128) : c.toUpper = c := by
  have hlower : ¬ (c.val ≥ 'a'.val ∧ c.val ≤ 'z'.val) := fun h => hc (ascii_of_le h.2 (by decide))
  exact dif_neg hlower

private theorem toUpper_toLower (c : Char) : c.toLower.toUpper = c.toUpper :=
  apply_toLower (by decide) c

private theorem toLower_toUpper (c : Char) : c.toUpper.toLower = c.toLower := by
  by_cases hc : c.toNat < 128
  · exact of_ascii (P := fun c => c.toUpper.toLower = c.toLower) (by decide) hc
  · rw [toUpper_of_not_ascii hc]

private theorem toUpper_eq_mark {mark : Char} (hmark : mark.isAlpha = false) {c : Char} :
    c.toUpper = mark ↔ c = mark := by
  rw [← toLower_eq_mark hmark, toLower_toUpper, toLower_eq_mark hmark]

/-- Text with its ASCII letters in upper case. -/
def capitals (s : List Char) : List Char :=
  s.map Char.toUpper

theorem capitals_eq_self {s : List Char} : capitals s = s ↔ ∀ c ∈ s, c.toUpper = c := by
  induction s with
  | nil => simp [capitals]
  | cons c s ih =>
    rw [List.forall_mem_cons, ← ih]
    exact List.cons_eq_cons

theorem capitals_fold (s : List Char) : capitals (fold s) = capitals s := by
  simp only [capitals, fold, List.map_map, Function.comp_def, toUpper_toLower]

private theorem fold_capitals (s : List Char) : fold (capitals s) = fold s := by
  simp only [capitals, fold, List.map_map, Function.comp_def, toLower_toUpper]

/-! ## Digits -/

/-- One or more digits, the highest first, that stand for `n`. -/
def Denotes (radix : Nat) (s : List Char) (n : Nat) : Prop :=
  ∃ ds : List Nat, ds ≠ [] ∧ (∀ d ∈ ds, d < radix) ∧ s = ds.map digitChar ∧
    n = Nat.ofDigits radix ds.reverse

private theorem digit?_of_not_ascii {c : Char} (hc : ¬ c.toNat < 128) (radix : Nat) :
    digit? radix c = none := by
  have hover (last : Char) (hlast : last.toNat < 128) : ¬ c ≤ last := fun hle =>
    hc (ascii_of_le hle hlast)
  simp [digit?, hover '9' (by decide), hover 'f' (by decide), hover 'F' (by decide)]

private theorem digit?_toUpper {radix : Nat} (hradix : radix ≤ 16) (c : Char) :
    digit? radix c.toUpper = digit? radix c := by
  rw [← digit?_toLower hradix, toLower_toUpper, digit?_toLower hradix]

theorem digit?_eq_some_iff {radix d : Nat} (hradix : radix ≤ 16) {c : Char} :
    digit? radix c = some d ↔ d < radix ∧ c.toUpper = digitChar d := by
  constructor
  · intro h
    have hall : (digit? 16 c).all (fun d => c.toUpper == digitChar d) = true := by
      by_cases hc : c.toNat < 128
      · exact of_ascii (P := fun c => (digit? 16 c).all (fun d => c.toUpper == digitChar d) = true)
          (by decide) hc
      · rw [digit?_of_not_ascii hc]
        rfl
    rw [digit?_eq_filter hradix, Option.filter_eq_some_iff, decide_eq_true_eq] at h
    rw [h.1] at hall
    exact ⟨h.2, eq_of_beq hall⟩
  · rintro ⟨hd, hc⟩
    rw [← digit?_toUpper hradix, hc, digit?_digitChar hradix hd]

theorem foldlM_addDigit_eq_some {radix : Nat} (hradix : radix ≤ 16) {s : List Char}
    {start n : Nat} :
    s.foldlM (addDigit radix) start = some n ↔
      ∃ ds : List Nat, (∀ d ∈ ds, d < radix) ∧ capitals s = ds.map digitChar ∧
        n = start * radix ^ ds.length + Nat.ofDigits radix ds.reverse := by
  induction s generalizing start with
  | nil =>
    constructor
    · intro h
      cases h
      exact ⟨[], by simp, rfl, by simp⟩
    · rintro ⟨ds, _, hds, rfl⟩
      rw [List.map_eq_nil_iff.mp hds.symm]
      simp
  | cons c s ih =>
    have hvalue (d : Nat) (ds : List Nat) :
        (start * radix + d) * radix ^ ds.length + Nat.ofDigits radix ds.reverse =
          start * radix ^ (d :: ds).length + Nat.ofDigits radix (d :: ds).reverse := by
      rw [List.reverse_cons, Nat.ofDigits_append, Nat.ofDigits_singleton, List.length_reverse,
        List.length_cons]
      ring
    rw [List.foldlM_cons, Option.bind_eq_bind, Option.bind_eq_some_iff]
    constructor
    · rintro ⟨next, hnext, h⟩
      obtain ⟨d, hd, rfl⟩ := Option.map_eq_some_iff.mp hnext
      obtain ⟨hlt, hc⟩ := (digit?_eq_some_iff hradix).mp hd
      obtain ⟨ds, hds, hs, rfl⟩ := ih.mp h
      exact ⟨d :: ds, List.forall_mem_cons.mpr ⟨hlt, hds⟩, congrArg₂ List.cons hc hs, hvalue d ds⟩
    · rintro ⟨ds, hds, hs, rfl⟩
      cases ds with
      | nil => cases hs
      | cons d ds =>
        obtain ⟨hc, hs⟩ := List.cons.inj hs
        obtain ⟨hlt, hds⟩ := List.forall_mem_cons.mp hds
        refine ⟨start * radix + d, ?_, ih.mpr ⟨ds, hds, hs, (hvalue d ds).symm⟩⟩
        rw [addDigit, (digit?_eq_some_iff hradix).mpr ⟨hlt, hc⟩]
        rfl

theorem natural?_eq_some_iff {radix : Nat} (hradix : radix ≤ 16) {s : List Char} {n : Nat} :
    natural? radix s = some n ↔ Denotes radix (capitals s) n := by
  by_cases hs : s = []
  · subst hs
    have hnone : natural? radix [] = none := rfl
    rw [hnone]
    constructor
    · intro h
      cases h
    · rintro ⟨ds, hne, _, hds, _⟩
      exact absurd (List.map_eq_nil_iff.mp hds.symm) hne
  · rw [natural?_of_ne_nil hs, foldlM_addDigit_eq_some hradix]
    simp only [Nat.zero_mul, Nat.zero_add, Denotes]
    refine exists_congr fun ds => ⟨fun ⟨hds, hs', hn⟩ => ⟨?_, hds, hs', hn⟩, fun h => h.2⟩
    rintro rfl
    exact hs (List.map_eq_nil_iff.mp hs')

private theorem digitChar_two {d : Nat} (h : d < 2) : digitChar d = '0' ∨ digitChar d = '1' := by
  have hdigit : ∀ d < 2, digitChar d = '0' ∨ digitChar d = '1' := by decide
  exact hdigit d h

theorem exists_denotes_two {s : List Char} :
    (∃ n, Denotes 2 s n) ↔ s ≠ [] ∧ ∀ c ∈ s, c = '0' ∨ c = '1' := by
  constructor
  · rintro ⟨_, ds, hne, hds, rfl, _⟩
    refine ⟨by simpa using hne, ?_⟩
    intro c hc
    obtain ⟨d, hd, rfl⟩ := List.mem_map.mp hc
    exact digitChar_two (hds d hd)
  · rintro ⟨hne, hs⟩
    refine ⟨_, s.map (fun c => if c = '0' then 0 else 1), by simpa using hne, ?_, ?_, rfl⟩
    · intro d hd
      obtain ⟨c, _, rfl⟩ := List.mem_map.mp hd
      split <;> decide
    · rw [List.map_map]
      nth_rewrite 1 [← List.map_id s]
      apply List.map_congr_left
      intro c hc
      rcases hs c hc with rfl | rfl <;> decide

theorem denotes_two_capitals {s : List Char} {n : Nat} :
    Denotes 2 (capitals s) n ↔ Denotes 2 s n := by
  have hsame (hs : ∀ c ∈ s, c.toUpper = '0' ∨ c.toUpper = '1') : capitals s = s := by
    rw [capitals_eq_self]
    intro c hc
    rcases hs c hc with h | h
    · exact h.trans ((toUpper_eq_mark (by decide)).mp h).symm
    · exact h.trans ((toUpper_eq_mark (by decide)).mp h).symm
  constructor
  · intro h
    have hs := (exists_denotes_two.mp ⟨n, h⟩).2
    rwa [hsame fun c hc => hs c.toUpper (List.mem_map_of_mem hc)] at h
  · intro h
    have hs := (exists_denotes_two.mp ⟨n, h⟩).2
    rwa [hsame fun c hc => by rcases hs c hc with rfl | rfl <;> decide]

def dropPlus (s : List Char) : List Char :=
  if s.head? = some '+' then s.tail else s

theorem unsigned?_eq_some_iff {radix : Nat} (hradix : radix ≤ 16) {limit : Nat} {s : List Char}
    {n : Nat} :
    unsigned? radix limit s = some n ↔ Denotes radix (capitals (dropPlus s)) n ∧ n < limit := by
  have heq : unsigned? radix limit s = (natural? radix (dropPlus s)).filter (· < limit) := by
    by_cases hs : s.head? = some '+'
    · obtain ⟨_, rfl⟩ := List.head?_eq_some_iff.mp hs
      rfl
    · rw [unsigned?_of_head hs, dropPlus, if_neg hs]
  rw [heq, Option.filter_eq_some_iff, natural?_eq_some_iff hradix, decide_eq_true_eq]

end Text

namespace Literal

/-! ## Marks and signs -/

def radixMarks : List (Char × Nat) :=
  [('X', 16), ('B', 2), ('O', 8)]

/-- Decimal digits, or a zero, a mark and digits of its radix. -/
inductive Magnitude : List Char → Nat → Prop
  | decimal {s n} : Text.Denotes 10 s n → Magnitude s n
  | marked {mark radix s n} : (mark, radix) ∈ radixMarks → Text.Denotes radix s n →
      Magnitude ('0' :: mark :: s) n

/-- A number in upper case, of magnitude below `2 ^ 63`. -/
inductive Numeral : List Char → Int → Prop
  | plain {s n} : Magnitude s n → n < 2 ^ 63 → Numeral s n
  | plus {s n} : Magnitude s n → n < 2 ^ 63 → Numeral ('+' :: s) n
  | minus {s n} : Magnitude s n → n < 2 ^ 63 → Numeral ('-' :: s) (-n)

private theorem mem_radixMarks {mark : Char} {radix : Nat} (h : (mark, radix) ∈ radixMarks) :
    mark = 'X' ∧ radix = 16 ∨ mark = 'B' ∧ radix = 2 ∨ mark = 'O' ∧ radix = 8 := by
  simpa [radixMarks] using h

/-- Decimal digits hold no mark, so a mark tells the radix. -/
theorem magnitude_marked {mark : Char} {radix : Nat} (hmark : (mark, radix) ∈ radixMarks)
    {s : List Char} {n : Nat} : Magnitude ('0' :: mark :: s) n ↔ Text.Denotes radix s n := by
  refine ⟨fun h => ?_, .marked hmark⟩
  cases h with
  | decimal h =>
    obtain ⟨ds, _, hds, hs, _⟩ := h
    obtain ⟨d, hd, rfl⟩ := List.mem_map.mp (hs ▸ List.mem_cons_of_mem '0' List.mem_cons_self)
    have hlt := hds d hd
    have hdigit : ∀ d < 10, Text.digitChar d ≠ 'X' ∧ Text.digitChar d ≠ 'B' ∧
        Text.digitChar d ≠ 'O' := by
      decide
    rcases mem_radixMarks hmark with ⟨h, _⟩ | ⟨h, _⟩ | ⟨h, _⟩ <;> simp [hdigit d hlt] at h
  | marked hother h =>
    rcases mem_radixMarks hmark with ⟨rfl, rfl⟩ | ⟨rfl, rfl⟩ | ⟨rfl, rfl⟩ <;>
      simp [radixMarks] at hother <;> exact hother ▸ h

private theorem takeRadix_le (s : List Char) : (takeRadix s).1 ≤ 16 := by
  unfold takeRadix
  split <;> simp

private theorem eq_mark_of_capitals {s rest : List Char} {mark : Char} (hlower : Text.fold s = s)
    (h : Text.capitals s = '0' :: mark :: rest) : ∃ digits, s = '0' :: mark.toLower :: digits := by
  have hfold := Text.fold_capitals s
  rw [h, hlower] at hfold
  exact ⟨Text.fold rest, hfold.symm⟩

theorem natural?_takeRadix_iff {s : List Char} (hlower : Text.fold s = s) {n : Nat} :
    Text.natural? (takeRadix s).1 (takeRadix s).2 = some n ↔ Magnitude (Text.capitals s) n := by
  have hmarks : ('X', 16) ∈ radixMarks ∧ ('B', 2) ∈ radixMarks ∧ ('O', 8) ∈ radixMarks := by
    decide
  rw [Text.natural?_eq_some_iff (takeRadix_le s)]
  unfold takeRadix
  split
  · exact (magnitude_marked hmarks.1).symm
  · exact (magnitude_marked hmarks.2.1).symm
  · exact (magnitude_marked hmarks.2.2).symm
  · rename_i hhex hbinary hoctal
    refine ⟨.decimal, fun h => ?_⟩
    generalize hs : Text.capitals s = capitals at h ⊢
    cases h with
    | decimal h => exact h
    | marked hmark h =>
      obtain ⟨digits, rfl⟩ := eq_mark_of_capitals hlower hs
      rcases mem_radixMarks hmark with ⟨rfl, _⟩ | ⟨rfl, _⟩ | ⟨rfl, _⟩
      · exact absurd rfl (hhex digits)
      · exact absurd rfl (hbinary digits)
      · exact absurd rfl (hoctal digits)

theorem Magnitude.head {c : Char} {s : List Char} {n : Nat} (h : Magnitude (c :: s) n) :
    c ≠ '+' ∧ c ≠ '-' := by
  have hdigit : ∀ d < 10, Text.digitChar d ≠ '+' ∧ Text.digitChar d ≠ '-' := by decide
  cases h with
  | decimal h =>
    obtain ⟨ds, hne, hds, hs, _⟩ := h
    cases ds with
    | nil => exact absurd rfl hne
    | cons d ds =>
      obtain ⟨rfl, _⟩ := List.cons.inj hs
      exact hdigit d (hds d List.mem_cons_self)
  | marked _ _ => decide

private theorem takeSign_capitals (s : List Char) :
    takeSign (Text.capitals s) = ((takeSign s).1, Text.capitals (takeSign s).2) := by
  cases s with
  | nil => rfl
  | cons c s =>
    have hminus : c.toUpper = '-' ↔ c = '-' := Text.toUpper_eq_mark (by decide)
    have hplus : c.toUpper = '+' ↔ c = '+' := Text.toUpper_eq_mark (by decide)
    have hcons : Text.capitals (c :: s) = c.toUpper :: Text.capitals s := rfl
    simp only [hcons, takeSign_cons, hminus, hplus]
    split
    · rfl
    · split <;> rfl

theorem numeral_iff {s : List Char} {v : Int} :
    Numeral s v ↔ ∃ n : Nat, Magnitude (takeSign s).2 n ∧ n < 2 ^ 63 ∧
      (if (takeSign s).1 then -(n : Int) else n) = v := by
  constructor
  · intro h
    cases h with
    | plain hn hlt =>
      have hsign : takeSign s = (false, s) := by
        cases s with
        | nil => rfl
        | cons c s => rw [takeSign_cons, if_neg hn.head.2, if_neg hn.head.1]
      rw [hsign]
      exact ⟨_, hn, hlt, rfl⟩
    | plus hn hlt => exact ⟨_, hn, hlt, rfl⟩
    | minus hn hlt => exact ⟨_, hn, hlt, rfl⟩
  · rintro ⟨n, hn, hlt, rfl⟩
    unfold takeSign at hn ⊢
    split at hn
    · exact .minus hn hlt
    · exact .plus hn hlt
    · exact .plain hn hlt

/-! ## Characters -/

def numeralChars : List Char :=
  "+-0123456789ABCDEFXO".toList

private theorem mem_of_denotes {radix : Nat} (hradix : radix ≤ 16) {s : List Char} {n : Nat}
    (h : Text.Denotes radix s n) {c : Char} (hc : c ∈ s) : c ∈ numeralChars := by
  have hdigit : ∀ d < 16, Text.digitChar d ∈ numeralChars := by decide
  obtain ⟨ds, _, hds, rfl, _⟩ := h
  obtain ⟨d, hd, rfl⟩ := List.mem_map.mp hc
  have hlt := hds d hd
  exact hdigit d (by omega)

theorem Magnitude.mem {s : List Char} {n : Nat} (h : Magnitude s n) {c : Char} (hc : c ∈ s) :
    c ∈ numeralChars := by
  cases h with
  | decimal h => exact mem_of_denotes (by decide) h hc
  | marked hmark h =>
    simp only [List.mem_cons] at hc
    rcases mem_radixMarks hmark with ⟨rfl, rfl⟩ | ⟨rfl, rfl⟩ | ⟨rfl, rfl⟩
    all_goals
      rcases hc with rfl | rfl | hc
      · decide
      · decide
      · exact mem_of_denotes (by decide) h hc

theorem Numeral.mem {s : List Char} {v : Int} (h : Numeral s v) {c : Char} (hc : c ∈ s) :
    c ∈ numeralChars := by
  cases h with
  | plain h _ => exact h.mem hc
  | plus h _ =>
    rcases List.mem_cons.mp hc with rfl | hc
    · decide
    · exact h.mem hc
  | minus h _ =>
    rcases List.mem_cons.mp hc with rfl | hc
    · decide
    · exact h.mem hc

theorem Numeral.capitals_eq {s : List Char} {v : Int} (h : Numeral s v) : Text.capitals s = s := by
  have hall : numeralChars.all (fun c => c.toUpper == c) = true := by decide
  have hupper : ∀ c ∈ s, c.toUpper = id c := fun c hc =>
    eq_of_beq (List.all_eq_true.mp hall c (h.mem hc))
  rw [Text.capitals, List.map_congr_left hupper, List.map_id]

/-! ## Reading -/

theorem number?_eq (s : List Char) : number? s =
    ((Text.natural? (takeRadix (Text.fold (takeSign s).2)).1
      (takeRadix (Text.fold (takeSign s).2)).2).filter (· < Nat.pow 2 63)).map
        fun n : Nat => if (takeSign s).1 then -(n : Int) else n := by
  have hcast (x : Option Nat) (f : Int → Int) :
      (do return ((← x) : Int) : Option Int).map f = x.map fun n : Nat => f n := by
    cases x <;> rfl
  exact hcast _ _

/-- Reading a number accepts the grammar of numbers, with letters in either case. -/
theorem number?_eq_some_iff {s : List Char} {v : Int} :
    number? s = some v ↔ Numeral (Text.capitals s) v := by
  have hmagnitude (n : Nat) := natural?_takeRadix_iff (n := n) (Text.fold_fold (takeSign s).2)
  simp only [Text.capitals_fold] at hmagnitude
  rw [numeral_iff, takeSign_capitals, number?_eq]
  simp only [Option.map_eq_some_iff, Option.filter_eq_some_iff, hmagnitude, decide_eq_true_eq,
    and_assoc, Nat.pow_eq]

/-! ## Values -/

/-- A value of a data directive in upper case: a number, or `B` and then binary digits. -/
inductive Value : List Char → Int → Prop
  | number {s v} : Numeral s v → Value s v
  | binary {s n} : Text.Denotes 2 s n → n < 2 ^ 63 → Value ('B' :: s) n

theorem toUpper_eq_b {c : Char} : c.toUpper = 'B' ↔ c = 'b' ∨ c = 'B' := by
  by_cases hc : c.toNat < 128
  · exact Text.of_ascii (P := fun c => c.toUpper = 'B' ↔ c = 'b' ∨ c = 'B') (by decide) hc
  · rw [Text.toUpper_of_not_ascii hc]
    refine ⟨.inr, ?_⟩
    rintro (rfl | rfl)
    · exact absurd (by decide) hc
    · rfl

theorem binaryDigits?_eq_some_iff {s digits : List Char} :
    binaryDigits? s = some digits ↔
      ∃ c, s = c :: digits ∧ c.toUpper = 'B' ∧ ∃ n, Text.Denotes 2 digits n := by
  cases s with
  | nil => simp [binaryDigits?]
  | cons c s =>
    simp only [binaryDigits?, Option.ite_none_right_eq_some, Option.some.injEq, List.cons.injEq,
      Text.exists_denotes_two, toUpper_eq_b, List.all_eq_true, decide_eq_true_eq]
    constructor
    · rintro ⟨⟨hc, hdigits⟩, rfl⟩
      exact ⟨c, ⟨rfl, rfl⟩, hc, hdigits⟩
    · rintro ⟨_, ⟨rfl, rfl⟩, hc, hdigits⟩
      exact ⟨⟨hc, hdigits⟩, rfl⟩

/-- The short binary form is no number, as no number starts with its mark. -/
theorem not_numeral_binary {s : List Char} {v : Int} : ¬ Numeral ('B' :: s) v := by
  intro h
  have hdigit : ∀ d < 10, Text.digitChar d ≠ 'B' := by decide
  cases h with
  | plain h _ =>
    cases h with
    | decimal h =>
      obtain ⟨ds, hne, hds, hs, _⟩ := h
      obtain ⟨d, ds, rfl⟩ := List.exists_cons_of_ne_nil hne
      exact hdigit d (hds d List.mem_cons_self) (List.cons.inj hs).1.symm

/-- Reading a value accepts the grammar of values, with letters in either case. -/
theorem value_eq_ok_iff {s : String} {v : Int} :
    value s = .ok v ↔ Value (Text.capitals (Text.trim s.toList)) v := by
  have htrim := (Text.trimmed_trim s.toList).trim_eq_self
  unfold value
  dsimp only
  generalize Text.trim s.toList = t at htrim ⊢
  cases hbinary : binaryDigits? t with
  | some digits =>
    obtain ⟨c, rfl, hc, _⟩ := binaryDigits?_eq_some_iff.mp hbinary
    have hcapitals : Text.capitals (c :: digits) = 'B' :: Text.capitals digits :=
      congrArg (· :: Text.capitals digits) hc
    have hvalue (n : Nat) : (Text.natural? 2 digits).filter (· < Nat.pow 2 63) = some n ↔
        Text.Denotes 2 (Text.capitals digits) n ∧ n < 2 ^ 63 := by
      rw [Option.filter_eq_some_iff, Text.natural?_eq_some_iff (by decide), decide_eq_true_eq,
        Nat.pow_eq]
    rw [hcapitals]
    dsimp only
    constructor
    · intro h
      split at h
      · rename_i n hn
        cases h
        obtain ⟨hdigits, hlt⟩ := (hvalue n).mp hn
        exact .binary hdigits hlt
      · cases h
    · intro h
      cases h with
      | number h => exact absurd h not_numeral_binary
      | binary h hlt => rw [(hvalue _).mpr ⟨h, hlt⟩]
  | none =>
    have hnumber : number (String.ofList t) = .ok v ↔ Numeral (Text.capitals t) v := by
      rw [number, String.toList_ofList, htrim, ← number?_eq_some_iff]
      cases number? t <;> simp
    dsimp only
    rw [hnumber]
    refine ⟨.number, fun h => ?_⟩
    generalize hu : Text.capitals t = u at h ⊢
    cases h with
    | number h => exact h
    | binary h _ =>
      obtain ⟨c, digits, rfl, hc, rfl⟩ := List.map_eq_cons_iff.mp hu
      have hsome := binaryDigits?_eq_some_iff.mpr
        ⟨c, rfl, hc, _, Text.denotes_two_capitals.mp h⟩
      rw [hbinary] at hsome
      cases hsome

end Literal

end SuperH
