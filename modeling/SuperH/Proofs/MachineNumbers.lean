import SuperH.Proofs.Numerals

/-!
# Numbers in 64 bits

Numbers once more, read in signed 64-bit arithmetic: a product or a sum that overflows makes the
text no number, and the sign is applied by a negation that could wrap. Both readings agree on every
text, so the negation never wraps, and a text is refused for its size only if its number needs more
than 63 bits. Together with the grammar this says which texts are numbers and values, and which
numbers they are.
-/
namespace SuperH.Literal

/-! ## Digits -/

/-- A sum or a product in 64 bits, unless it overflows. -/
def checked (n : Int) : Option Int64 :=
  if Int64.minValue.toInt ≤ n ∧ n ≤ Int64.maxValue.toInt then some (Int64.ofInt n) else none

def addDigit64 (radix : Nat) (n : Int64) (c : Char) : Option Int64 := do
  let digit ← Text.digit? radix c
  let product ← checked (n.toInt * radix)
  checked (product.toInt + digit)

def natural64? (radix : Nat) : List Char → Option Int64
  | [] => none
  | digits => digits.foldlM (addDigit64 radix) 0

private theorem checked_of_lt {n : Nat} (h : n < 2 ^ 63) : checked n = some (Int64.ofNat n) := by
  rw [checked, if_pos, Int64.ofInt_eq_ofNat]
  rw [Int64.toInt_minValue, Int64.toInt_maxValue]
  omega

private theorem checked_of_le {n : Nat} (h : 2 ^ 63 ≤ n) : checked n = none := by
  rw [checked, if_neg]
  rw [Int64.toInt_maxValue]
  omega

private theorem addDigit64_ofNat {radix n : Nat} (hn : n < 2 ^ 63) (c : Char) :
    addDigit64 radix (Int64.ofNat n) c = (Text.addDigit radix n c).bind fun m => checked m := by
  have hproduct : (Int64.ofNat n).toInt * radix = ((n * radix : Nat) : Int) := by
    rw [Int64.toInt_ofNat_of_lt hn, Nat.cast_mul]
  rw [addDigit64, Text.addDigit, hproduct]
  cases Text.digit? radix c with
  | none => rfl
  | some d =>
    simp only [Option.bind_eq_bind, Option.bind_some, Option.map_some]
    rcases Nat.lt_or_ge (n * radix) (2 ^ 63) with hlt | hle
    · rw [checked_of_lt hlt, Option.bind_some, Int64.toInt_ofNat_of_lt hlt, Nat.cast_add]
    · rw [checked_of_le hle, checked_of_le (by omega), Option.bind_none]

private theorem le_of_foldlM_addDigit {radix : Nat} (hradix : 0 < radix) {s : List Char} {n m : Nat}
    (h : s.foldlM (Text.addDigit radix) n = some m) : n ≤ m := by
  induction s generalizing n with
  | nil => exact Nat.le_of_eq (Option.some.inj h)
  | cons c s ih =>
    rw [List.foldlM_cons, Option.bind_eq_bind, Option.bind_eq_some_iff] at h
    obtain ⟨next, hnext, h⟩ := h
    obtain ⟨d, _, rfl⟩ := Option.map_eq_some_iff.mp hnext
    calc n ≤ n * radix := Nat.le_mul_of_pos_right n hradix
      _ ≤ n * radix + d := Nat.le_add_right _ d
      _ ≤ m := ih h

/-- Digits are taken without an overflow just if the whole number fits, since a number that is too
large at some digit stays so. -/
theorem foldlM_addDigit64 {radix : Nat} (hradix : 0 < radix) (s : List Char) {n : Nat}
    (hn : n < 2 ^ 63) :
    s.foldlM (addDigit64 radix) (Int64.ofNat n) =
      (s.foldlM (Text.addDigit radix) n).bind fun m => checked m := by
  induction s generalizing n with
  | nil => exact (checked_of_lt hn).symm
  | cons c s ih =>
    simp only [List.foldlM_cons, Option.bind_eq_bind, addDigit64_ofNat hn]
    cases Text.addDigit radix n c with
    | none => rfl
    | some next =>
      simp only [Option.bind_some]
      rcases Nat.lt_or_ge next (2 ^ 63) with hlt | hle
      · rw [checked_of_lt hlt, Option.bind_some, ih hlt]
      · rw [checked_of_le hle, Option.bind_none]
        cases hrest : s.foldlM (Text.addDigit radix) next with
        | none => rfl
        | some m =>
          exact (checked_of_le (hle.trans (le_of_foldlM_addDigit hradix hrest))).symm

private theorem bind_checked (x : Option Nat) :
    (x.bind fun n => checked n) = (x.filter (· < Nat.pow 2 63)).map Int64.ofNat := by
  cases x with
  | none => rfl
  | some n =>
    rcases Nat.lt_or_ge n (2 ^ 63) with hlt | hle
    · have hfits : (some n).filter (· < Nat.pow 2 63) = some n :=
        Option.filter_some_pos (by simpa using hlt)
      rw [Option.bind_some, checked_of_lt hlt, hfits, Option.map_some]
    · have hwide : (some n).filter (· < Nat.pow 2 63) = none :=
        Option.filter_some_neg (by simpa using hle)
      rw [Option.bind_some, checked_of_le hle, hwide, Option.map_none]

theorem natural64?_eq {radix : Nat} (hradix : 0 < radix) (digits : List Char) :
    natural64? radix digits =
      ((Text.natural? radix digits).filter (· < Nat.pow 2 63)).map Int64.ofNat := by
  rw [← bind_checked]
  cases digits with
  | nil => rfl
  | cons c digits => exact foldlM_addDigit64 hradix (c :: digits) (n := 0) (by decide)

/-! ## Numbers and values -/

def number64? (s : List Char) : Option Int64 :=
  let (negative, unsigned) := takeSign s
  let (radix, digits) := takeRadix (unsigned.map Char.toLower)
  (natural64? radix digits).map fun n => if negative then -n else n

def value64? (s : List Char) : Option Int64 :=
  match binaryDigits? s with
  | some digits => natural64? 2 digits
  | none => number64? s

private theorem takeRadix_pos (s : List Char) : 0 < (takeRadix s).1 := by
  unfold takeRadix
  split <;> simp

/-- A number of 63 bits can be negated in 64. -/
theorem toInt_signed {n : Nat} (hn : n < 2 ^ 63) (negative : Bool) :
    (if negative then -Int64.ofNat n else Int64.ofNat n).toInt =
      if negative then -(n : Int) else n := by
  cases negative with
  | false => exact Int64.toInt_ofNat_of_lt hn
  | true =>
    rw [if_pos rfl, if_pos rfl, ← Int64.ofInt_eq_ofNat, ← Int64.ofInt_neg]
    exact Int64.toInt_ofInt_of_le (by omega) (by omega)

theorem toInt_number64? (s : List Char) : (number64? s).map Int64.toInt = number? s := by
  have hread : number64? s =
      (natural64? (takeRadix (Text.fold (takeSign s).2)).1
        (takeRadix (Text.fold (takeSign s).2)).2).map
          fun n => if (takeSign s).1 then -n else n := rfl
  rw [hread, number?_eq, natural64?_eq (takeRadix_pos _), Option.map_map, Option.map_map]
  apply Option.map_congr
  intro n hn
  exact toInt_signed (of_decide_eq_true (Option.filter_eq_some_iff.mp hn).2) (takeSign s).1

theorem number_eq_ok_iff {s : String} {n : Int} :
    number s = .ok n ↔ number? (Text.trim s.toList) = some n := by
  rw [number]
  cases number? (Text.trim s.toList) <;> simp

theorem toInt_value64? {s : String} {n : Int} :
    (value64? (Text.trim s.toList)).map Int64.toInt = some n ↔ value s = .ok n := by
  have htrim := (Text.trimmed_trim s.toList).trim_eq_self
  unfold value value64?
  dsimp only
  cases binaryDigits? (Text.trim s.toList) with
  | some digits =>
    dsimp only
    rw [natural64?_eq (by decide), Option.map_map]
    cases hread : (Text.natural? 2 digits).filter (· < Nat.pow 2 63) with
    | none => simp
    | some m =>
      have hm : m < 2 ^ 63 := of_decide_eq_true (Option.filter_eq_some_iff.mp hread).2
      rw [Option.map_some, Function.comp_apply, Int64.toInt_ofNat_of_lt hm]
      simp
  | none =>
    dsimp only
    rw [toInt_number64?, number_eq_ok_iff, String.toList_ofList, htrim]

/-- A value is a number or has the short binary form, whose mark may have either case. -/
theorem value_capitals_iff {s : List Char} {n : Int} :
    Value (Text.capitals s) n ↔
      (∃ mark digits m, s = mark :: digits ∧ (mark = 'b' ∨ mark = 'B') ∧
        Text.Denotes 2 digits m ∧ m < 2 ^ 63 ∧ n = m) ∨ Numeral (Text.capitals s) n := by
  constructor
  · intro h
    generalize hs : Text.capitals s = capitals at h ⊢
    cases h with
    | number h => exact .inr h
    | binary h hlt =>
      obtain ⟨mark, digits, rfl, hmark, rfl⟩ := List.map_eq_cons_iff.mp hs
      exact .inl ⟨mark, digits, _, rfl, toUpper_eq_b.mp hmark, Text.denotes_two_capitals.mp h, hlt,
        rfl⟩
  · rintro (⟨mark, digits, m, rfl, hmark, hdigits, hlt, rfl⟩ | h)
    · have hcapitals : Text.capitals (mark :: digits) = 'B' :: Text.capitals digits :=
        congrArg (· :: Text.capitals digits) (toUpper_eq_b.mpr hmark)
      rw [hcapitals]
      exact .binary (Text.denotes_two_capitals.mpr hdigits) hlt
    · exact .number h

/-- A text is read as a number just if it has the form of one, with letters in either case, and is
reported as it stands otherwise. Values have the short binary form besides, and every number is a
value. Reading in 64-bit arithmetic gives the same numbers, so no product, sum or negation goes
wrong by its size. -/
theorem number_value_exact (s : String) :
    Text.Trimmed (Text.trim s.toList) ∧ Text.Pads (Text.trim s.toList) s.toList ∧
    (∀ n, number s = .ok n ↔ Numeral (Text.capitals (Text.trim s.toList)) n) ∧
    (∀ e, number s = .error e ↔
      (∀ n, ¬ Numeral (Text.capitals (Text.trim s.toList)) n) ∧ e = .invalidNumber s) ∧
    (∀ n, value s = .ok n ↔
      (∃ mark digits m, Text.trim s.toList = mark :: digits ∧ (mark = 'b' ∨ mark = 'B') ∧
        Text.Denotes 2 digits m ∧ m < 2 ^ 63 ∧ n = m) ∨
      number (String.ofList (Text.trim s.toList)) = .ok n) ∧
    (∀ n, number s = .ok n → value s = .ok n) ∧
    (∀ n, number s = .ok n ↔ (number64? (Text.trim s.toList)).map Int64.toInt = some n) ∧
    (∀ n, value s = .ok n ↔ (value64? (Text.trim s.toList)).map Int64.toInt = some n) := by
  have hnumber (n : Int) : number s = .ok n ↔ Numeral (Text.capitals (Text.trim s.toList)) n :=
    number_eq_ok_iff.trans number?_eq_some_iff
  refine ⟨Text.trimmed_trim _, Text.pads_trim _, hnumber, ?_, ?_, ?_, ?_,
    fun n => toInt_value64?.symm⟩
  · intro e
    simp only [← hnumber]
    rw [number]
    cases number? (Text.trim s.toList) <;> simp [eq_comm]
  · intro n
    have htrim := (Text.trimmed_trim s.toList).trim_eq_self
    rw [value_eq_ok_iff, number_eq_ok_iff, String.toList_ofList, htrim, number?_eq_some_iff]
    exact value_capitals_iff
  · intro n h
    exact value_eq_ok_iff.mpr (.number ((hnumber n).mp h))
  · intro n
    rw [toInt_number64?, number_eq_ok_iff]

/-- Blanks around a number, and between its sign and its digits. -/
example : number "\t -0x1f\n" = .ok (-31) ∧ value " B101 " = .ok 5 ∧
    number " - 7" = .error (.invalidNumber " - 7") := by
  decide

end SuperH.Literal
