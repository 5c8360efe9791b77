import Mathlib.Data.Nat.Digits.Defs
import Mathlib.Tactic.Ring
import SuperH.Text.Digits

/-!
# Numbers from their digits

A number is read back from the digits that write it, as many as a fixed width has or as few as it
takes. So two numbers with the same digits of a fixed width agree up to a power of the radix. An
address is written in a fixed width.
-/
namespace SuperH.Text

/-- Take one more digit of a number that is `n` so far. -/
def addDigit (radix n : Nat) (c : Char) : Option Nat :=
  (digit? radix c).map (n * radix + ·)

theorem natural?_of_ne_nil {digits : List Char} (h : digits ≠ []) (radix : Nat) :
    natural? radix digits = digits.foldlM (addDigit radix) 0 := by
  cases digits with
  | nil => exact absurd rfl h
  | cons c digits => rfl

theorem unsigned?_of_head {s : List Char} (h : s.head? ≠ some '+') (radix limit : Nat) :
    unsigned? radix limit s = (natural? radix s).filter (· < limit) := by
  unfold unsigned?
  split
  · exact absurd rfl h
  · rfl

theorem digit?_eq_filter {radix : Nat} (hradix : radix ≤ 16) (c : Char) :
    digit? radix c = (digit? 16 c).filter (· < radix) := by
  unfold digit?
  grind

private theorem digit?_of_lt {radix d : Nat} {c : Char} (h : digit? 16 c = some d) (hd : d < radix)
    (hradix : radix ≤ 16) : digit? radix c = some d := by
  rw [digit?_eq_filter hradix, h]
  simpa using hd

/-! ## A fixed number of digits -/

theorem digit?_digitChar {radix d : Nat} (hradix : radix ≤ 16) (hd : d < radix) :
    digit? radix (digitChar d) = some d := by
  have hvalue : ∀ d < 16, digit? 16 (digitChar d) = some d := by decide
  exact digit?_of_lt (hvalue d (by omega)) hd hradix

theorem fixedDigits_succ (radix width n : Nat) :
    fixedDigits radix (width + 1) n =
      digitChar (n / radix ^ width % radix) :: fixedDigits radix width n :=
  rfl

theorem length_fixedDigits (radix width n : Nat) : (fixedDigits radix width n).length = width := by
  induction width with
  | zero => rfl
  | succ width ih => rw [fixedDigits_succ, List.length_cons, ih]

/-- A property of all the digits that numbers are written in. -/
theorem of_mem_fixedDigits {p : Char → Bool} (h : "0123456789ABCDEF".toList.all p = true)
    {radix width n : Nat} (hpos : 0 < radix) (hradix : radix ≤ 16) {c : Char}
    (hc : c ∈ fixedDigits radix width n) : p c = true := by
  have hdigit : ∀ d < 16, digitChar d ∈ "0123456789ABCDEF".toList := by decide
  induction width with
  | zero => cases hc
  | succ width ih =>
    rcases List.mem_cons.mp hc with rfl | hc
    · have hlt := Nat.mod_lt (n / radix ^ width) hpos
      exact List.all_eq_true.mp h _ (hdigit _ (by omega))
    · exact ih hc

private theorem foldlM_fixedDigits {radix : Nat} (hpos : 0 < radix) (hradix : radix ≤ 16)
    (width n start : Nat) :
    (fixedDigits radix width n).foldlM (addDigit radix) start =
      some (start * radix ^ width + n % radix ^ width) := by
  induction width generalizing start with
  | zero =>
    rw [pow_zero, Nat.mod_one, Nat.mul_one]
    rfl
  | succ width ih =>
    rw [fixedDigits_succ, List.foldlM_cons, addDigit,
      digit?_digitChar hradix (Nat.mod_lt _ hpos)]
    simp only [Option.map_some, Option.bind_eq_bind, Option.bind_some, ih, Nat.mod_pow_succ]
    congr 1
    ring

theorem natural?_fixedDigits {radix width : Nat} (hpos : 0 < radix) (hradix : radix ≤ 16)
    (hwidth : 0 < width) (n : Nat) :
    natural? radix (fixedDigits radix width n) = some (n % radix ^ width) := by
  have hne : fixedDigits radix width n ≠ [] := by
    rw [← List.length_pos_iff, length_fixedDigits]
    exact hwidth
  rw [natural?_of_ne_nil hne, foldlM_fixedDigits hpos hradix, Nat.zero_mul, Nat.zero_add]

theorem eq_of_fixedDigits_append {radix width a b : Nat} (hpos : 0 < radix) (hradix : radix ≤ 16)
    (hwidth : 0 < width) (ha : a < radix ^ width) (hb : b < radix ^ width) {s t : List Char}
    (h : fixedDigits radix width a ++ s = fixedDigits radix width b ++ t) : a = b := by
  have hlength : (fixedDigits radix width a).length = (fixedDigits radix width b).length := by
    rw [length_fixedDigits, length_fixedDigits]
  have hdigits := (List.append_inj h hlength).1
  have hread := natural?_fixedDigits hpos hradix hwidth a
  rw [hdigits, natural?_fixedDigits hpos hradix hwidth b, Nat.mod_eq_of_lt ha,
    Nat.mod_eq_of_lt hb] at hread
  exact (Option.some.inj hread).symm

/-! ## Addresses -/

/-- The mark `0x` and eight upper-case digits to the base 16, the highest first, that stand for
`n`. -/
def WritesAddress (text : String) (n : Nat) : Prop :=
  ∃ ds : List Nat, ds.length = 8 ∧ (∀ d ∈ ds, d < 16) ∧ Nat.ofDigits 16 ds.reverse = n ∧
    text.toList = '0' :: 'x' :: ds.map fun d => "0123456789ABCDEF".toList.getD d ' '

private theorem digitChar_eq_getD {d : Nat} (h : d < 16) :
    digitChar d = "0123456789ABCDEF".toList.getD d ' ' := by
  have hall : ∀ d < 16, digitChar d = "0123456789ABCDEF".toList.getD d ' ' := by decide
  exact hall d h

private theorem exists_digits_fixedDigits (width n : Nat) :
    ∃ ds : List Nat, ds.length = width ∧ (∀ d ∈ ds, d < 16) ∧
      Nat.ofDigits 16 ds.reverse = n % 16 ^ width ∧
      fixedDigits 16 width n = ds.map fun d => "0123456789ABCDEF".toList.getD d ' ' := by
  induction width with
  | zero => exact ⟨[], rfl, by simp, by simp [Nat.mod_one], rfl⟩
  | succ width ih =>
    obtain ⟨ds, hlength, hds, hvalue, htext⟩ := ih
    have hlt : n / 16 ^ width % 16 < 16 := Nat.mod_lt _ (by decide)
    refine ⟨n / 16 ^ width % 16 :: ds, ?_, List.forall_mem_cons.mpr ⟨hlt, hds⟩, ?_, ?_⟩
    · rw [List.length_cons, hlength]
    · rw [List.reverse_cons, Nat.ofDigits_append, Nat.ofDigits_singleton, List.length_reverse,
        hvalue, hlength, Nat.mod_pow_succ]
    · rw [fixedDigits_succ, htext, digitChar_eq_getD hlt, List.map_cons]

theorem writesAddress_address {n : Nat} (h : n < 2 ^ 32) : WritesAddress (address n) n := by
  obtain ⟨ds, hlength, hds, hvalue, htext⟩ := exists_digits_fixedDigits 8 n
  refine ⟨ds, hlength, hds, ?_, ?_⟩
  · rw [hvalue]
    exact Nat.mod_eq_of_lt h
  · rw [← htext]
    simp [address, fixedHex]

/-! ## As few digits as possible -/

theorem digit?_natDigitChar {radix d : Nat} (hradix : radix ≤ 16) (hd : d < radix) :
    digit? radix (Nat.digitChar d) = some d := by
  have hvalue : ∀ d < 16, digit? 16 (Nat.digitChar d) = some d := by decide
  exact digit?_of_lt (hvalue d (by omega)) hd hradix

theorem of_mem_toDigits {p : Char → Bool} (h : "0123456789abcdef".toList.all p = true)
    {radix n : Nat} (hone : 1 < radix) (hradix : radix ≤ 16) {c : Char}
    (hc : c ∈ Nat.toDigits radix n) : p c = true := by
  have hdigit : ∀ d < 16, Nat.digitChar d ∈ "0123456789abcdef".toList := by decide
  induction n using Nat.strongRecOn with
  | ind n ih =>
    rw [Nat.toDigits_eq_if hone] at hc
    split at hc
    · rename_i hlt
      rw [List.mem_singleton.mp hc]
      exact List.all_eq_true.mp h _ (hdigit n (by omega))
    · rename_i hge
      rcases List.mem_append.mp hc with hc | hc
      · exact ih (n / radix) (Nat.div_lt_self (by omega) hone) hc
      · have hlt := Nat.mod_lt n (Nat.zero_lt_of_lt hone)
        rw [List.mem_singleton.mp hc]
        exact List.all_eq_true.mp h _ (hdigit _ (by omega))

theorem natural?_toDigits {radix : Nat} (hone : 1 < radix) (hradix : radix ≤ 16) (n : Nat) :
    natural? radix (Nat.toDigits radix n) = some n := by
  rw [natural?_of_ne_nil Nat.toDigits_ne_nil]
  induction n using Nat.strongRecOn with
  | ind n ih =>
    rw [Nat.toDigits_eq_if hone]
    split
    · rename_i hlt
      simp [addDigit, digit?_natDigitChar hradix hlt]
    · rename_i hge
      have hdigit := digit?_natDigitChar hradix (Nat.mod_lt n (by omega))
      rw [List.foldlM_append, ih (n / radix) (Nat.div_lt_self (by omega) hone)]
      simp [addDigit, hdigit, Nat.div_add_mod']

end SuperH.Text
