import Mathlib.Tactic.IntervalCases
import SuperH.Proofs.Digits
import SuperH.Proofs.Lexing
import SuperH.Operand.Reading

/-!
# Reading printed operands

A printed operand reads as itself, and its text can stand in a list of operands. Numbers are
printed in decimal digits after an optional minus sign; a name that starts with a letter of no
register reads as a label.
-/
namespace SuperH

/-! ## Numbers -/

theorem of_isDigit {p : Char → Bool} (h : "0123456789".toList.all p = true) {c : Char}
    (hc : c.isDigit = true) : p c = true := by
  obtain ⟨hlow, hhigh⟩ := Char.isDigit_iff_toNat.mp hc
  apply List.all_eq_true.mp h
  rw [← Char.ofNat_toNat c]
  generalize c.toNat = n at hlow hhigh
  have hlow : 48 ≤ n := hlow
  have hhigh : n ≤ 57 := hhigh
  interval_cases n <;> decide

private theorem mem_toString_int {v : Int} {c : Char} (h : c ∈ (toString v).toList) :
    c.isDigit = true ∨ c = '-' := by
  rw [Int.toString_eq_repr, Int.repr_eq_if] at h
  split at h
  · rw [Nat.toList_repr] at h
    exact .inl (Nat.isDigit_of_mem_toDigits (by omega) (by omega) h)
  · rw [String.toList_append, Nat.toList_repr] at h
    rcases List.mem_append.mp h with h | h
    · exact .inr (List.mem_singleton.mp h)
    · exact .inl (Nat.isDigit_of_mem_toDigits (by omega) (by omega) h)

namespace Literal

private theorem takeRadix_of_digits {digits : List Char} (h : ∀ c ∈ digits, c.isDigit = true) :
    takeRadix digits = (10, digits) := by
  unfold takeRadix
  split
  · exact absurd (h 'x' (by simp)) (by decide)
  · exact absurd (h 'b' (by simp)) (by decide)
  · exact absurd (h 'o' (by simp)) (by decide)
  · rfl

private theorem map_toLower_of_digits {digits : List Char} (h : ∀ c ∈ digits, c.isDigit = true) :
    digits.map Char.toLower = digits := by
  have hlower : ∀ c ∈ digits, c.toLower = id c := fun c hc =>
    eq_of_beq (of_isDigit (p := fun c => c.toLower == c) (by decide) (h c hc))
  rw [List.map_congr_left hlower, List.map_id]

private theorem takeSign_of_digits {digits : List Char} (h : ∀ c ∈ digits, c.isDigit = true) :
    takeSign digits = (false, digits) := by
  unfold takeSign
  split
  · exact absurd (h '-' (by simp)) (by decide)
  · exact absurd (h '+' (by simp)) (by decide)
  · rfl

theorem number?_toString {v : Int} (h : v.natAbs < 2 ^ 63) :
    number? (toString v).toList = some v := by
  have hdigits (n : Nat) : ∀ c ∈ Nat.toDigits 10 n, c.isDigit = true := fun c =>
    Nat.isDigit_of_mem_toDigits (by omega) (by omega)
  have hradix (n : Nat) : takeRadix ((Nat.toDigits 10 n).map Char.toLower) =
      (10, Nat.toDigits 10 n) := by
    rw [map_toLower_of_digits (hdigits n), takeRadix_of_digits (hdigits n)]
  have hvalue (n : Nat) : Text.natural? 10 (Nat.toDigits 10 n) = some n :=
    Text.natural?_toDigits (by decide) (by decide) n
  rw [Int.toString_eq_repr, Int.repr_eq_if]
  split
  · rw [Nat.toList_repr]
    simp only [number?, takeSign_of_digits (hdigits _), hradix, hvalue, Option.filter_some]
    rw [if_pos (by simp; omega)]
    simp; omega
  · rw [String.toList_append, Nat.toList_repr]
    simp only [number?, String.reduceToList, List.cons_append, List.nil_append, takeSign, hradix,
      hvalue, Option.filter_some]
    rw [if_pos (by simp; omega)]
    simp; omega

end Literal

/-! ## Texts of operands -/

namespace Text

/-- Characters of an operand without parentheses, which reading keeps as they are. -/
def isFlat (c : Char) : Bool :=
  !isBlank c && c != ',' && c != '(' && c != ')' && c != ';' && upperChar c == [c]

def Flat (s : List Char) : Prop :=
  s.all isFlat = true

instance (s : List Char) : Decidable (Flat s) :=
  inferInstanceAs (Decidable (_ = true))

theorem Flat.isFlat {s : List Char} (h : Flat s) {c : Char} (hc : c ∈ s) : isFlat c = true :=
  List.all_eq_true.mp h c hc

theorem flat_cons {c : Char} {s : List Char} : Flat (c :: s) ↔ Text.isFlat c = true ∧ Flat s := by
  simp [Flat]

theorem isFlat_of_isDigit {c : Char} (h : c.isDigit = true) : isFlat c = true :=
  of_isDigit (by decide) h

private theorem flat_toString (v : Int) : Flat (toString v).toList := by
  refine List.all_eq_true.mpr fun c hc => ?_
  rcases mem_toString_int hc with h | rfl
  · exact isFlat_of_isDigit h
  · decide

theorem isFlat_iff {c : Char} : isFlat c = true ↔
    isBlank c = false ∧ c ≠ ',' ∧ c ≠ '(' ∧ c ≠ ')' ∧ c ≠ ';' ∧ upperChar c = [c] := by
  simp [isFlat, and_assoc]

theorem upper_of_flat {s : List Char} (h : Flat s) : upper s = s := by
  induction s with
  | nil => rfl
  | cons c s ih =>
    obtain ⟨hc, hs⟩ := flat_cons.mp h
    rw [upper, List.flatMap_cons, ← upper, ih hs, (isFlat_iff.mp hc).2.2.2.2.2]
    rfl

private theorem filter_of_flat {s : List Char} (h : Flat s) :
    s.filter (!isBlank ·) = s := by
  rw [List.filter_eq_self]
  intro c hc
  simp [(isFlat_iff.mp (h.isFlat hc)).1]

theorem plain_of_flat {s : List Char} (h : Flat s) : Plain s := by
  intro c hc
  obtain ⟨hblank, _, _, _, hsemicolon, _⟩ := isFlat_iff.mp (h.isFlat hc)
  refine ⟨hsemicolon, ?_, ?_⟩
  · rintro rfl
    exact absurd hblank (by decide)
  · rintro rfl
    exact absurd hblank (by decide)

end Text

theorem isOperandText_of_flat {t : List Char} (hne : t ≠ [])
    (h : Text.Flat t) : IsOperandText t where
  ne_nil := hne
  trimmed := Text.trimmed_of_solid fun c hc => (Text.isFlat_iff.mp (h.isFlat hc)).1
  uncut := uncut_of_flat (fun c hc => by simp [Text.isFlat_iff.mp (h.isFlat hc)]) 0
  plain := Text.plain_of_flat h

/-- An address in parentheses: an offset and a base, with a comma and a space between them. -/
def addressText (offset base : List Char) : List Char :=
  '@' :: '(' :: (offset ++ ',' :: ' ' :: (base ++ [')']))

private theorem isOperandText_addressText {offset base : List Char}
    (hoffset : Text.Flat offset) (hbase : Text.Flat base) :
    IsOperandText (addressText offset base) where
  ne_nil := List.cons_ne_nil _ _
  trimmed := by
    have hends : Text.Trimmed (['@'] ++ ('(' :: (offset ++ ',' :: ' ' :: base) ++ [')'])) :=
      (Text.trimmed_singleton (by decide)).append (Text.trimmed_singleton (by decide))
        (List.cons_ne_nil _ _) (List.cons_ne_nil _ _) _
    simpa [addressText] using hends
  uncut := by
    have hinner : Uncut 1 (offset ++ ',' :: ' ' :: base) := by
      apply uncut_nested
      intro c hc
      simp only [List.mem_append, List.mem_cons] at hc
      rcases hc with hc | rfl | rfl | hc
      · simp [Text.isFlat_iff.mp (hoffset.isFlat hc)]
      · decide
      · decide
      · simp [Text.isFlat_iff.mp (hbase.isFlat hc)]
    have hat : Uncut 0 ['@'] := uncut_of_flat (List.forall_mem_singleton.mpr (by decide)) 0
    simpa [addressText] using hat.append hinner.parens
  plain := by
    have hmarks : Text.Plain ['@', '('] ∧ Text.Plain [',', ' '] ∧ Text.Plain [')'] := by
      simp [Text.Plain]
    have htail := hmarks.2.1.append ((Text.plain_of_flat hbase).append hmarks.2.2)
    exact hmarks.1.append ((Text.plain_of_flat hoffset).append htail)

namespace Operand

private theorem text_of_reg (r : Reg) : ∀ op ∈ [Operand.reg r, .indirect r, .preDec r, .postInc r],
    op.text.toList ≠ [] ∧ Text.Flat op.text.toList ∧ read op.text = op := by
  obtain ⟨field⟩ := r
  revert field
  decide +kernel

private theorem text_of_sysReg (r : SysReg) :
    r.name.toList ≠ [] ∧ Text.Flat r.name.toList ∧ read r.name = .sys r := by
  cases r <;> decide

private theorem flat_name (r : Reg) : Text.Flat r.name.toList := by
  obtain ⟨field⟩ := r
  revert field
  decide

theorem regOf?_name (r : Reg) : regOf? r.name.toList = some r ∧
    r.name.toList ≠ ['G', 'B', 'R'] ∧ r.name.toList ≠ ['P', 'C'] := by
  obtain ⟨field⟩ := r
  revert field
  decide

private theorem toList_text_dispReg (d : Int) (r : Reg) :
    (text (.dispReg d r)).toList = addressText (toString d).toList r.name.toList := by
  have htext : text (.dispReg d r) = "@(" ++ toString d ++ ", " ++ r.name ++ ")" := rfl
  simp [htext, addressText]

theorem toList_text_dispGbr (d : Int) :
    (text (.dispGbr d)).toList = addressText (toString d).toList ['G', 'B', 'R'] := by
  have htext : text (.dispGbr d) = "@(" ++ toString d ++ ", GBR)" := rfl
  simp [htext, addressText]

private theorem toList_text_dispPc (d : Int) :
    (text (.dispPc d)).toList = addressText (toString d).toList ['P', 'C'] := by
  have htext : text (.dispPc d) = "@(" ++ toString d ++ ", PC)" := rfl
  simp [htext, addressText]

private theorem toList_text_indexReg (r : Reg) :
    (text (.indexReg r)).toList = addressText ['R', '0'] r.name.toList := by
  simp [text, addressText]

private theorem toList_text_indexGbr :
    (text .indexGbr).toList = addressText ['R', '0'] ['G', 'B', 'R'] :=
  rfl

private theorem toList_text_imm (v : Int) :
    (text (.imm v)).toList = '#' :: (toString v).toList := by
  have htext : text (.imm v) = "#" ++ toString v := rfl
  simp [htext]

theorem isOperandText_text {op : Operand} (h : op.mode ≠ .label) :
    IsOperandText op.text.toList := by
  have hreg (r : Reg) (op : Operand)
      (hop : op ∈ [Operand.reg r, .indirect r, .preDec r, .postInc r]) :
      IsOperandText op.text.toList :=
    isOperandText_of_flat (text_of_reg r op hop).1 (text_of_reg r op hop).2.1
  cases op with
  | imm v =>
    rw [toList_text_imm]
    exact isOperandText_of_flat (by simp) (Text.flat_cons.mpr ⟨by decide, Text.flat_toString v⟩)
  | reg r => exact hreg r _ (by simp)
  | indirect r => exact hreg r _ (by simp)
  | preDec r => exact hreg r _ (by simp)
  | postInc r => exact hreg r _ (by simp)
  | dispReg d r =>
    rw [toList_text_dispReg]
    exact isOperandText_addressText (Text.flat_toString d) (flat_name r)
  | dispGbr d =>
    rw [toList_text_dispGbr]
    exact isOperandText_addressText (Text.flat_toString d) (by decide)
  | indexGbr =>
    rw [toList_text_indexGbr]
    exact isOperandText_addressText (by decide) (by decide)
  | dispPc d =>
    rw [toList_text_dispPc]
    exact isOperandText_addressText (Text.flat_toString d) (by decide)
  | indexReg r =>
    rw [toList_text_indexReg]
    exact isOperandText_addressText (by decide) (flat_name r)
  | sys r => exact isOperandText_of_flat (text_of_sysReg r).1 (text_of_sysReg r).2.1
  | label name => exact absurd rfl h

/-! ## Reading -/

theorem read_of_flat {token : String} (h : Text.Flat token.toList) :
    read token = (addressed? token.toList).getD (.label token) := by
  simp only [read, Text.filter_of_flat h, Text.upper_of_flat h, String.ofList_toList]

private theorem comma_not_mem_of_flat {s : List Char} (h : Text.Flat s) : ',' ∉ s := fun hmem =>
  (Text.isFlat_iff.mp (h.isFlat hmem)).2.1 rfl

private theorem comma_not_mem_toString (d : Int) : ',' ∉ (toString d).toList :=
  comma_not_mem_of_flat (Text.flat_toString d)

theorem comma_not_mem_name (r : Reg) : ',' ∉ r.name.toList :=
  comma_not_mem_of_flat (flat_name r)

/-- The blank after the comma is gone, and offset and base are read by themselves. -/
theorem read_addressText {token : String} {offset base : List Char}
    (htoken : token.toList = addressText offset base)
    (hoffset : Text.Flat offset) (hbase : Text.Flat base)
    {op : Operand} (hop : inParens? (offset ++ ',' :: base) = some op) :
    read token = op := by
  have hplain : Text.upper ((addressText offset base).filter (!Text.isBlank ·)) =
      '@' :: '(' :: ((offset ++ ',' :: base) ++ [')']) := by
    have hupper (s t : List Char) : Text.upper (s ++ t) = Text.upper s ++ Text.upper t :=
      List.flatMap_append
    have hsplit : addressText offset base =
        ['@', '('] ++ (offset ++ ([',', ' '] ++ (base ++ [')']))) := rfl
    rw [hsplit]
    simp only [List.filter_append, hupper, Text.filter_of_flat hoffset, Text.upper_of_flat hoffset,
      Text.filter_of_flat hbase, Text.upper_of_flat hbase]
    rw [show ['@', '('].filter (!Text.isBlank ·) = ['@', '('] by decide,
      show [',', ' '].filter (!Text.isBlank ·) = [','] by decide,
      show [')'].filter (!Text.isBlank ·) = [')'] by decide]
    simp [show Text.upper ['@', '('] = ['@', '('] by decide,
      show Text.upper [','] = [','] by decide, show Text.upper [')'] = [')'] by decide]
  simp only [read, htoken, hplain, addressed?, List.getLast?_concat,
    List.dropLast_concat, if_true, hop, Option.getD_some]

theorem inParens?_append {offset base : List Char} (hoffset : ',' ∉ offset)
    (hbase : ',' ∉ base) :
    inParens? (offset ++ ',' :: base) =
      if offset = ['R', '0'] then
        if base = ['G', 'B', 'R'] then some .indexGbr else (regOf? base).map .indexReg
      else
        (Literal.number? offset).bind fun disp =>
          if base = ['G', 'B', 'R'] then some (.dispGbr disp)
          else if base = ['P', 'C'] then some (.dispPc disp)
          else (regOf? base).map (.dispReg disp) := by
  rw [inParens?, Text.splitOn_append hoffset, Text.splitOn_of_not_mem hbase]

private theorem toString_ne_r0 (d : Int) : (toString d).toList ≠ ['R', '0'] := by
  intro h
  have hmem : 'R' ∈ (toString d).toList := by rw [h]; decide
  rcases mem_toString_int hmem with h | h
  · exact absurd h (by decide)
  · exact absurd h (by decide)

/-- A printed operand reads as itself, if its number has a magnitude below `2 ^ 63`. -/
theorem read_text {op : Operand} (h : op.mode ≠ .label)
    (hdisp : ∀ d, op.disp? = some d → d.natAbs < 2 ^ 63)
    (himm : ∀ v, op.imm? = some v → v.natAbs < 2 ^ 63) : read op.text = op := by
  cases op with
  | imm v =>
    have hflat : Text.Flat (text (.imm v)).toList := by
      rw [toList_text_imm]
      exact Text.flat_cons.mpr ⟨by decide, Text.flat_toString v⟩
    rw [read_of_flat hflat, toList_text_imm, addressed?, Literal.number?_toString (himm v rfl)]
    rfl
  | reg r => exact (text_of_reg r _ (by simp)).2.2
  | indirect r => exact (text_of_reg r _ (by simp)).2.2
  | preDec r => exact (text_of_reg r _ (by simp)).2.2
  | postInc r => exact (text_of_reg r _ (by simp)).2.2
  | dispReg d r =>
    obtain ⟨hr, hgbr, hpc⟩ := regOf?_name r
    apply read_addressText (toList_text_dispReg d r) (Text.flat_toString d) (flat_name r)
    rw [inParens?_append (comma_not_mem_toString d) (comma_not_mem_name r),
      if_neg (toString_ne_r0 d), Literal.number?_toString (hdisp d rfl), Option.bind_some,
      if_neg hgbr, if_neg hpc, hr]
    rfl
  | dispGbr d =>
    apply read_addressText (toList_text_dispGbr d) (Text.flat_toString d) (by decide)
    rw [inParens?_append (comma_not_mem_toString d) (by decide), if_neg (toString_ne_r0 d),
      Literal.number?_toString (hdisp d rfl), Option.bind_some, if_pos rfl]
  | indexGbr => exact read_addressText toList_text_indexGbr (by decide) (by decide) (by decide)
  | dispPc d =>
    apply read_addressText (toList_text_dispPc d) (Text.flat_toString d) (by decide)
    rw [inParens?_append (comma_not_mem_toString d) (by decide), if_neg (toString_ne_r0 d),
      Literal.number?_toString (hdisp d rfl), Option.bind_some, if_neg (by decide), if_pos rfl]
  | indexReg r =>
    obtain ⟨hr, hgbr, _⟩ := regOf?_name r
    apply read_addressText (toList_text_indexReg r) (by decide) (flat_name r)
    rw [inParens?_append (by decide) (comma_not_mem_name r), if_pos rfl, if_neg hgbr, hr]
    rfl
  | sys r => exact (text_of_sysReg r).2.2
  | label name => exact absurd rfl h

end Operand

end SuperH
