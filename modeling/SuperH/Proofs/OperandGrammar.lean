import SuperH.Proofs.Numerals
import SuperH.Proofs.OperandText

/-!
# The grammar of operands

The spellings of an operand are listed form by form. A token is read as an operand just if its text,
in upper case and without blanks, is one of the spellings of that operand, and as a label if it is a
spelling of none. No text spells two operands, so no order of the forms would read it differently.
-/
namespace SuperH

namespace Text

/-! ## Upper case -/

theorem capitals_of_subset {s t : List Char} (ht : capitals t = t) (h : s ⊆ t) : capitals s = s :=
  capitals_eq_self.mpr fun c hc => capitals_eq_self.mp ht c (h hc)

theorem capitals_upper (s : List Char) : capitals (upper s) = upper s := by
  rw [capitals_eq_self]
  intro d hd
  obtain ⟨c, _, hc⟩ := List.mem_flatMap.mp hd
  by_cases hascii : d.toNat < 128
  · exact toUpper_of_mem_upperChar hc hascii
  · exact toUpper_of_not_ascii hascii

/-- A text in upper case that is a name in some case is that name. -/
theorem eq_of_sameIgnoringCase {s : List Char} {name : String} (hs : capitals s = s)
    (hname : capitals name.toList = name.toList)
    (h : sameIgnoringCase name (String.ofList s) = true) : s = name.toList := by
  have hfold : fold name.toList = fold s := by
    rw [sameIgnoringCase_iff, foldText_ofList] at h
    simpa using congrArg String.toList h
  rw [← hs, ← capitals_fold, ← hfold, capitals_fold, hname]

/-- The text `t` is `s` with blanks put in anywhere and letters in either case. -/
inductive Respelled : List Char → List Char → Prop
  | nil : Respelled [] []
  | blank {b s t} : isBlank b = true → Respelled s t → Respelled s (b :: t)
  | char {c d s t} : c.toLower = d.toLower → Respelled s t → Respelled (c :: s) (d :: t)

private theorem Respelled.fold_filter {s t : List Char} (h : Respelled s t) :
    fold (t.filter (!isBlank ·)) = fold (s.filter (!isBlank ·)) := by
  induction h with
  | nil => rfl
  | blank hb _ ih => simpa [hb] using ih
  | @char c d _ _ hc _ ih =>
    have hblank : isBlank c = isBlank d := by rw [← isBlank_toLower c, hc, isBlank_toLower]
    cases hd : isBlank d with
    | false => simp [hblank, hd, hc, ih]
    | true => simp [hblank, hd, ih]

end Text

namespace Operand

/-- The text of a token as it is matched: without blanks and in upper case. -/
def matched (token : String) : List Char :=
  Text.upper (token.toList.filter (!Text.isBlank ·))

theorem read_eq (token : String) :
    read token = (addressed? (matched token)).getD (.label (String.ofList (matched token))) :=
  rfl

private theorem matched_of_respelled {s t : String} (h : Text.Respelled s.toList t.toList) :
    matched t = matched s := by
  rw [matched, matched, ← Text.upper_fold, h.fold_filter, Text.upper_fold]

def inParens (offset base : List Char) : List Char :=
  '@' :: '(' :: (offset ++ ',' :: base ++ [')'])

def NamesReg (s : List Char) (r : Reg) : Prop :=
  ["R0", "R1", "R2", "R3", "R4", "R5", "R6", "R7", "R8", "R9", "R10", "R11", "R12", "R13", "R14",
    "R15"][r.field.toNat]? = some (String.ofList s)

instance (s : List Char) (r : Reg) : Decidable (NamesReg s r) :=
  inferInstanceAs (Decidable (_ = _))

def NamesSysReg (s : List Char) (r : SysReg) : Prop :=
  (r, String.ofList s) ∈ [(.sr, "SR"), (.gbr, "GBR"), (.vbr, "VBR"), (.mach, "MACH"),
    (.macl, "MACL"), (.pr, "PR"), (SysReg.pc, "PC")]

instance (s : List Char) (r : SysReg) : Decidable (NamesSysReg s r) :=
  inferInstanceAs (Decidable (_ ∈ _))

/-- The spellings of operands, labels apart. -/
inductive Spelling : List Char → Operand → Prop
  | imm {n v} : Literal.Numeral n v → Spelling ('#' :: n) (.imm v)
  | preDec {s r} : NamesReg s r → Spelling ('@' :: '-' :: s) (.preDec r)
  | postInc {s r} : NamesReg s r → Spelling ('@' :: (s ++ ['+'])) (.postInc r)
  | indirect {s r} : NamesReg s r → Spelling ('@' :: s) (.indirect r)
  | dispReg {n d s r} : Literal.Numeral n d → NamesReg s r → Spelling (inParens n s) (.dispReg d r)
  | dispGbr {n d} : Literal.Numeral n d → Spelling (inParens n ['G', 'B', 'R']) (.dispGbr d)
  | indexGbr : Spelling (inParens ['R', '0'] ['G', 'B', 'R']) .indexGbr
  | dispPc {n d} : Literal.Numeral n d → Spelling (inParens n ['P', 'C']) (.dispPc d)
  | indexReg {s r} : NamesReg s r → Spelling (inParens ['R', '0'] s) (.indexReg r)
  | reg {s r} : NamesReg s r → Spelling s (.reg r)
  | sys {s r} : NamesSysReg s r → Spelling s (.sys r)

/-! ## Registers -/

theorem namesReg_iff {s : List Char} {r : Reg} : NamesReg s r ↔ s = r.name.toList := by
  have hnames : ["R0", "R1", "R2", "R3", "R4", "R5", "R6", "R7", "R8", "R9", "R10", "R11", "R12",
      "R13", "R14", "R15"][r.field.toNat]? = some r.name := by
    obtain ⟨field⟩ := r
    revert field
    decide
  rw [NamesReg, hnames, Option.some.injEq, ← String.toList_inj, String.toList_ofList, eq_comm]

theorem namesSysReg_iff {s : List Char} {r : SysReg} : NamesSysReg s r ↔ s = r.name.toList := by
  rw [← String.ofList_inj, String.ofList_toList]
  cases r <;> simp [NamesSysReg, SysReg.name]

private theorem capitals_name (r : Reg) : Text.capitals r.name.toList = r.name.toList := by
  obtain ⟨field⟩ := r
  revert field
  decide

theorem regOf?_eq_some {s : List Char} (hs : Text.capitals s = s) {r : Reg}
    (h : regOf? s = some r) : NamesReg s r := by
  have hsame := List.find?_some h
  exact namesReg_iff.mpr (Text.eq_of_sameIgnoringCase hs (capitals_name r) hsame)

theorem sysReg_eq_some {s : List Char} (hs : Text.capitals s = s) {r : SysReg}
    (h : SysReg.parse? (String.ofList s) = some r) : NamesSysReg s r := by
  have hname : Text.capitals r.name.toList = r.name.toList := by
    cases r <;> decide
  have hsame := List.find?_some h
  exact namesSysReg_iff.mpr (Text.eq_of_sameIgnoringCase hs hname hsame)

private theorem addressed?_of_reg (r : Reg) :
    addressed? r.name.toList = some (.reg r) ∧
      addressed? ('@' :: r.name.toList) = some (.indirect r) ∧
      addressed? ('@' :: '-' :: r.name.toList) = some (.preDec r) ∧
      addressed? ('@' :: (r.name.toList ++ ['+'])) = some (.postInc r) := by
  obtain ⟨field⟩ := r
  revert field
  decide

private theorem addressed?_of_sysReg (r : SysReg) : addressed? r.name.toList = some (.sys r) := by
  cases r <;> decide

/-! ## Addresses in parentheses -/

theorem addressed?_inParens (offset base : List Char) :
    addressed? (inParens offset base) = inParens? (offset ++ ',' :: base) := by
  have hrest : addressed? (inParens offset base) =
      if (offset ++ ',' :: base ++ [')']).getLast? = some ')' then
        inParens? (offset ++ ',' :: base ++ [')']).dropLast else none := rfl
  rw [hrest, List.getLast?_concat, List.dropLast_concat, if_pos rfl]

/-- An offset that is a number is not the register of an index. -/
theorem addressed?_disp {n : List Char} {d : Int} (hn : Literal.Numeral n d) {base : List Char}
    (hbase : ',' ∉ base) :
    addressed? (inParens n base) =
      if base = ['G', 'B', 'R'] then some (.dispGbr d)
      else if base = ['P', 'C'] then some (.dispPc d)
      else (regOf? base).map (.dispReg d) := by
  have hcomma : ',' ∉ n := fun hmem => absurd (hn.mem hmem) (by decide)
  have hindex : n ≠ ['R', '0'] := by
    rintro rfl
    exact absurd (hn.mem List.mem_cons_self) (by decide)
  have hvalue : Literal.number? n = some d :=
    Literal.number?_eq_some_iff.mpr (hn.capitals_eq.symm ▸ hn)
  rw [addressed?_inParens, inParens?_append hcomma hbase, if_neg hindex, hvalue, Option.bind_some]

private theorem spelling_of_inParens? {inner : List Char} (hs : Text.capitals inner = inner)
    {o : Operand} (h : inParens? inner = some o) : Spelling ('@' :: '(' :: (inner ++ [')'])) o := by
  unfold inParens? at h
  split at h
  · rename_i offset base hsplit
    obtain ⟨rfl, _, _⟩ := Text.splitOn_eq_pair.mp hsplit
    have hoffset := Text.capitals_of_subset hs (List.subset_append_left _ _)
    have hbase : Text.capitals base = base :=
      Text.capitals_of_subset hs fun c hc => by simp [hc]
    split at h
    · rename_i hindex
      subst hindex
      split at h
      · rename_i hgbr
        subst hgbr
        cases h
        exact .indexGbr
      · obtain ⟨r, hr, rfl⟩ := Option.map_eq_some_iff.mp h
        exact .indexReg (regOf?_eq_some hbase hr)
    · obtain ⟨d, hd, hop⟩ := Option.bind_eq_some_iff.mp h
      have hn : Literal.Numeral offset d := hoffset ▸ Literal.number?_eq_some_iff.mp hd
      split at hop
      · rename_i hgbr
        subst hgbr
        cases hop
        exact .dispGbr hn
      · split at hop
        · rename_i hpc
          subst hpc
          cases hop
          exact .dispPc hn
        · obtain ⟨r, hr, rfl⟩ := Option.map_eq_some_iff.mp hop
          exact .dispReg hn (regOf?_eq_some hbase hr)
  · cases h

/-! ## All operands -/

theorem addressed?_of_spelling {u : List Char} {o : Operand} (h : Spelling u o) :
    addressed? u = some o := by
  cases h with
  | imm hn =>
    rw [addressed?, Literal.number?_eq_some_iff.mpr (hn.capitals_eq.symm ▸ hn)]
    rfl
  | preDec hr =>
    obtain rfl := namesReg_iff.mp hr
    exact (addressed?_of_reg _).2.2.1
  | postInc hr =>
    obtain rfl := namesReg_iff.mp hr
    exact (addressed?_of_reg _).2.2.2
  | indirect hr =>
    obtain rfl := namesReg_iff.mp hr
    exact (addressed?_of_reg _).2.1
  | @dispReg _ _ _ r hn hr =>
    obtain rfl := namesReg_iff.mp hr
    obtain ⟨hr, hgbr, hpc⟩ := regOf?_name r
    rw [addressed?_disp hn (comma_not_mem_name r), if_neg hgbr, if_neg hpc, hr]
    rfl
  | dispGbr hn => rw [addressed?_disp hn (by decide), if_pos rfl]
  | indexGbr => decide
  | dispPc hn => rw [addressed?_disp hn (by decide), if_neg (by decide), if_pos rfl]
  | @indexReg _ r hr =>
    obtain rfl := namesReg_iff.mp hr
    obtain ⟨hr, hgbr, _⟩ := regOf?_name r
    rw [addressed?_inParens, inParens?_append (by decide) (comma_not_mem_name r), if_pos rfl,
      if_neg hgbr, hr]
    rfl
  | reg hr =>
    obtain rfl := namesReg_iff.mp hr
    exact (addressed?_of_reg _).1
  | sys hr =>
    obtain rfl := namesSysReg_iff.mp hr
    exact addressed?_of_sysReg _

theorem spelling_of_addressed? {u : List Char} (hu : Text.capitals u = u) {o : Operand}
    (h : addressed? u = some o) : Spelling u o := by
  unfold addressed? at h
  split at h
  · rename_i digits
    have hdigits := Text.capitals_of_subset hu (List.subset_cons_self _ _)
    obtain ⟨v, hv, rfl⟩ := Option.map_eq_some_iff.mp h
    exact .imm (hdigits ▸ Literal.number?_eq_some_iff.mp hv)
  · rename_i name
    have hname : Text.capitals name = name := Text.capitals_of_subset hu fun c hc => by simp [hc]
    obtain ⟨r, hr, rfl⟩ := Option.map_eq_some_iff.mp h
    exact .preDec (regOf?_eq_some hname hr)
  · rename_i rest
    obtain ⟨hlast, h⟩ := Option.ite_none_right_eq_some.mp h
    obtain ⟨inner, rfl⟩ := List.getLast?_eq_some_iff.mp hlast
    rw [List.dropLast_concat] at h
    exact spelling_of_inParens? (Text.capitals_of_subset hu fun c hc => by simp [hc]) h
  · rename_i name _ _
    split at h
    · rename_i hlast
      obtain ⟨name, rfl⟩ := List.getLast?_eq_some_iff.mp hlast
      have hname : Text.capitals name = name := Text.capitals_of_subset hu fun c hc => by simp [hc]
      rw [List.dropLast_concat] at h
      obtain ⟨r, hr, rfl⟩ := Option.map_eq_some_iff.mp h
      exact .postInc (regOf?_eq_some hname hr)
    · have hname := Text.capitals_of_subset hu (List.subset_cons_self _ _)
      obtain ⟨r, hr, rfl⟩ := Option.map_eq_some_iff.mp h
      exact .indirect (regOf?_eq_some hname hr)
  · rcases Option.or_eq_some_iff.mp h with h | ⟨_, h⟩
    · obtain ⟨r, hr, rfl⟩ := Option.map_eq_some_iff.mp h
      exact .reg (regOf?_eq_some hu hr)
    · obtain ⟨r, hr, rfl⟩ := Option.map_eq_some_iff.mp h
      exact .sys (sysReg_eq_some hu hr)

private theorem spelling_unique {u : List Char} {o₁ o₂ : Operand} (h₁ : Spelling u o₁)
    (h₂ : Spelling u o₂) : o₁ = o₂ :=
  Option.some.inj ((addressed?_of_spelling h₁).symm.trans (addressed?_of_spelling h₂))

theorem mode_of_spelling {u : List Char} {o : Operand} (h : Spelling u o) : o.mode ≠ .label := by
  cases h <;> simp [mode]

/-- A token is read as an operand other than a label just if it spells it, and as the label of its
text if it spells none. No text spells two operands. And an operand is read back from its own text,
whatever blanks and letter cases that is written with. -/
theorem read_exact (token : String) :
    (∀ o, read token = o ∧ o.mode ≠ .label ↔ Spelling (matched token) o) ∧
      ((∀ o, ¬ Spelling (matched token) o) →
        read token = .label (String.ofList (matched token))) ∧
      (∀ u o₁ o₂, Spelling u o₁ → Spelling u o₂ → o₁ = o₂) ∧
      ∀ o : Operand, o.mode ≠ .label →
        (∀ v, o.disp? = some v ∨ o.imm? = some v → -2 ^ 63 < v ∧ v < 2 ^ 63) →
        Text.Respelled o.text.toList token.toList → read token = o := by
  have hupper : Text.capitals (matched token) = matched token := Text.capitals_upper _
  refine ⟨fun o => ⟨?_, fun h => ?_⟩, fun hnone => ?_, fun _ _ _ => spelling_unique,
    fun o hmode hvalue hrespelled => ?_⟩
  · rintro ⟨hread, hmode⟩
    rw [read_eq] at hread
    cases haddressed : addressed? (matched token) with
    | none =>
      rw [haddressed] at hread
      exact absurd (congrArg mode hread).symm hmode
    | some op =>
      rw [haddressed] at hread
      cases hread
      exact spelling_of_addressed? hupper haddressed
  · rw [read_eq, addressed?_of_spelling h]
    exact ⟨rfl, mode_of_spelling h⟩
  · have hunread : addressed? (matched token) = none :=
      Option.eq_none_iff_forall_ne_some.mpr fun o h => hnone o (spelling_of_addressed? hupper h)
    rw [read_eq, hunread, Option.getD_none]
  · have hsame : read token = read o.text := by
      rw [read_eq, read_eq, matched_of_respelled hrespelled]
    rw [hsame]
    apply read_text hmode
    · intro d hd
      have hbounds := hvalue d (.inl hd)
      omega
    · intro v hv
      have hbounds := hvalue v (.inr hv)
      omega

/-- A number in another radix, a printed operand with blanks and in mixed case, registers of two
digits, and two names that no register has. -/
theorem read_exact_spaced :
    read "@( +0x1f ,r2)" = .dispReg 31 ⟨2⟩ ∧ read "@ (-7, gbR)" = .dispGbr (-7) ∧
      read "r10" = .reg ⟨10⟩ ∧ read "@-R11" = .preDec ⟨11⟩ ∧ read "@ r12 +" = .postInc ⟨12⟩ ∧
      read "@r13" = .indirect ⟨13⟩ ∧ read "@(r0, R14)" = .indexReg ⟨14⟩ ∧ read "R15" = .reg ⟨15⟩ ∧
      read "macl" = .sys .macl ∧
      (∀ o, ¬ Spelling (matched "r16") o) ∧ read "r16" = .label "R16" ∧
      (∀ o, ¬ Spelling (matched "R01") o) ∧ read "R01" = .label "R01" := by
  have hread {token : String} {o : Operand} (h : Spelling (matched token) o) : read token = o :=
    (((read_exact token).1 o).mpr h).1
  have hnone {token : String} (h : (read token).mode = .label) (o : Operand) :
      ¬ Spelling (matched token) o := by
    intro hspelling
    obtain ⟨rfl, hmode⟩ := ((read_exact token).1 o).mpr hspelling
    exact hmode h
  have hdigits : Text.Denotes 16 ['1', 'F'] 31 :=
    ⟨[1, 15], by decide, by decide, by decide, by decide⟩
  have hnumber : Literal.Numeral ['+', '0', 'X', '1', 'F'] 31 :=
    .plus (.marked (by decide) hdigits) (by decide)
  have hr2 : NamesReg ['R', '2'] ⟨2⟩ := by decide
  have hr10 : NamesReg ['R', '1', '0'] ⟨10⟩ := by decide
  have hr11 : NamesReg ['R', '1', '1'] ⟨11⟩ := by decide
  have hr12 : NamesReg ['R', '1', '2'] ⟨12⟩ := by decide
  have hr13 : NamesReg ['R', '1', '3'] ⟨13⟩ := by decide
  have hr14 : NamesReg ['R', '1', '4'] ⟨14⟩ := by decide
  have hr15 : NamesReg ['R', '1', '5'] ⟨15⟩ := by decide
  have hmacl : NamesSysReg ['M', 'A', 'C', 'L'] .macl := by decide
  refine ⟨hread (.dispReg hnumber hr2), ?_, hread (.reg hr10), hread (.preDec hr11),
    hread (.postInc hr12), hread (.indirect hr13), hread (.indexReg hr14), hread (.reg hr15),
    hread (.sys hmacl), hnone (by decide), by decide, hnone (by decide), by decide⟩
  · have htoken : "@ (-7, gbR)".toList =
        ['@', ' ', '(', '-', '7', ',', ' ', 'g', 'b', 'R', ')'] := by
      decide
    have hblanks : Text.Respelled (dispGbr (-7)).text.toList "@ (-7, gbR)".toList := by
      rw [toList_text_dispGbr, show (toString (-7 : Int)).toList = ['-', '7'] by decide, htoken]
      apply Text.Respelled.char rfl
      apply Text.Respelled.blank rfl
      repeat apply Text.Respelled.char (by decide)
      exact .nil
    apply (read_exact _).2.2.2 (.dispGbr (-7)) (by decide) _ hblanks
    intro v hv
    rcases hv with hv | hv
    · cases hv
      decide
    · cases hv

end Operand

end SuperH
