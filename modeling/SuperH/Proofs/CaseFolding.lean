import SuperH.Proofs.Digits
import SuperH.Proofs.Names

/-!
# Text in lower case

What becomes of a text when its ASCII letters are put in lower case. Cutting it into lines, words or
pieces cuts the folded text in the same places, since no letter is a mark. Reading a name, a number
or an operand gives the same as before, since each of these puts its letters in one case first.
-/
namespace SuperH

namespace Text

/-! ## Characters -/

/-- A function that does not tell the cases of ASCII letters apart. -/
theorem apply_toLower {α : Type} {f : Char → α}
    (h : ∀ n < 128, f (Char.ofNat n).toLower = f (Char.ofNat n)) (c : Char) :
    f c.toLower = f c := by
  by_cases hc : c.toNat < 128
  · exact of_ascii (P := fun c => f c.toLower = f c) h hc
  · rw [toLower_of_not_ascii hc]

@[simp] theorem isBlank_toLower (c : Char) : isBlank c.toLower = isBlank c :=
  apply_toLower (by decide) c

@[simp] theorem toLower_toLower (c : Char) : c.toLower.toLower = c.toLower :=
  apply_toLower (f := Char.toLower) (by decide) c

private theorem toLower_ascii {c : Char} (hc : c.toNat < 128) : c.toLower.toNat < 128 :=
  of_ascii (P := fun c => c.toLower.toNat < 128) (by decide) hc

private theorem toLower_cases (c : Char) :
    c.toLower = c ∨ c.isAlpha = true ∧ c.toLower.isAlpha = true := by
  by_cases hc : c.toNat < 128
  · exact of_ascii (P := fun c => c.toLower = c ∨ c.isAlpha = true ∧ c.toLower.isAlpha = true)
      (by decide) hc
  · exact .inl (toLower_of_not_ascii hc)

/-- A character that is no letter has no other case. -/
theorem toLower_eq_mark {mark : Char} (hmark : mark.isAlpha = false) {c : Char} :
    c.toLower = mark ↔ c = mark := by
  rcases toLower_cases c with hsame | ⟨hletter, hlower⟩
  · rw [hsame]
  · constructor
    · rintro rfl
      exact absurd hlower (by simp [hmark])
    · rintro rfl
      exact absurd hletter (by simp [hmark])

/-! ## Cutting text -/

/-- Text with its ASCII letters in lower case. -/
def fold (s : List Char) : List Char :=
  s.map Char.toLower

@[simp] theorem fold_nil : fold [] = [] := rfl

@[simp] theorem fold_cons (c : Char) (s : List Char) : fold (c :: s) = c.toLower :: fold s := rfl

@[simp] theorem fold_eq_nil {s : List Char} : fold s = [] ↔ s = [] := List.map_eq_nil_iff

@[simp] theorem fold_fold (s : List Char) : fold (fold s) = fold s := by
  simp [fold, Function.comp_def]

theorem mem_fold_mark {mark : Char} (hmark : mark.isAlpha = false) {s : List Char} :
    mark ∈ fold s ↔ mark ∈ s := by
  simp [fold, List.mem_map, toLower_eq_mark hmark]

theorem head?_fold_mark {mark : Char} (hmark : mark.isAlpha = false) {s : List Char} :
    (fold s).head? = some mark ↔ s.head? = some mark := by
  cases s <;> simp [toLower_eq_mark hmark]

private theorem takeWhile_fold {p : Char → Bool} (h : ∀ c, p c.toLower = p c) (s : List Char) :
    (fold s).takeWhile p = fold (s.takeWhile p) := by
  have hp : p ∘ Char.toLower = p := funext h
  rw [fold, List.takeWhile_map, hp, fold]

private theorem dropWhile_fold {p : Char → Bool} (h : ∀ c, p c.toLower = p c) (s : List Char) :
    (fold s).dropWhile p = fold (s.dropWhile p) := by
  have hp : p ∘ Char.toLower = p := funext h
  rw [fold, List.dropWhile_map, hp, fold]

@[simp] theorem trimStart_fold (s : List Char) : trimStart (fold s) = fold (trimStart s) :=
  dropWhile_fold isBlank_toLower s

@[simp] theorem trimEnd_fold (s : List Char) : trimEnd (fold s) = fold (trimEnd s) := by
  have hdrop := dropWhile_fold isBlank_toLower s.reverse
  rw [fold, fold] at hdrop
  rw [trimEnd, trimEnd, fold, fold, ← List.map_reverse, hdrop, List.map_reverse]

@[simp] theorem trim_fold (s : List Char) : trim (fold s) = fold (trim s) := by
  simp [trim]

@[simp] theorem firstWord?_fold (s : List Char) :
    firstWord? (fold s) = (firstWord? s).map fold := by
  have hp : ∀ c : Char, (!isBlank c.toLower) = !isBlank c := by simp
  rw [firstWord?, firstWord?, trimStart_fold, takeWhile_fold hp]
  cases (trimStart s).takeWhile (!isBlank ·) with
  | nil => rfl
  | cons c word => rfl

@[simp] theorem cutAtBlank_fold (s : List Char) :
    cutAtBlank (fold s) = (fold (cutAtBlank s).1, fold (cutAtBlank s).2) := by
  have hp : ∀ c : Char, (!isBlank c.toLower) = !isBlank c := by simp
  rw [cutAtBlank, takeWhile_fold hp, dropWhile_fold hp, trim_fold, cutAtBlank]

private theorem consHead_fold (c : Char) (pieces : List (List Char)) :
    consHead c.toLower (pieces.map fold) = (consHead c pieces).map fold := by
  cases pieces <;> rfl

theorem lines_fold (s : List Char) : lines (fold s) = (lines s).map fold := by
  induction s using lines.induct with
  | case1 => simp [lines]
  | case2 rest ih =>
    rw [lines, List.map_cons, ← ih]
    exact lines.eq_2 (fold rest)
  | case3 rest ih =>
    rw [lines, List.map_cons, ← ih]
    exact lines.eq_3 (fold rest)
  | case4 c rest hn hr ih =>
    rw [fold_cons, lines, lines, ih, consHead_fold]
    · exact hn
    · exact hr
    · exact mt (toLower_eq_mark (by decide)).mp hn
    · intro tail hc htail
      cases rest with
      | nil => cases htail
      | cons d rest =>
        obtain ⟨hd, _⟩ := List.cons.inj htail
        refine hr rest ((toLower_eq_mark (by decide)).mp hc) ?_
        rw [(toLower_eq_mark (by decide)).mp hd]

theorem splitOn_fold {sep : Char} (hsep : sep.isAlpha = false) (s : List Char) :
    splitOn sep (fold s) = (splitOn sep s).map fold := by
  induction s with
  | nil => rfl
  | cons c s ih =>
    by_cases hc : c = sep
    · rw [fold_cons, splitOn, if_pos ((toLower_eq_mark hsep).mpr hc), splitOn, if_pos hc, ih]
      rfl
    · rw [fold_cons, splitOn, if_neg (mt (toLower_eq_mark hsep).mp hc), splitOn, if_neg hc, ih,
        consHead_fold]

/-! ## Letter case -/

theorem upperChar_toLower (c : Char) : upperChar c.toLower = upperChar c :=
  apply_toLower (by decide) c

@[simp] theorem upper_fold (s : List Char) : upper (fold s) = upper s := by
  simp [upper, fold, List.flatMap_map, upperChar_toLower]

private theorem inRanges_of_ascii {c : Char} (hc : c.toNat < 128) (ranges : List (Nat × Nat)) :
    inRanges ranges c = inRanges (ranges.filter (·.1 < 128)) c := by
  have hlow (range : Nat × Nat) : (decide (range.1 ≤ c.toNat) && decide (c.toNat ≤ range.2)) =
      (decide (range.1 < 128) && (decide (range.1 ≤ c.toNat) && decide (c.toNat ≤ range.2))) := by
    by_cases hrange : range.1 < 128
    · simp [hrange]
    · have hover : ¬ range.1 ≤ c.toNat := by omega
      simp [hover]
  rw [inRanges, inRanges, List.any_filter]
  exact congrArg ranges.any (funext hlow)

private theorem inRanges_toLower {ranges : List (Nat × Nat)}
    (h : ∀ n < 128, inRanges (ranges.filter (·.1 < 128)) (Char.ofNat n).toLower =
      inRanges (ranges.filter (·.1 < 128)) (Char.ofNat n)) (c : Char) :
    inRanges ranges c.toLower = inRanges ranges c := by
  by_cases hc : c.toNat < 128
  · have hlower : c.toLower.toNat < 128 := toLower_ascii hc
    rw [inRanges_of_ascii hlower, inRanges_of_ascii hc]
    exact apply_toLower h c
  · rw [toLower_of_not_ascii hc]

/-- ASCII letters are cased and not ignored, in either case, so a capital sigma has the same form
between them. -/
theorem startsCased_fold (s : List Char) : startsCased (fold s) = startsCased s := by
  have hignorable : caseIgnorableRanges.filter (·.1 < 128) =
      [(0x27, 0x27), (0x2E, 0x2E), (0x3A, 0x3A), (0x5E, 0x5E), (0x60, 0x60)] := by
    decide
  have hletters : casedRanges.filter (·.1 < 128) = [(0x41, 0x5A), (0x61, 0x7A)] := by
    decide
  have hignored : ∀ c : Char,
      inRanges caseIgnorableRanges c.toLower = inRanges caseIgnorableRanges c := by
    apply inRanges_toLower
    rw [hignorable]
    decide
  have hcased : ∀ c : Char, inRanges casedRanges c.toLower = inRanges casedRanges c := by
    apply inRanges_toLower
    rw [hletters]
    decide
  rw [startsCased, startsCased, dropWhile_fold hignored]
  cases s.dropWhile (inRanges caseIgnorableRanges) with
  | nil => rfl
  | cons c rest => exact hcased c

private theorem lowerChar_fold (before : List Char) (c : Char) (after : List Char) :
    lowerChar (fold before) c.toLower (fold after) = lowerChar before c after := by
  by_cases hc : c.toNat < 128
  · rw [lowerChar, lowerChar, if_pos (toLower_ascii hc), if_pos hc, toLower_toLower]
  · rw [toLower_of_not_ascii hc, lowerChar, lowerChar, startsCased_fold, startsCased_fold]

@[simp] theorem lower_fold (s : List Char) : lower (fold s) = lower s := by
  have hafter (before s : List Char) :
      lowerAfter (fold before) (fold s) = lowerAfter before s := by
    induction s generalizing before with
    | nil => rfl
    | cons c s ih =>
      rw [fold_cons, lowerAfter, lowerAfter, lowerChar_fold, ← ih (c :: before), fold_cons]
  exact hafter [] s

def foldText (s : String) : String :=
  String.ofList (fold s.toList)

@[simp] theorem toList_foldText (s : String) : (foldText s).toList = fold s.toList :=
  String.toList_ofList

@[simp] theorem foldText_ofList (s : List Char) :
    foldText (String.ofList s) = String.ofList (fold s) := by
  rw [foldText, String.toList_ofList]

theorem sameIgnoringCase_iff {s t : String} :
    sameIgnoringCase s t = true ↔ foldText s = foldText t := by
  rw [sameIgnoringCase, beq_iff_eq, ← String.toList_inj, toList_foldText, toList_foldText, fold,
    fold]

@[simp] theorem sameIgnoringCase_foldText (s t : String) :
    sameIgnoringCase s (foldText t) = sameIgnoringCase s t := by
  have hfold : foldText (foldText t) = foldText t := by simp [foldText]
  rw [Bool.eq_iff_iff, sameIgnoringCase_iff, sameIgnoringCase_iff, hfold]

theorem upcase_eq_of_sameIgnoringCase {s t : String} (h : sameIgnoringCase s t = true) :
    upcase s = upcase t := by
  have hfold := congrArg String.toList (sameIgnoringCase_iff.mp h)
  rw [toList_foldText, toList_foldText] at hfold
  rw [upcase, ← upper_fold, hfold, upper_fold, upcase]

/-! ## Numbers -/

theorem digit?_toLower {radix : Nat} (hradix : radix ≤ 16) (c : Char) :
    digit? radix c.toLower = digit? radix c := by
  have hdigit := apply_toLower (f := digit? 16) (by decide) c
  rw [digit?_eq_filter hradix, digit?_eq_filter hradix, hdigit]

theorem natural?_fold {radix : Nat} (hradix : radix ≤ 16) (s : List Char) :
    natural? radix (fold s) = natural? radix s := by
  have hdigit (n : Nat) (c : Char) : addDigit radix n c.toLower = addDigit radix n c := by
    rw [addDigit, addDigit, digit?_toLower hradix]
  by_cases hs : s = []
  · rw [hs, fold_nil]
  · rw [natural?_of_ne_nil (mt fold_eq_nil.mp hs), natural?_of_ne_nil hs, fold, List.foldlM_map]
    simp only [hdigit]

theorem unsigned?_fold {radix : Nat} (hradix : radix ≤ 16) (limit : Nat) (s : List Char) :
    unsigned? radix limit (fold s) = unsigned? radix limit s := by
  cases s with
  | nil => rfl
  | cons c s =>
    by_cases hc : c = '+'
    · subst hc
      have hplus (t : List Char) :
          unsigned? radix limit ('+' :: t) = (natural? radix t).filter (· < limit) := rfl
      rw [hplus, ← natural?_fold hradix]
      exact hplus (fold s)
    · have hfold : (fold (c :: s)).head? ≠ some '+' := by
        rw [ne_eq, head?_fold_mark (by decide)]
        simpa using hc
      rw [unsigned?_of_head hfold, natural?_fold hradix, unsigned?_of_head (by simpa using hc)]

private theorem dropHexMark_cons_cons (c d : Char) (s : List Char) :
    dropHexMark (c :: d :: s) = if c = '0' ∧ (d = 'x' ∨ d = 'X') then s else c :: d :: s := by
  unfold dropHexMark
  split <;> simp_all

theorem dropHexMark_fold (s : List Char) : dropHexMark (fold s) = fold (dropHexMark s) := by
  match s with
  | [] => rfl
  | [c] =>
    have hone (c : Char) : dropHexMark [c] = [c] := by
      unfold dropHexMark
      split <;> simp_all
    rw [hone]
    exact hone c.toLower
  | c :: d :: s =>
    have hmark : (d.toLower = 'x' ∨ d.toLower = 'X') = (d = 'x' ∨ d = 'X') :=
      apply_toLower (f := fun d => d = 'x' ∨ d = 'X') (by decide) d
    have hzero : c.toLower = '0' ↔ c = '0' := toLower_eq_mark (by decide)
    simp only [fold_cons, dropHexMark_cons_cons, hmark, hzero]
    split <;> rfl

end Text

theorem Literal.takeSign_cons (c : Char) (s : List Char) :
    takeSign (c :: s) = if c = '-' then (true, s) else (false, if c = '+' then s else c :: s) := by
  unfold takeSign
  split <;> simp_all

private theorem Literal.takeSign_fold (s : List Char) :
    takeSign (Text.fold s) = ((takeSign s).1, Text.fold (takeSign s).2) := by
  cases s with
  | nil => rfl
  | cons c s =>
    have hminus : c.toLower = '-' ↔ c = '-' := Text.toLower_eq_mark (by decide)
    have hplus : c.toLower = '+' ↔ c = '+' := Text.toLower_eq_mark (by decide)
    simp only [Text.fold_cons, takeSign_cons, hminus, hplus]
    split
    · rfl
    · split <;> rfl

theorem Literal.number?_fold (s : List Char) : number? (Text.fold s) = number? s := by
  have hlower : (Text.fold (takeSign s).2).map Char.toLower = (takeSign s).2.map Char.toLower :=
    Text.fold_fold _
  simp only [number?, takeSign_fold, hlower]

theorem Literal.binaryDigits?_fold (s : List Char) :
    binaryDigits? (Text.fold s) = (binaryDigits? s).map Text.fold := by
  cases s with
  | nil => rfl
  | cons c s =>
    have hmark : (c.toLower = 'b' ∨ c.toLower = 'B') = (c = 'b' ∨ c = 'B') :=
      Text.apply_toLower (f := fun c => c = 'b' ∨ c = 'B') (by decide) c
    have hdigits : (Text.fold s).all (fun d => d = '0' ∨ d = '1') =
        s.all (fun d => d = '0' ∨ d = '1') := by
      rw [Text.fold, List.all_map]
      exact congrArg s.all (funext (Text.apply_toLower
        (f := fun d => decide (d = '0' ∨ d = '1')) (by decide)))
    simp only [Text.fold_cons, binaryDigits?, hmark, hdigits, ne_eq, Text.fold_eq_nil]
    split <;> rfl

/-! ## Parts of a line -/

theorem beforeComment_fold (quoted : Bool) (before : Char) (s : List Char) :
    beforeComment quoted before.toLower (Text.fold s) =
      Text.fold (beforeComment quoted before s) := by
  induction s generalizing quoted before with
  | nil => rfl
  | cons c s ih =>
    have hcomment : c.toLower = ';' ↔ c = ';' := Text.toLower_eq_mark (by decide)
    have hquote : c.toLower = '"' ↔ c = '"' := Text.toLower_eq_mark (by decide)
    have hescape : (before.toLower != '\\') = (before != '\\') := by
      rw [Bool.eq_iff_iff, bne_iff_ne, bne_iff_ne, ne_eq, ne_eq, Text.toLower_eq_mark (by decide)]
    rw [Text.fold_cons, beforeComment, beforeComment]
    simp only [hcomment, hquote, hescape, ih]
    split <;> rfl

theorem lineCode_foldText (line : String) :
    lineCode (Text.foldText line) = Text.foldText (lineCode line) := by
  have hcode := beforeComment_fold false (Char.ofNat 0) line.toList
  rw [show (Char.ofNat 0).toLower = Char.ofNat 0 by decide] at hcode
  rw [lineCode, lineCode, Text.toList_foldText, hcode, Text.trim_fold, Text.foldText_ofList]

theorem isIdentifierText_fold (s : List Char) :
    isIdentifierText (Text.fold s) = isIdentifierText s := by
  cases s with
  | nil => rfl
  | cons c s =>
    have hstarts := Text.apply_toLower (f := startsIdentifier) (by decide) c
    have hcontinues : continuesIdentifier ∘ Char.toLower = continuesIdentifier :=
      funext (Text.apply_toLower (by decide))
    rw [Text.fold_cons, isIdentifierText, isIdentifierText, hstarts, Text.fold, List.all_map,
      hcontinues]

theorem Section.parse?_foldText (code : String) :
    Section.parse? (Text.foldText code) = Section.parse? code := by
  rw [Section.parse?, Section.parse?, Text.toList_foldText, Text.firstWord?_fold]
  cases Text.firstWord? code.toList with
  | none => rfl
  | some word =>
    simp only [Option.map_some, Option.bind_some, ← Text.foldText_ofList,
      Text.sameIgnoringCase_foldText]

theorem labelled?_fold (code : List Char) :
    labelled? (Text.fold code) =
      (labelled? code).map fun x => (Text.fold x.1, Text.fold x.2) := by
  have hname (c : Char) : (!Text.isBlank c.toLower && c.toLower != ':') =
      (!Text.isBlank c && c != ':') := by
    rw [Text.isBlank_toLower, Bool.eq_iff_iff]
    simp [Text.toLower_eq_mark]
  have htake := Text.takeWhile_fold (p := fun c => !Text.isBlank c && c != ':') hname code
  have hdrop := Text.dropWhile_fold (p := fun c => !Text.isBlank c && c != ':') hname code
  simp only [labelled?, htake, hdrop, Text.trimStart_fold]
  cases code.takeWhile fun c => !Text.isBlank c && c != ':' with
  | nil => rfl
  | cons c name =>
    cases Text.trimStart (code.dropWhile fun c => !Text.isBlank c && c != ':') with
    | nil => rfl
    | cons d rest =>
      by_cases hd : d = ':'
      · subst hd
        have hline : '\n' ∈ Text.fold (Text.trimStart rest) ↔ '\n' ∈ Text.trimStart rest :=
          Text.mem_fold_mark (by decide)
        simp only [Text.fold_cons, show ':'.toLower = ':' by decide, Text.trimStart_fold,
          List.contains_iff_mem, hline]
        split <;> rfl
      · have hlower : d.toLower ≠ ':' := mt (Text.toLower_eq_mark (by decide)).mp hd
        simp [hd, hlower]

theorem splitOutside_fold (depth : Nat) (s : List Char) :
    splitOutside depth (Text.fold s) = (splitOutside depth s).map (List.map Text.fold) := by
  have hcons (c : Char) (pieces : Option (List (List Char))) :
      (pieces.map (Text.consHead c)).map (List.map Text.fold) =
        (pieces.map (List.map Text.fold)).map (Text.consHead c.toLower) := by
    cases pieces with
    | none => rfl
    | some pieces => exact congrArg some (Text.consHead_fold c pieces).symm
  fun_induction splitOutside depth s with
  | case1 => rfl
  | case2 rest ih =>
    change splitOutside 0 (',' :: Text.fold rest) = _
    rw [splitOutside, if_pos rfl, ih, Option.map_map, Option.map_map]
    rfl
  | case3 depth rest hdepth ih =>
    change splitOutside depth (',' :: Text.fold rest) = _
    rw [splitOutside, if_neg hdepth, ih, hcons]
    rfl
  | case4 depth rest ih =>
    change splitOutside depth ('(' :: Text.fold rest) = _
    rw [splitOutside, ih, hcons]
    rfl
  | case5 => rfl
  | case6 rest depth ih =>
    change splitOutside (depth + 1) (')' :: Text.fold rest) = _
    rw [splitOutside, ih, hcons]
    rfl
  | case7 depth c rest hcomma hopen hclose ih =>
    rw [Text.fold_cons, splitOutside, ih, hcons]
    · exact mt (Text.toLower_eq_mark (by decide)).mp hcomma
    · exact mt (Text.toLower_eq_mark (by decide)).mp hopen
    · exact mt (Text.toLower_eq_mark (by decide)).mp hclose

theorem Operand.read_foldText (token : String) : read (Text.foldText token) = read token := by
  have hfilter : (Text.fold token.toList).filter (!Text.isBlank ·) =
      Text.fold (token.toList.filter (!Text.isBlank ·)) := by
    simp [Text.fold, List.filter_map, Function.comp_def]
  simp only [read, Text.toList_foldText, hfilter, Text.upper_fold]

end SuperH
