import Mathlib.Data.List.Infix
import SuperH.Proofs.Names

/-!
# Statements as they are written

A statement that is written as a label, a mnemonic and operands, with gaps of any width between
them, is read back as these. Conversely the operands that are read from a text make up the text
again, but for blanks: it is cut at the commas outside parentheses and nowhere else. Parentheses are
counted on the parts of a text from its start.
-/
namespace SuperH

/-! ## Parentheses -/

/-- Where `depth` parentheses are open before the text, it closes none that is not open. -/
def Closable (depth : Nat) (s : List Char) : Prop :=
  ∀ p, p <+: s → p.count ')' ≤ depth + p.count '('

/-- Where `depth` parentheses are open before the text, each of its commas stands inside some. -/
def Enclosed (depth : Nat) (s : List Char) : Prop :=
  ∀ p, p ++ [','] <+: s → p.count ')' < depth + p.count '('

instance (depth : Nat) (s : List Char) : Decidable (Closable depth s) :=
  decidable_of_iff (s.inits.all fun p => p.count ')' ≤ depth + p.count '(')
    (by simp [Closable])

instance (depth : Nat) (s : List Char) : Decidable (Enclosed depth s) :=
  decidable_of_iff
    (s.inits.all fun p => (p ++ [',']).isPrefixOf s → p.count ')' < depth + p.count '(') (by
      simp only [List.all_eq_true, List.mem_inits, List.isPrefixOf_iff_prefix, decide_eq_true_eq]
      exact ⟨fun h p hp => h p ((List.prefix_append p _).trans hp) hp, fun h p _ => h p⟩)

private theorem closable_nil (depth : Nat) : Closable depth [] := by
  intro p hp
  rw [List.prefix_nil.mp hp]
  simp

private theorem closable_cons {depth : Nat} {c : Char} {s : List Char} :
    Closable depth (c :: s) ↔
      ∀ p, p <+: s → (c :: p).count ')' ≤ depth + (c :: p).count '(' := by
  constructor
  · intro h p hp
    exact h (c :: p) ((List.prefix_cons_inj c).mpr hp)
  · intro h p hp
    rcases List.prefix_cons_iff.mp hp with rfl | ⟨q, rfl, hq⟩
    · simp
    · exact h q hq

private theorem enclosed_nil (depth : Nat) : Enclosed depth [] := by
  intro p hp
  simp at hp

private theorem enclosed_cons {depth : Nat} {c : Char} {s : List Char} :
    Enclosed depth (c :: s) ↔ (c = ',' → 0 < depth) ∧
      ∀ p, p ++ [','] <+: s → (c :: p).count ')' < depth + (c :: p).count '(' := by
  constructor
  · intro h
    refine ⟨?_, fun p hp => h (c :: p) ((List.prefix_cons_inj c).mpr hp)⟩
    rintro rfl
    simpa using h [] (by simp)
  · rintro ⟨hcomma, h⟩ p hp
    cases p with
    | nil =>
      have hc : c = ',' := by simpa [eq_comm] using hp
      simpa using hcomma hc
    | cons d p =>
      obtain ⟨hd, hp⟩ := List.cons_prefix_cons.mp hp
      rw [hd]
      exact h p hp

section Step

variable {depth : Nat} {c : Char} {s : List Char}

private theorem closable_open : Closable depth ('(' :: s) ↔ Closable (depth + 1) s := by
  rw [closable_cons]
  refine forall₂_congr fun p _ => ?_
  simp
  omega

private theorem closable_close : Closable (depth + 1) (')' :: s) ↔ Closable depth s := by
  rw [closable_cons]
  refine forall₂_congr fun p _ => ?_
  simp
  omega

private theorem not_closable_close : ¬ Closable 0 (')' :: s) := by
  intro h
  have hfirst := h [')'] (by simp)
  simp at hfirst

private theorem closable_other (hopen : c ≠ '(') (hclose : c ≠ ')') :
    Closable depth (c :: s) ↔ Closable depth s := by
  rw [closable_cons]
  refine forall₂_congr fun p _ => ?_
  simp [hopen, hclose]

private theorem enclosed_open : Enclosed depth ('(' :: s) ↔ Enclosed (depth + 1) s := by
  rw [enclosed_cons]
  refine (and_iff_right (by simp)).trans (forall₂_congr fun p _ => ?_)
  simp
  omega

private theorem enclosed_close : Enclosed (depth + 1) (')' :: s) ↔ Enclosed depth s := by
  rw [enclosed_cons]
  refine (and_iff_right (by simp)).trans (forall₂_congr fun p _ => ?_)
  simp
  omega

private theorem enclosed_comma : Enclosed depth (',' :: s) ↔ 0 < depth ∧ Enclosed depth s := by
  rw [enclosed_cons]
  refine and_congr (by simp) (forall₂_congr fun p _ => ?_)
  simp

private theorem enclosed_other (hcomma : c ≠ ',') (hopen : c ≠ '(') (hclose : c ≠ ')') :
    Enclosed depth (c :: s) ↔ Enclosed depth s := by
  rw [enclosed_cons]
  refine (and_iff_right (by simp [hcomma])).trans (forall₂_congr fun p _ => ?_)
  simp [hopen, hclose]

end Step

/-! ## Cutting at commas -/

/-- Cutting runs through a text whose commas are enclosed, and goes on at the depth it leaves. -/
theorem splitOutside_append {depth : Nat} {s : List Char} (hclosable : Closable depth s)
    (henclosed : Enclosed depth s) (rest : List Char) :
    splitOutside depth (s ++ rest) =
      (splitOutside (depth + s.count '(' - s.count ')') rest).map
        fun pieces => s.foldr Text.consHead pieces := by
  induction depth, s using splitOutside.induct with
  | case1 depth => simp
  | case2 s _ => exact absurd (enclosed_comma.mp henclosed).1 (Nat.lt_irrefl 0)
  | case3 depth s hdepth ih =>
    rw [closable_other (by decide) (by decide)] at hclosable
    rw [List.cons_append, splitOutside, if_neg hdepth,
      ih hclosable (enclosed_comma.mp henclosed).2, Option.map_map]
    simp [Function.comp_def]
  | case4 depth s ih =>
    have hdepth : depth + ('(' :: s).count '(' - ('(' :: s).count ')' =
        depth + 1 + s.count '(' - s.count ')' := by
      simp
      omega
    rw [List.cons_append, splitOutside, hdepth,
      ih (closable_open.mp hclosable) (enclosed_open.mp henclosed), Option.map_map]
    rfl
  | case5 s => exact absurd hclosable not_closable_close
  | case6 s depth ih =>
    have hdepth : depth + 1 + (')' :: s).count '(' - (')' :: s).count ')' =
        depth + s.count '(' - s.count ')' := by
      simp
      omega
    rw [List.cons_append, splitOutside, hdepth,
      ih (closable_close.mp hclosable) (enclosed_close.mp henclosed), Option.map_map]
    rfl
  | case7 depth c s hcomma hopen hclose ih =>
    rw [closable_other hopen hclose] at hclosable
    rw [enclosed_other hcomma hopen hclose] at henclosed
    rw [List.cons_append, splitOutside, ih hclosable henclosed, Option.map_map,
      List.count_cons_of_ne hopen, List.count_cons_of_ne hclose]
    · rfl
    all_goals assumption

theorem splitOutside_eq_none_iff {depth : Nat} {s : List Char} :
    splitOutside depth s = none ↔ ¬ Closable depth s := by
  fun_induction splitOutside depth s with
  | case1 depth => simp [closable_nil]
  | case2 rest ih =>
    rw [Option.map_eq_none_iff, ih, closable_other (by decide) (by decide)]
  | case3 depth rest _ ih =>
    rw [Option.map_eq_none_iff, ih, closable_other (by decide) (by decide)]
  | case4 depth rest ih => rw [Option.map_eq_none_iff, ih, closable_open]
  | case5 rest => simp [not_closable_close]
  | case6 rest depth ih => rw [Option.map_eq_none_iff, ih, closable_close]
  | case7 depth c rest _ hopen hclose ih =>
    rw [Option.map_eq_none_iff, ih, closable_other hopen hclose]

/-- The pieces of a text between the commas outside parentheses. A piece that a comma follows leaves
no parenthesis open. -/
inductive Pieces : Nat → List (List Char) → Prop
  | last {depth piece} : Enclosed depth piece → Pieces depth [piece]
  | cons {depth piece pieces} : Enclosed depth piece →
      piece.count ')' = depth + piece.count '(' → Pieces 0 pieces → Pieces depth (piece :: pieces)

theorem Pieces.ne_nil {depth : Nat} {pieces : List (List Char)} (h : Pieces depth pieces) :
    pieces ≠ [] := by
  cases h <;> simp

theorem Pieces.consHead {before depth : Nat} {c : Char} {pieces : List (List Char)}
    (h : Pieces depth pieces) (henclosed : ∀ s, Enclosed depth s → Enclosed before (c :: s))
    (hcount : ∀ s : List Char, s.count ')' = depth + s.count '(' →
      (c :: s).count ')' = before + (c :: s).count '(') :
    Pieces before (Text.consHead c pieces) := by
  cases h with
  | last hpiece => exact .last (henclosed _ hpiece)
  | cons hpiece hclosed hrest => exact .cons (henclosed _ hpiece) (hcount _ hclosed) hrest

private theorem intercalate_consHead {sep : List Char} (c : Char) {pieces : List (List Char)}
    (h : pieces ≠ []) :
    sep.intercalate (Text.consHead c pieces) = c :: sep.intercalate pieces := by
  match pieces with
  | [] => exact absurd rfl h
  | [piece] => simp [Text.consHead]
  | piece :: next :: rest => simp [Text.consHead]

private theorem pieces_of_splitOutside {depth : Nat} {s : List Char} {pieces : List (List Char)}
    (h : splitOutside depth s = some pieces) :
    Pieces depth pieces ∧ [','].intercalate pieces = s := by
  fun_induction splitOutside depth s generalizing pieces with
  | case1 depth =>
    cases h
    exact ⟨.last (enclosed_nil depth), by simp⟩
  | case2 s ih =>
    obtain ⟨pieces, hs, rfl⟩ := Option.map_eq_some_iff.mp h
    obtain ⟨hpieces, rfl⟩ := ih hs
    refine ⟨.cons (enclosed_nil 0) (by simp) hpieces, ?_⟩
    obtain ⟨piece, rest, rfl⟩ := List.exists_cons_of_ne_nil hpieces.ne_nil
    simp
  | case3 depth s hdepth ih =>
    obtain ⟨pieces, hs, rfl⟩ := Option.map_eq_some_iff.mp h
    obtain ⟨hpieces, rfl⟩ := ih hs
    refine ⟨hpieces.consHead ?_ ?_, intercalate_consHead _ hpieces.ne_nil⟩
    · exact fun s hs => enclosed_comma.mpr ⟨Nat.pos_of_ne_zero hdepth, hs⟩
    · simp
  | case4 depth s ih =>
    obtain ⟨pieces, hs, rfl⟩ := Option.map_eq_some_iff.mp h
    obtain ⟨hpieces, rfl⟩ := ih hs
    refine ⟨hpieces.consHead (fun _ => enclosed_open.mpr) ?_,
      intercalate_consHead _ hpieces.ne_nil⟩
    intro s hs
    simp
    omega
  | case5 s => cases h
  | case6 s depth ih =>
    obtain ⟨pieces, hs, rfl⟩ := Option.map_eq_some_iff.mp h
    obtain ⟨hpieces, rfl⟩ := ih hs
    refine ⟨hpieces.consHead (fun _ => enclosed_close.mpr) ?_,
      intercalate_consHead _ hpieces.ne_nil⟩
    intro s hs
    simp
    omega
  | case7 depth c s hcomma hopen hclose ih =>
    obtain ⟨pieces, hs, rfl⟩ := Option.map_eq_some_iff.mp h
    obtain ⟨hpieces, rfl⟩ := ih hs
    refine ⟨hpieces.consHead (fun _ => (enclosed_other hcomma hopen hclose).mpr) ?_,
      intercalate_consHead _ hpieces.ne_nil⟩
    intro s hs
    rwa [List.count_cons_of_ne hopen, List.count_cons_of_ne hclose]

private theorem Pieces.enclosed {pieces : List (List Char)} (h : Pieces 0 pieces)
    {piece : List Char} (hpiece : piece ∈ pieces) : Enclosed 0 piece := by
  generalize hdepth : 0 = depth at h
  induction h with
  | last henclosed =>
    subst hdepth
    rwa [List.mem_singleton.mp hpiece]
  | cons henclosed _ _ ih =>
    subst hdepth
    rcases List.mem_cons.mp hpiece with rfl | hpiece
    · exact henclosed
    · exact ih hpiece rfl

/-- Only the last piece may leave parentheses open. -/
theorem Pieces.count_eq {pieces : List (List Char)} (h : Pieces 0 pieces) {piece : List Char}
    (hpiece : piece ∈ pieces.dropLast) : piece.count '(' = piece.count ')' := by
  generalize hdepth : 0 = depth at h
  induction h with
  | last _ => simp at hpiece
  | cons _ hcount hrest ih =>
    subst hdepth
    rw [List.dropLast_cons_of_ne_nil hrest.ne_nil] at hpiece
    rcases List.mem_cons.mp hpiece with rfl | hpiece
    · omega
    · exact ih hpiece rfl

namespace Text

private theorem trim_append_of_blank {blanks : List Char} (h : ∀ c ∈ blanks, isBlank c = true)
    (s : List Char) : trim (blanks ++ s) = trim s := by
  rw [trim, trimStart, List.dropWhile_append_of_pos h, ← trimStart, ← trim]

private theorem Pads.trim_eq {s padded : List Char} (h : Pads s padded) (hs : Trimmed s) :
    trim padded = s := by
  obtain ⟨before, after, hbefore, hafter, rfl⟩ := h
  rw [trim_append_of_blank hbefore]
  by_cases hnil : s = []
  · rw [hnil, List.nil_append, ← List.append_nil after, trim_append_of_blank hafter]
    rfl
  · exact hs.trim_append hnil hafter

private theorem cutAtBlank_append_of_blank {s rest : List Char} (h : ∀ c ∈ s, isBlank c = false)
    (hrest : ∀ c, rest.head? = some c → isBlank c = true) :
    cutAtBlank (s ++ rest) = (s, trim rest) := by
  have hall : ∀ c ∈ s, (!isBlank c) = true := by simpa using h
  have hcut : rest.takeWhile (!isBlank ·) = [] ∧ rest.dropWhile (!isBlank ·) = rest := by
    cases rest with
    | nil => exact ⟨rfl, rfl⟩
    | cons c rest => simp [hrest c rfl]
  rw [cutAtBlank, List.takeWhile_append_of_pos hall, List.dropWhile_append_of_pos hall, hcut.1,
    hcut.2, List.append_nil]

private theorem count_of_blank {blanks : List Char} (h : ∀ c ∈ blanks, isBlank c = true) {c : Char}
    (hc : isBlank c = false) : blanks.count c = 0 := by
  rw [List.count_eq_zero]
  intro hmem
  rw [h c hmem] at hc
  cases hc

private theorem Pads.count_eq {s padded : List Char} (h : Pads s padded) {c : Char}
    (hc : isBlank c = false) : padded.count c = s.count c := by
  obtain ⟨before, after, hbefore, hafter, rfl⟩ := h
  rw [List.count_append, List.count_append, count_of_blank hbefore hc, count_of_blank hafter hc]
  omega

private theorem Pads.enclosed {s padded : List Char} (h : Pads s padded) {depth : Nat}
    (hpadded : Enclosed depth padded) : Enclosed depth s := by
  obtain ⟨before, after, hbefore, _, rfl⟩ := h
  intro p hp
  have hprefix : (before ++ p) ++ [','] <+: before ++ (s ++ after) := by
    rw [List.append_assoc, List.prefix_append_right_inj]
    exact hp.trans (List.prefix_append s after)
  have hcounts := hpadded (before ++ p) hprefix
  rwa [List.count_append, List.count_append, count_of_blank hbefore (by decide),
    count_of_blank hbefore (by decide), Nat.zero_add, Nat.zero_add] at hcounts

end Text

/-! ## Operands of a text -/

theorem operandTexts_eq_ok {args : String} {ops : List String} (h : operandTexts args = .ok ops) :
    (∀ op ∈ ops, op ≠ "" ∧ Text.Trimmed op.toList ∧ Enclosed 0 op.toList) ∧
    (∀ op ∈ ops.dropLast, op.toList.count '(' = op.toList.count ')') ∧
    ∃ pieces, Text.Pads ([','].intercalate pieces) args.toList ∧
      List.Forall₂ (fun op piece => Text.Pads op.toList piece) ops pieces := by
  unfold operandTexts at h
  dsimp only at h
  split at h
  · rename_i hblank
    cases h
    have hpads := Text.pads_trim args.toList
    rw [hblank] at hpads
    exact ⟨by simp, by simp, [], by simpa using hpads, .nil⟩
  · split at h
    · cases h
    · rename_i pieces hpieces
      split at h
      · cases h
      · rename_i hempty
        cases h
        obtain ⟨hpieces, hargs⟩ := pieces_of_splitOutside hpieces
        rw [List.map_map]
        refine ⟨?_, ?_, pieces, ⟨[], [], by simp, by simp, by simp [hargs]⟩, ?_⟩
        · intro op hop
          obtain ⟨piece, hpiece, rfl⟩ := List.mem_map.mp hop
          rw [Function.comp_apply, String.toList_ofList]
          refine ⟨?_, Text.trimmed_trim piece,
            (Text.pads_trim piece).enclosed (hpieces.enclosed hpiece)⟩
          intro hnil
          rw [List.contains_iff_mem, ← String.ofList_eq_empty_iff.mp hnil] at hempty
          exact hempty (List.mem_map_of_mem hpiece)
        · intro op hop
          rw [← List.map_dropLast] at hop
          obtain ⟨piece, hpiece, rfl⟩ := List.mem_map.mp hop
          have hpads := Text.pads_trim piece
          rw [Function.comp_apply, String.toList_ofList, ← hpads.count_eq (by decide),
            ← hpads.count_eq (by decide), hpieces.count_eq hpiece]
        · rw [List.forall₂_map_left_iff, List.forall₂_same]
          intro piece _
          rw [Function.comp_apply, String.toList_ofList]
          exact Text.pads_trim piece

private theorem operandTexts_eq_malformed {args found : String} :
    operandTexts args = .error (.malformedOperand found) ↔
      found = String.ofList (Text.trim args.toList) ∧
        ∃ p, p <+: args.toList ∧ p.count '(' < p.count ')' := by
  have hnone : splitOutside 0 args.toList = none ↔
      ∃ p, p <+: args.toList ∧ p.count '(' < p.count ')' := by
    simp [splitOutside_eq_none_iff, Closable]
  rw [← hnone]
  unfold operandTexts
  dsimp only
  split
  · rename_i hblank
    have hclosable : Closable 0 args.toList := by
      intro p hp
      have hp : ∀ c ∈ p, Text.isBlank c = true := fun c hc =>
        Text.trim_eq_nil.mp hblank c (hp.subset hc)
      rw [Text.count_of_blank hp (by decide)]
      exact Nat.zero_le _
    simp [splitOutside_eq_none_iff, hclosable]
  · split
    · rename_i h
      simp [h, eq_comm]
    · rename_i h
      split <;> simp [h]

/-! ## Statements with gaps -/

def Text.Gap (s : List Char) : Prop :=
  ∀ c ∈ s, c = ' ' ∨ c = '\t'

theorem Text.Gap.blank {s : List Char} (h : Gap s) : ∀ c ∈ s, isBlank c = true := by
  intro c hc
  rcases h c hc with rfl | rfl <;> decide

theorem Text.Gap.plain {s : List Char} (h : Gap s) : ∀ c ∈ s, c ≠ '\n' ∧ c ≠ ':' := by
  intro c hc
  rcases h c hc with rfl | rfl <;> decide

/-- All parentheses of a text are closed in it, each one after it was opened. -/
structure Balanced (s : List Char) : Prop where
  closable : Closable 0 s
  count_eq : s.count '(' = s.count ')'

/-- An operand as it is written, with the gaps around the comma that follows it, if one does. -/
structure SpacedOperand where
  text : String
  before : List Char
  after : List Char
  ne_empty : text ≠ ""
  trimmed : Text.Trimmed text.toList
  plain : ∀ c ∈ text.toList, c ≠ '\n' ∧ c ≠ ':'
  balanced : Balanced text.toList
  enclosed : Enclosed 0 text.toList
  before_gap : Text.Gap before
  after_gap : Text.Gap after

namespace SpacedOperand

def join : List SpacedOperand → List Char
  | [] => []
  | [operand] => operand.text.toList
  | operand :: rest =>
    operand.text.toList ++ (operand.before ++ ',' :: (operand.after ++ join rest))

theorem uncut (operand : SpacedOperand) : Uncut 0 operand.text.toList := by
  intro rest
  rw [splitOutside_append operand.balanced.closable operand.enclosed, Nat.zero_add,
    operand.balanced.count_eq, Nat.sub_self]

private theorem toList_ne_nil (operand : SpacedOperand) : operand.text.toList ≠ [] := by
  intro h
  exact operand.ne_empty (String.toList_eq_nil_iff.mp h)

private theorem splitOutside_join {blanks : List Char}
    (hblanks : ∀ c ∈ blanks, Text.isBlank c = true)
    (operand : SpacedOperand) (rest : List SpacedOperand) :
    ∃ pieces, splitOutside 0 (blanks ++ join (operand :: rest)) = some pieces ∧
      pieces.map Text.trim = (operand :: rest).map (·.text.toList) := by
  have huncut {s : List Char} (hs : ∀ c ∈ s, Text.isBlank c = true) : Uncut 0 s := by
    apply uncut_of_flat
    intro c hc
    have hblank := hs c hc
    refine ⟨?_, ?_, ?_⟩ <;> rintro rfl <;> exact absurd hblank (by decide)
  induction rest generalizing blanks operand with
  | nil =>
    have hpiece := ((huncut hblanks).append operand.uncut) []
    rw [List.append_nil, splitOutside, Option.map_some, foldr_consHead, List.append_nil] at hpiece
    refine ⟨_, hpiece, ?_⟩
    rw [List.map_singleton, Text.trim_append_of_blank hblanks, operand.trimmed.trim_eq_self]
    rfl
  | cons next rest ih =>
    obtain ⟨pieces, hpieces, htexts⟩ := ih operand.after_gap.blank next
    have hpiece := (huncut hblanks).append (operand.uncut.append (huncut operand.before_gap.blank))
      (',' :: (operand.after ++ join (next :: rest)))
    rw [splitOutside, if_pos rfl, hpieces, Option.map_some, Option.map_some, foldr_consHead,
      List.append_nil] at hpiece
    have hjoin : join (operand :: next :: rest) = operand.text.toList ++
        (operand.before ++ ',' :: (operand.after ++ join (next :: rest))) := rfl
    refine ⟨(blanks ++ (operand.text.toList ++ operand.before)) :: pieces, ?_, ?_⟩
    · rw [hjoin, ← hpiece]
      simp only [List.append_assoc]
    · have htrim : Text.trim (operand.text.toList ++ operand.before) = operand.text.toList :=
        operand.trimmed.trim_append operand.toList_ne_nil operand.before_gap.blank
      rw [List.map_cons, Text.trim_append_of_blank hblanks, htrim, htexts]
      rfl

private theorem join_ne_nil (operand : SpacedOperand) (rest : List SpacedOperand) :
    join (operand :: rest) ≠ [] := by
  cases rest with
  | nil => exact operand.toList_ne_nil
  | cons next rest => simp [join]

private theorem trimmed_join (operands : List SpacedOperand) : Text.Trimmed (join operands) := by
  induction operands with
  | nil => exact Text.trimmed_of_solid (by simp [join])
  | cons operand rest ih =>
    cases rest with
    | nil => exact operand.trimmed
    | cons next rest =>
      have hjoin : join (operand :: next :: rest) = operand.text.toList ++
          ((operand.before ++ ',' :: operand.after) ++ join (next :: rest)) := by
        simp [join]
      rw [hjoin]
      exact operand.trimmed.append ih operand.toList_ne_nil (join_ne_nil next rest) _

private theorem operandTexts_join (operands : List SpacedOperand) :
    operandTexts (String.ofList (join operands)) = .ok (operands.map (·.text)) := by
  cases operands with
  | nil => rfl
  | cons operand rest =>
    obtain ⟨pieces, hpieces, htexts⟩ := splitOutside_join (List.forall_mem_nil _) operand rest
    have hempty : (pieces.map Text.trim).contains [] = false := by
      rw [htexts, ← Bool.not_eq_true, List.contains_iff_mem]
      intro hmem
      obtain ⟨other, _, hother⟩ := List.mem_map.mp hmem
      exact other.toList_ne_nil hother
    rw [List.nil_append] at hpieces
    simp only [operandTexts, String.toList_ofList, (trimmed_join _).trim_eq_self,
      join_ne_nil operand rest, if_false, hpieces, hempty, Bool.false_eq_true]
    rw [htexts, List.map_map]
    simp [Function.comp_def]

private theorem plain_join {operands : List SpacedOperand} {c : Char} (h : c ∈ join operands) :
    c ≠ '\n' ∧ c ≠ ':' := by
  induction operands with
  | nil => cases h
  | cons operand rest ih =>
    cases rest with
    | nil => exact operand.plain c h
    | cons next rest =>
      simp only [join, List.mem_append, List.mem_cons] at h
      rcases h with h | h | rfl | h | h
      · exact operand.plain c h
      · exact operand.before_gap.plain c h
      · decide
      · exact operand.after_gap.plain c h
      · exact ih (by simpa [join] using h)

end SpacedOperand

/-- A statement as it is written: a label and a gap after its colon, if there is a label, then a
mnemonic, a gap and operands. -/
structure SpacedCode where
  label : Option String
  afterColon : List Char
  mnemonic : String
  afterMnemonic : List Char
  operands : List SpacedOperand
  identifier : ∀ name, label = some name → isIdentifier name = true
  ne_empty : mnemonic ≠ ""
  solid : ∀ c ∈ mnemonic.toList, Text.isBlank c = false ∧ c ≠ ':'
  noDirective : mnemonic.toList.head? ≠ some '.'
  afterColon_gap : Text.Gap afterColon
  afterMnemonic_gap : Text.Gap afterMnemonic
  separated : operands ≠ [] → afterMnemonic ≠ []

namespace SpacedCode

def body (code : SpacedCode) : List Char :=
  code.mnemonic.toList ++ (code.afterMnemonic ++ SpacedOperand.join code.operands)

def text (code : SpacedCode) : String :=
  match code.label with
  | some name => String.ofList (name.toList ++ ':' :: (code.afterColon ++ code.body))
  | none => String.ofList code.body

def written (code : SpacedCode) : WrittenCode :=
  ⟨code.label.map Text.upcase,
    some ⟨Text.upcase code.mnemonic, code.operands.map (·.text)⟩⟩

private theorem mnemonic_ne_nil (code : SpacedCode) : code.mnemonic.toList ≠ [] := by
  intro h
  exact code.ne_empty (String.toList_eq_nil_iff.mp h)

private theorem plain_body {code : SpacedCode} {c : Char} (h : c ∈ code.body) :
    c ≠ '\n' ∧ c ≠ ':' := by
  simp only [body, List.mem_append] at h
  rcases h with h | h | h
  · have hsolid := code.solid c h
    refine ⟨?_, hsolid.2⟩
    rintro rfl
    exact absurd hsolid.1 (by decide)
  · exact code.afterMnemonic_gap.plain c h
  · exact SpacedOperand.plain_join h

private theorem trimStart_body (code : SpacedCode) {blanks : List Char}
    (hblanks : ∀ c ∈ blanks, Text.isBlank c = true) :
    Text.trimStart (blanks ++ code.body) = code.body := by
  have hstart : Text.trimStart code.body = code.body := by
    apply Text.trimStart_eq_self
    intro c hc
    rw [body, List.head?_append_of_ne_nil _ code.mnemonic_ne_nil] at hc
    exact (code.solid c (List.mem_of_head? hc)).1
  rw [Text.trimStart, List.dropWhile_append_of_pos hblanks]
  exact hstart

private theorem takeLabel_text (code : SpacedCode) :
    takeLabel code.text.toList = .ok (code.label.map Text.upcase, code.body) := by
  rw [text]
  cases hlabel : code.label with
  | none =>
    have hnone : labelled? code.body = none := by
      cases hread : labelled? code.body with
      | none => rfl
      | some found =>
        have hcolon := (labelled?_sublist hread).subset List.mem_cons_self
        exact absurd rfl (plain_body hcolon).2
    dsimp only
    rw [String.toList_ofList, takeLabel, hnone]
    rfl
  | some name =>
    have hbody := code.trimStart_body code.afterColon_gap.blank
    have hname := isLabelName_of_identifier (code.identifier name hlabel)
    have hline : '\n' ∉ Text.trimStart (code.afterColon ++ code.body) := by
      rw [hbody]
      exact fun hmem => (plain_body hmem).1 rfl
    dsimp only
    rw [String.toList_ofList, takeLabel_append hname hline, hbody]
    rfl

private theorem cutAtBlank_body (code : SpacedCode) :
    Text.cutAtBlank code.body = (code.mnemonic.toList, SpacedOperand.join code.operands) := by
  have hblank : ∀ c, (code.afterMnemonic ++ SpacedOperand.join code.operands).head? = some c →
      Text.isBlank c = true := by
    intro c hc
    cases hgap : code.afterMnemonic with
    | nil =>
      have hnone : code.operands = [] := by
        by_contra hne
        exact code.separated hne hgap
      rw [hgap, hnone] at hc
      cases hc
    | cons b gap =>
      have hb : b = c := by simpa [hgap] using hc
      apply code.afterMnemonic_gap.blank
      rw [hgap, hb]
      exact List.mem_cons_self
  have hpads : Text.Pads (SpacedOperand.join code.operands)
      (code.afterMnemonic ++ SpacedOperand.join code.operands) :=
    ⟨code.afterMnemonic, [], code.afterMnemonic_gap.blank, by simp, by simp⟩
  rw [body, Text.cutAtBlank_append_of_blank (fun c hc => (code.solid c hc).1) hblank,
    hpads.trim_eq (SpacedOperand.trimmed_join code.operands)]

theorem parse_text (code : SpacedCode) : WrittenCode.parse code.text = .ok code.written := by
  have hne : code.body ≠ [] := by
    simp [body, code.ne_empty]
  rw [WrittenCode.parse, takeLabel_text]
  simp only [bind, Except.bind, hne, if_false, cutAtBlank_body, code.noDirective,
    SpacedOperand.operandTexts_join]
  rfl

end SpacedCode

/-- A statement that is written with gaps of any width is read back as it was meant. Conversely, the
operands read from a text are not empty and have no blanks around them, their commas are enclosed,
only the last may leave parentheses open, and with commas between them they give the text again, but
for blanks. A text is refused as malformed just if it closes a parenthesis that is not open. -/
theorem WrittenCode.parse_undoes_text :
    (∀ code : SpacedCode, WrittenCode.parse code.text = .ok code.written) ∧
    ∀ args : String,
      (∀ ops, operandTexts args = .ok ops →
        (∀ op ∈ ops, op ≠ "" ∧ Text.Trimmed op.toList ∧ Enclosed 0 op.toList) ∧
        (∀ op ∈ ops.dropLast, op.toList.count '(' = op.toList.count ')') ∧
        ∃ pieces, Text.Pads ([','].intercalate pieces) args.toList ∧
          List.Forall₂ (fun op piece => Text.Pads op.toList piece) ops pieces) ∧
      ∀ found, operandTexts args = .error (.malformedOperand found) ↔
        found = String.ofList (Text.trim args.toList) ∧
          ∃ p, p <+: args.toList ∧ p.count '(' < p.count ')' :=
  ⟨SpacedCode.parse_text, fun _ => ⟨fun _ => operandTexts_eq_ok, fun _ =>
    operandTexts_eq_malformed⟩⟩

/-- A tab follows the colon, and the comma that separates the operands is not the first one. -/
theorem WrittenCode.parse_undoes_text_gaps :
    WrittenCode.parse "loop:\tmov.l @(4, PC) ,R1" =
      .ok ⟨some "LOOP", some ⟨"MOV.L", ["@(4, PC)", "R1"]⟩⟩ := by
  have hplain (s : String) (h : s.toList.all (fun c => c != '\n' && c != ':') = true) :
      ∀ c ∈ s.toList, c ≠ '\n' ∧ c ≠ ':' := by
    simpa using h
  have htrimmed (s : String) (h : Text.trim s.toList = s.toList) : Text.Trimmed s.toList := by
    rw [← h]
    exact Text.trimmed_trim s.toList
  have hgap : Text.Gap [' '] ∧ Text.Gap ['\t'] ∧ Text.Gap [] := by simp [Text.Gap]
  have hsolid : ∀ c ∈ "mov.l".toList, Text.isBlank c = false ∧ c ≠ ':' := by
    have hall : "mov.l".toList.all (fun c => !Text.isBlank c && c != ':') = true := by decide
    simpa using hall
  obtain ⟨code, htext, hwritten⟩ : ∃ code : SpacedCode,
      code.text = "loop:\tmov.l @(4, PC) ,R1" ∧
        code.written = ⟨some "LOOP", some ⟨"MOV.L", ["@(4, PC)", "R1"]⟩⟩ := by
    refine ⟨{
      label := some "loop"
      afterColon := ['\t']
      mnemonic := "mov.l"
      afterMnemonic := [' ']
      operands :=
        [⟨"@(4, PC)", [' '], [], by decide, htrimmed _ (by decide), hplain _ (by decide),
          ⟨by decide, by decide⟩, by decide, hgap.1, hgap.2.2⟩,
         ⟨"R1", [], [], by decide, htrimmed _ (by decide), hplain _ (by decide),
          ⟨by decide, by decide⟩, by decide, hgap.2.2, hgap.2.2⟩]
      identifier := fun name hname => by
        cases hname
        decide
      ne_empty := by decide
      solid := hsolid
      noDirective := by decide
      afterColon_gap := hgap.2.1
      afterMnemonic_gap := hgap.1
      separated := by simp }, ?_, ?_⟩
    · simp only [SpacedCode.text, SpacedCode.body, SpacedOperand.join]
      decide
    · simp only [SpacedCode.written, Option.map_some, List.map_cons, List.map_nil]
      decide
  rw [← htext, ← hwritten]
  exact WrittenCode.parse_undoes_text.1 code

end SuperH
