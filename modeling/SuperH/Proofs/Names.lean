import SuperH.Proofs.Lexing
import SuperH.Proofs.Linking
import SuperH.Proofs.Streams

/-!
# Names in upper case

Labels, where they are defined and where they are branched to, are identifiers in upper case. Names
are written in ASCII, and an ASCII character that comes out of a case mapping is not changed by it
a second time, not even if it stems from a character outside ASCII.
-/
namespace SuperH

namespace Text

theorem of_ascii {P : Char → Prop} (h : ∀ n < 128, P (Char.ofNat n)) {c : Char}
    (hc : c.toNat < 128) : P c := by
  rw [← Char.ofNat_toNat c]
  exact h c.toNat hc

theorem ascii_of_le {c last : Char} (h : c ≤ last) (hlast : last.toNat < 128) : c.toNat < 128 :=
  Nat.lt_of_le_of_lt (UInt32.le_iff_toNat_le.mp h) hlast

theorem toLower_of_not_ascii {c : Char} (hc : ¬ c.toNat < 128) : c.toLower = c := by
  have hupper : ¬ (c.val ≥ 'A'.val ∧ c.val ≤ 'Z'.val) := fun h => hc (ascii_of_le h.2 (by decide))
  exact dif_neg hupper

private theorem upperChar_of_ascii {c : Char} (hc : c.toNat < 128) : upperChar c = [c.toUpper] :=
  if_pos hc

/-- The run leads to a single character in upper case, or out of ASCII. -/
def CaseRun.leadsUp (run : CaseRun) : Bool :=
  128 ≤ run.first + run.shift ||
    run.first == run.last &&
      (Char.ofNat (run.first + run.shift).toNat).toUpper == Char.ofNat (run.first + run.shift).toNat

private theorem upperRuns_leadUp : ∀ run ∈ upperRuns, run.leadsUp = true := by
  decide +kernel

private theorem upperExpansions_upper : ∀ row ∈ upperExpansions, ∀ n ∈ row.2,
    (Char.ofNat n).toUpper = Char.ofNat n := by
  decide

private theorem toUpper_shiftCase {c : Char} (h : 128 ≤ c.toNat)
    (hascii : (shiftCase upperRuns c).toNat < 128) :
    (shiftCase upperRuns c).toUpper = shiftCase upperRuns c := by
  unfold shiftCase at hascii ⊢
  cases hrun : upperRuns.find? (·.contains c.toNat) with
  | none =>
    rw [hrun] at hascii
    exact absurd hascii (Nat.not_lt.mpr h)
  | some run =>
    simp only [hrun] at hascii ⊢
    have hcontains : run.contains c.toNat = true := by simpa using List.find?_some hrun
    have hleads := upperRuns_leadUp run (List.mem_of_find?_eq_some hrun)
    simp only [CaseRun.contains, Bool.and_eq_true, decide_eq_true_eq] at hcontains
    simp only [CaseRun.leadsUp, Bool.or_eq_true, Bool.and_eq_true, decide_eq_true_eq,
      beq_iff_eq] at hleads
    rcases hleads with hout | ⟨hsingle, hupper⟩
    · have hn : 128 ≤ (c.toNat + run.shift).toNat := by omega
      generalize (c.toNat + run.shift).toNat = n at hn hascii ⊢
      -- Past ASCII only the numbers of no character remain, and they stand for NUL.
      by_cases hvalid : n.isValidChar
      · have htoNat : (Char.ofNat n).toNat = n := by
          rw [Char.ofNat, dif_pos hvalid]
          rfl
        omega
      · rw [Char.ofNat, dif_neg hvalid]
        rfl
    · have hc : c.toNat = run.first := by omega
      rw [hc]
      exact hupper

theorem toUpper_of_mem_upperChar {c d : Char} (h : d ∈ upperChar c) (hd : d.toNat < 128) :
    d.toUpper = d := by
  by_cases hc : c.toNat < 128
  · rw [upperChar_of_ascii hc, List.mem_singleton] at h
    rw [h]
    exact of_ascii (P := fun c => c.toUpper.toUpper = c.toUpper) (by decide) hc
  · rw [upperChar, if_neg hc] at h
    cases hrow : upperExpansions.lookup c.toNat with
    | none =>
      rw [hrow, List.mem_singleton] at h
      rw [h] at hd ⊢
      exact toUpper_shiftCase (Nat.not_lt.mp hc) hd
    | some expansion =>
      rw [hrow] at h
      obtain ⟨n, hn, rfl⟩ := List.mem_map.mp h
      obtain ⟨before, after, hrows, _⟩ := List.lookup_eq_some_iff.mp hrow
      have hmem : (c.toNat, expansion) ∈ upperExpansions := by simp [hrows]
      exact upperExpansions_upper _ hmem n hn

private theorem upper_of_ascii {s : List Char} (h : ∀ c ∈ s, c.toNat < 128) :
    upper s = s.map Char.toUpper := by
  rw [upper, List.map_eq_flatMap]
  exact List.flatMap_congr fun c hc => upperChar_of_ascii (h c hc)

/-- ASCII text in upper case stays as it is, whatever it was mapped from. -/
theorem upper_upper_of_ascii {s : List Char} (h : ∀ c ∈ upper s, c.toNat < 128) :
    upper (upper s) = upper s := by
  have hfixed : (upper s).map Char.toUpper = (upper s).map id := by
    apply List.map_congr_left
    intro d hd
    obtain ⟨c, _, hc⟩ := List.mem_flatMap.mp hd
    exact toUpper_of_mem_upperChar hc (h d hd)
  rw [upper_of_ascii h, hfixed, List.map_id]

end Text

/-! ## Identifiers -/

theorem ascii_of_continuesIdentifier {c : Char} (h : continuesIdentifier c = true) :
    c.toNat < 128 := by
  simp only [continuesIdentifier, Char.isAlphanum, Bool.or_eq_true, beq_iff_eq] at h
  rcases h with ((halpha | hdigit) | rfl) | rfl
  · rcases (Bool.or_eq_true _ _).mp halpha with hupper | hlower
    · exact Text.ascii_of_le (of_decide_eq_true hupper).2 (by decide)
    · have hle := of_decide_eq_true ((Bool.and_eq_true _ _).mp hlower).2
      exact Text.ascii_of_le hle (by decide)
  · exact Nat.lt_of_le_of_lt (Char.isDigit_iff_toNat.mp hdigit).2 (by decide)
  · decide
  · decide

private theorem startsIdentifier_toUpper {c : Char} (hc : c.toNat < 128)
    (h : startsIdentifier c = true) : startsIdentifier c.toUpper = true :=
  Text.of_ascii (P := fun c => startsIdentifier c = true → startsIdentifier c.toUpper = true)
    (by decide) hc h

private theorem continuesIdentifier_toUpper {c : Char} (h : continuesIdentifier c = true) :
    continuesIdentifier c.toUpper = true :=
  Text.of_ascii (P := fun c => continuesIdentifier c = true → continuesIdentifier c.toUpper = true)
    (by decide) (ascii_of_continuesIdentifier h) h

theorem continuesIdentifier_of_mem {name : List Char} (h : isIdentifierText name = true) {c : Char}
    (hc : c ∈ name) : continuesIdentifier c = true := by
  cases name with
  | nil => cases h
  | cons d rest =>
    rw [isIdentifierText, Bool.and_eq_true, List.all_eq_true] at h
    rcases List.mem_cons.mp hc with rfl | hc
    · have hstarts := h.1
      simp only [startsIdentifier, continuesIdentifier, Char.isAlphanum,
        Bool.or_eq_true] at hstarts ⊢
      tauto
    · exact h.2 c hc

private theorem ascii_of_isIdentifierText {name : List Char} (h : isIdentifierText name = true) :
    ∀ c ∈ name, c.toNat < 128 :=
  fun _ hc => ascii_of_continuesIdentifier (continuesIdentifier_of_mem h hc)

theorem isIdentifierText_upper {name : List Char} (h : isIdentifierText name = true) :
    isIdentifierText (Text.upper name) = true := by
  have hascii := ascii_of_isIdentifierText h
  rw [Text.upper_of_ascii hascii]
  cases name with
  | nil => cases h
  | cons c rest =>
    rw [isIdentifierText, Bool.and_eq_true, List.all_eq_true] at h
    rw [List.map_cons, isIdentifierText, Bool.and_eq_true, List.all_map, List.all_eq_true]
    refine ⟨startsIdentifier_toUpper (hascii c List.mem_cons_self) h.1, ?_⟩
    intro d hd
    exact continuesIdentifier_toUpper (h.2 d hd)

theorem isLabelName_of_identifier {name : List Char} (h : isIdentifierText name = true) :
    IsLabelName name := by
  have hchar {c : Char} (hc : c ∈ name) :
      (Text.isBlank c = false ∧ c ≠ ':') ∧ c ≠ ';' ∧ c ≠ '\n' ∧ c ≠ '\r' := by
    have hcontinues := continuesIdentifier_of_mem h hc
    exact Text.of_ascii (P := fun c => continuesIdentifier c = true →
      (Text.isBlank c = false ∧ c ≠ ':') ∧ c ≠ ';' ∧ c ≠ '\n' ∧ c ≠ '\r') (by decide)
      (ascii_of_continuesIdentifier hcontinues) hcontinues
  exact ⟨h, fun c hc => (hchar hc).1, fun c hc => (hchar hc).2⟩

/-- An identifier in upper case. -/
structure IsName (name : String) : Prop where
  identifier : isIdentifier name = true
  upcase : Text.upcase name = name

theorem isName_upper {s : List Char} (h : isIdentifierText (Text.upper s) = true) :
    IsName (String.ofList (Text.upper s)) where
  identifier := by rwa [isIdentifier, String.toList_ofList]
  upcase := by
    rw [Text.upcase, String.toList_ofList,
      Text.upper_upper_of_ascii (ascii_of_isIdentifierText h)]

/-! ## Labels and targets -/

theorem isName_of_takeLabel {code rest : List Char} {name : String}
    (h : takeLabel code = .ok (some name, rest)) : IsName name := by
  unfold takeLabel at h
  split at h
  · cases h
  · split at h
    · rename_i hname
      cases h
      exact isName_upper (isIdentifierText_upper hname)
    · cases h

private theorem WrittenCode.takeLabel_of_parse {code : String} {written : WrittenCode}
    (h : WrittenCode.parse code = .ok written) :
    ∃ rest, takeLabel code.toList = .ok (written.label, rest) := by
  obtain ⟨⟨label, rest⟩, htake, h⟩ := bind_eq_ok.mp h
  refine ⟨rest, ?_⟩
  dsimp only at h
  split at h
  · cases h
    exact htake
  · split at h
    · cases h
    · obtain ⟨operands, _, h⟩ := bind_eq_ok.mp h
      cases h
      exact htake

theorem WrittenData.parse_eq_ok {code : String} {written : WrittenData}
    (h : WrittenData.parse code = .ok written) :
    ∃ rest, takeLabel code.toList = .ok (written.label, rest) ∧
      (Text.cutAtBlank rest).1.head? = some '.' ∧
      written.args = String.ofList (Text.cutAtBlank rest).2 := by
  obtain ⟨⟨label, rest⟩, htake, h⟩ := bind_eq_ok.mp h
  dsimp only at h
  split at h
  · rename_i hdot
    cases h
    exact ⟨rest, htake, hdot, rfl⟩
  · cases h

theorem WrittenVector.parse_eq_ok {code : String} {written : WrittenVector}
    (h : WrittenVector.parse code = .ok written) :
    (∃ rest, takeLabel code.toList = .ok (some written.name, rest)) ∧
      written.address < 2 ^ 32 := by
  obtain ⟨⟨label, rest⟩, htake, h⟩ := bind_eq_ok.mp h
  cases label with
  | none => cases h
  | some name =>
    dsimp only at h
    split at h
    · cases h
    · split at h
      · cases h
      · split at h
        · cases h
          exact ⟨⟨rest, htake⟩, ‹_›⟩
        · cases h

theorem Statement.isName_of_label? {current : Option Section} {code : String}
    {statement : Statement} (h : Statement.read current code = .ok statement) {name : String}
    (hname : statement.label? = some name) : IsName name := by
  have hsection := Statement.section?_of_read h
  match statement with
  | .code label inst =>
    cases hsection
    obtain ⟨written, hwritten, h⟩ := bind_eq_ok.mp h
    obtain ⟨inst, _, h⟩ := bind_eq_ok.mp h
    cases h
    obtain ⟨rest, htake⟩ := WrittenCode.takeLabel_of_parse hwritten
    rw [show written.label = some name from hname] at htake
    exact isName_of_takeLabel htake
  | .data label directive payload =>
    obtain ⟨written, hwritten, hlabel, _⟩ := Statement.exists_written_data_of_read h
    obtain ⟨rest, htake, _⟩ := WrittenData.parse_eq_ok hwritten
    rw [hlabel, show label = some name from hname] at htake
    exact isName_of_takeLabel htake
  | .vector _ _ => cases hname
  | .stray => cases hname

namespace Operand

private theorem ne_label_of_map {α : Type} {x : Option α} {f : α → Operand} {op : Operand}
    (hf : ∀ a, (f a).mode ≠ .label) (h : x.map f = some op) : op.mode ≠ .label := by
  obtain ⟨a, _, rfl⟩ := Option.map_eq_some_iff.mp h
  exact hf a

private theorem inParens?_ne_label {inner : List Char} {op : Operand}
    (h : inParens? inner = some op) :
    op.mode ≠ .label := by
  unfold inParens? at h
  split at h
  · split at h
    · split at h
      · cases h
        decide
      · exact ne_label_of_map (by simp [mode]) h
    · obtain ⟨disp, _, h⟩ := Option.bind_eq_some_iff.mp h
      split at h
      · cases h
        simp [mode]
      · split at h
        · cases h
          simp [mode]
        · exact ne_label_of_map (by simp [mode]) h
  · cases h

private theorem addressed?_ne_label {plain : List Char} {op : Operand}
    (h : addressed? plain = some op) :
    op.mode ≠ .label := by
  unfold addressed? at h
  split at h
  · exact ne_label_of_map (by simp [mode]) h
  · exact ne_label_of_map (by simp [mode]) h
  · split at h
    · exact inParens?_ne_label h
    · cases h
  · split at h
    · exact ne_label_of_map (by simp [mode]) h
    · exact ne_label_of_map (by simp [mode]) h
  · rcases Option.or_eq_some_iff.mp h with h | ⟨_, h⟩
    · exact ne_label_of_map (by simp [mode]) h
    · exact ne_label_of_map (by simp [mode]) h

private theorem isName_of_read {token name : String} (h : read token = .label name)
    (hname : isIdentifier name = true) : IsName name := by
  simp only [read] at h
  generalize token.toList.filter (!Text.isBlank ·) = s at h
  cases haddressed : addressed? (Text.upper s) with
  | some op =>
    rw [haddressed, Option.getD_some] at h
    rw [h] at haddressed
    exact absurd rfl (addressed?_ne_label haddressed)
  | none =>
    rw [haddressed, Option.getD_none] at h
    cases h
    rw [isIdentifier, String.toList_ofList] at hname
    exact isName_upper hname

end Operand

theorem Instruction.isName_of_target? {written : WrittenInst} {inst : Instruction}
    (h : Instruction.ofWritten written = .ok inst) {target : String}
    (htarget : inst.target? = some target) : IsName target := by
  obtain ⟨hops, hlabels, _, _⟩ := Instruction.ofWritten_eq_ok h
  obtain ⟨_, _, rest, htarget⟩ := Instruction.target?_eq_some htarget
  have hmem : Operand.label target ∈ inst.operands := by simp [htarget]
  have hidentifier : isIdentifier target = true := by
    have hnone := List.findSome?_eq_none_iff.mp hlabels _ hmem
    simpa using hnone
  rw [hops] at hmem
  obtain ⟨token, _, hread⟩ := List.mem_map.mp hmem
  exact Operand.isName_of_read hread hidentifier

end SuperH
