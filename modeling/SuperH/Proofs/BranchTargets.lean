import SuperH.Proofs.Diagnostics
import SuperH.Proofs.Disassembly
import SuperH.Proofs.OperandGrammar

/-!
# Labels as targets of branches

A label is defined and called by two different rules. Any identifier before a colon defines one, but
an operand is a label only if it is nothing else. So every label can be the target of a branch,
unless it has the name of a register.
-/
namespace SuperH

def registerNames : List String :=
  ["R0", "R1", "R2", "R3", "R4", "R5", "R6", "R7", "R8", "R9", "R10", "R11", "R12", "R13", "R14",
   "R15", "SR", "GBR", "VBR", "MACH", "MACL", "PR", "PC"]

private theorem mem_registerNames {name : String} :
    name ∈ registerNames ↔ (∃ r : Reg, r.name = name) ∨ ∃ r : SysReg, r.name = name := by
  have hnames : registerNames = Reg.all.map Reg.name ++ SysReg.all.map SysReg.name := by decide
  have hreg (r : Reg) : r ∈ Reg.all := by
    obtain ⟨field⟩ := r
    revert field
    decide
  have hsys (r : SysReg) : r ∈ SysReg.all := by
    cases r <;> decide
  rw [hnames, List.mem_append, List.mem_map, List.mem_map]
  simp only [hreg, hsys, true_and]

/-! ## Names as operands -/

theorem isOperandText_of_identifier {name : List Char} (h : isIdentifierText name = true) :
    IsOperandText name := by
  have hlabel := isLabelName_of_identifier h
  refine ⟨hlabel.ne_nil, Text.trimmed_of_solid fun c hc => (hlabel.solid c hc).1, ?_, hlabel.plain⟩
  apply uncut_of_flat
  intro c hc
  have hcontinues := continuesIdentifier_of_mem h hc
  exact Text.of_ascii (P := fun c => continuesIdentifier c = true →
    c ≠ ',' ∧ c ≠ '(' ∧ c ≠ ')') (by decide) (ascii_of_continuesIdentifier hcontinues) hcontinues

namespace Operand

private theorem matched_of_identifier {name : String} (h : isIdentifier name = true) :
    matched name = Text.upper name.toList := by
  have hsolid := (isLabelName_of_identifier h).solid
  have hfilter : name.toList.filter (!Text.isBlank ·) = name.toList := by
    rw [List.filter_eq_self]
    intro c hc
    simp [hsolid c hc]
  rw [matched, hfilter]

/-- The only operands that are spelled like identifiers are registers. -/
theorem register_of_spelling {u : List Char} (hu : isIdentifierText u = true) {o : Operand}
    (h : Spelling u o) : String.ofList u ∈ registerNames := by
  have hhead : ∀ c rest, u = c :: rest → startsIdentifier c = true := by
    rintro c rest rfl
    exact ((Bool.and_eq_true _ _).mp hu).1
  rw [mem_registerNames]
  cases h with
  | @reg _ r hr =>
    obtain rfl := namesReg_iff.mp hr
    exact .inl ⟨r, String.ofList_toList.symm⟩
  | @sys _ r hr =>
    obtain rfl := namesSysReg_iff.mp hr
    exact .inr ⟨r, String.ofList_toList.symm⟩
  | _ => exact absurd (hhead _ _ rfl) (by decide)

private theorem exists_spelling_of_register {name : String} (h : name ∈ registerNames) :
    ∃ o, Spelling name.toList o := by
  rcases mem_registerNames.mp h with ⟨r, rfl⟩ | ⟨r, rfl⟩
  · exact ⟨_, .reg (namesReg_iff.mpr rfl)⟩
  · exact ⟨_, .sys (namesSysReg_iff.mpr rfl)⟩

theorem read_identifier {name : String} (h : isIdentifier name = true) :
    (Text.upcase name ∈ registerNames → (read name).mode ≠ .label) ∧
      (Text.upcase name ∉ registerNames → read name = .label (Text.upcase name)) := by
  have hmatched := matched_of_identifier h
  have hupper : Text.upcase name = String.ofList (matched name) := by rw [hmatched, Text.upcase]
  have hidentifier : isIdentifierText (matched name) = true := by
    rw [hmatched]
    exact isIdentifierText_upper h
  rw [read_eq, hupper]
  constructor
  · intro hregister
    obtain ⟨o, ho⟩ := exists_spelling_of_register hregister
    rw [String.toList_ofList] at ho
    rw [addressed?_of_spelling ho]
    exact mode_of_spelling ho
  · intro hfree
    have hnone : addressed? (matched name) = none := by
      rw [Option.eq_none_iff_forall_ne_some]
      intro o ho
      have hspelling := spelling_of_addressed? (Text.capitals_upper _) ho
      exact hfree (register_of_spelling hidentifier hspelling)
    rw [hnone, Option.getD_none]

end Operand

/-! ## Branches -/

def braEntry : Entry :=
  ⟨"BRA", [.label], 0xA000, .d12⟩

private theorem lookup?_bra (mode : Mode) :
    sh2.lookup? "BRA" [mode] = if mode = .label then some braEntry else none := by
  have hshape : ∀ e ∈ instructions, e.mnemonic = "BRA" → e.shape = [.label] := by
    set_option maxRecDepth 4000 in decide
  split
  · rename_i hmode
    rw [hmode]
    decide
  · rename_i hmode
    rw [Option.eq_none_iff_forall_ne_some]
    intro e h
    obtain ⟨he, hmnemonic, hlabel⟩ := lookup?_eq_some h
    rw [hshape e he hmnemonic] at hlabel
    exact hmode (List.cons.inj hlabel).1.symm

def branchTo (label : String) : Instruction :=
  ⟨braEntry, [.label label], 0xA000⟩

private theorem ofWritten_of_register {name : String} (h : (Operand.read name).mode ≠ .label) :
    Instruction.ofWritten ⟨"BRA", [name]⟩ =
      .error (.unsupportedInstruction "BRA" [(Operand.read name).mode]) := by
  have hlabel : Instruction.badLabel? [Operand.read name] = none := by
    rw [Instruction.badLabel?, List.findSome?_eq_none_iff]
    intro op hop
    rw [List.mem_singleton.mp hop]
    generalize Operand.read name = op at h
    cases op with
    | label _ => exact absurd rfl h
    | _ => rfl
  simp only [Instruction.ofWritten, List.map_singleton, hlabel, lookup?_bra, if_neg h]

private theorem ofWritten_of_label {name label : String} (h : Operand.read name = .label label)
    (hlabel : isIdentifier label = true) :
    Instruction.ofWritten ⟨"BRA", [name]⟩ = .ok (branchTo label) := by
  have hgood : Instruction.badLabel? [.label label] = none := by
    simp [Instruction.badLabel?, hlabel]
  have hwidth : braEntry.format.branchWidth = some 12 := rfl
  have hencode : braEntry.encode [.label label] = .ok 0xA000 := Format.encode_label hwidth _ _
  simp only [Instruction.ofWritten, List.map_singleton, h, hgood, Operand.mode, lookup?_bra,
    if_true, hencode]
  rfl

/-- A branch to its own address has no displacement. -/
theorem linkWord_branchTo {label : String} {symbols : SymbolTable} {place : Placement} {here : Nat}
    {symbol : Symbol} (hsymbol : symbols.get? label = some symbol)
    (haddress : place.address symbol = here) :
    Program.linkWord symbols place here (branchTo label) = .ok 0xA000 := by
  have htarget : (branchTo label).target? = some label := rfl
  have hword : braEntry.format.withDisp 0xA000 0 = .ok 0xA000 := by decide
  simp only [Program.linkWord, htarget, SymbolTable.resolve, hsymbol, bind, Except.bind, haddress,
    Int.sub_self, Int.zero_tdiv]
  rw [show (branchTo label).entry.format.withDisp (branchTo label).word 0 = .ok 0xA000 from hword]
  rfl

/-! ## A branch to its own label -/

def selfBranchLine (name : String) : String :=
  name ++ ": BRA " ++ name

def selfBranch (lines : Array String) (label : String) : Program where
  lines := lines
  code := [⟨2, branchTo label⟩]
  data := .empty
  vectors := []
  symbols := ⟨[(label, ⟨.text, 0, 2⟩)]⟩
  notices := []

private theorem ofStatements_selfBranch {label : String} (h : IsName label) (lines : Array String) :
    Program.ofStatements lines [⟨2, .code (some label) (some (branchTo label))⟩] =
      selfBranch lines label := by
  have hdefine : SymbolTable.empty.define label ⟨.text, 0, 2⟩ = ⟨[(label, ⟨.text, 0, 2⟩)]⟩ := by
    simp [SymbolTable.define, SymbolTable.empty, h.upcase]
  have hsymbols : Event.apply .empty (.defined label ⟨.text, 0, 2⟩) =
      ⟨[(label, ⟨.text, 0, 2⟩)]⟩ := hdefine
  rw [Program.ofStatements, selfBranch, ← hsymbols]
  rfl

private theorem read_selfBranchLine {name : String} (h : isIdentifier name = true) :
    lineCode (selfBranchLine name) ≠ "" ∧ Section.parse? (lineCode (selfBranchLine name)) = none ∧
      Statement.read (some .text) (lineCode (selfBranchLine name)) = do
        let inst ← Instruction.ofWritten ⟨"BRA", [name]⟩
        return .code (some (Text.upcase name)) (some inst) := by
  have hline : selfBranchLine name = String.ofList (name.toList ++ ':' :: ' ' ::
      ("BRA".toList ++ ' ' :: [',', ' '].intercalate [name.toList])) := by
    rw [← String.toList_inj, String.toList_ofList]
    simp [selfBranchLine]
  have hsolid : "BRA".toList.all (!Text.isBlank ·) = true := by decide
  have hmnemonic : IsMnemonic "BRA".toList :=
    ⟨by decide, fun c hc => by simpa using List.all_eq_true.mp hsolid c hc, by decide,
      by simp [Text.Plain]⟩
  have hoperand : ∀ x ∈ [name.toList], IsOperandText x :=
    List.forall_mem_singleton.mpr (isOperandText_of_identifier h)
  have hupper : String.ofList (Text.upper "BRA".toList) = "BRA" := by decide
  obtain ⟨_, hne, hsection, hread⟩ :=
    read_labelled (isLabelName_of_identifier h) hmnemonic hoperand hline
  rw [hupper, List.map_singleton, String.ofList_toList] at hread
  exact ⟨hne, hsection, hread⟩

section
variable {source name : String} {l : Layout}

private theorem ofSource_selfBranch_register (hname : isIdentifier name = true)
    (hlines : textLines source = [".text", selfBranchLine name])
    (h : (Operand.read name).mode ≠ .label) :
    Program.ofSource source = .error ⟨2, selfBranchLine name,
      .unsupportedInstruction "BRA" [(Operand.read name).mode]⟩ := by
  have htext : textLines source = [Section.text.name, selfBranchLine name] := hlines
  obtain ⟨hne, hsection, hread⟩ := read_selfBranchLine hname
  rw [Program.ofSource_eq_error, readLines_section htext hne hsection, hread,
    ofWritten_of_register h]
  rfl

private theorem ofSource_selfBranch_label (hname : isIdentifier name = true)
    (hlines : textLines source = [".text", selfBranchLine name])
    (h : Operand.read name = .label (Text.upcase name)) :
    Program.ofSource source =
      .ok (selfBranch (textLines source).toArray (Text.upcase name)) := by
  have htext : textLines source = [Section.text.name, selfBranchLine name] := hlines
  have hupper : IsName (Text.upcase name) := isName_upper (isIdentifierText_upper hname)
  obtain ⟨hne, hsection, hread⟩ := read_selfBranchLine hname
  refine Program.ofSource_eq_ok.mpr ⟨_, ?_, (ofStatements_selfBranch hupper _).symm⟩
  rw [readLines_section htext hne hsection, hread, ofWritten_of_label h hupper.identifier]
  rfl

private theorem place_selfBranch (hl : l.validate = .ok ()) (hentries : l.vectableEntries = none)
    (lines : Array String) (label : String) :
    (selfBranch lines label).place l = .ok ⟨l.textOrigin, 0, l.textOrigin, l.dataOrigin⟩ := by
  obtain ⟨⟨hsize, heven⟩, _⟩ := Layout.validate_eq_ok.mp hl
  have hcode : (selfBranch lines label).code.length = 1 := rfl
  have hdata : (selfBranch lines label).data.words.length = 0 := rfl
  refine Program.place_eq_ok.mpr ⟨0, ?_, by omega, by omega, by omega, rfl⟩
  rw [Layout.vectableSize, hentries]
  rfl

private theorem link_selfBranch {label : String} (h : IsName label) (lines : Array String)
    (base data : Nat) :
    (selfBranch lines label).link ⟨base, 0, base, data⟩ = .ok [0xA000] := by
  have hsymbol : (selfBranch lines label).symbols.get? label = some ⟨.text, 0, 2⟩ := by
    simp [SymbolTable.get?, selfBranch, h.upcase]
  rw [Program.link_eq_ok]
  exact .cons (linkWord_branchTo hsymbol rfl) .nil

/-- The branch of a label to itself assembles to one word without a displacement, and defines this
label only. For the name of a register it is no instruction. -/
theorem assemble_selfBranch (hname : isIdentifier name = true) (hl : l.validate = .ok ())
    (hentries : l.vectableEntries = none)
    (hlines : textLines source = [".text", name ++ ": BRA " ++ name]) :
    ((∃ a, assemble source l = .ok a) ↔ Text.upcase name ∉ registerNames) ∧
    (∀ a, assemble source l = .ok a → a.words = [0xA000] ∧
      a.program.symbols.entries = [(Text.upcase name, ⟨.text, 0, 2⟩)] ∧ a.program.notices = []) ∧
    (Text.upcase name ∈ registerNames → ∃ mode, assemble source l = .error (.source
      ⟨2, name ++ ": BRA " ++ name, .unsupportedInstruction "BRA" [mode]⟩)) := by
  obtain ⟨hregister, hlabel⟩ := Operand.read_identifier hname
  by_cases h : Text.upcase name ∈ registerNames
  · have herror : assemble source l = .error (.source ⟨2, name ++ ": BRA " ++ name,
        .unsupportedInstruction "BRA" [(Operand.read name).mode]⟩) :=
      assemble_eq_error.mpr
        ⟨hl, .inl (ofSource_selfBranch_register hname hlines (hregister h))⟩
    simp [herror, h]
  · have hupper : IsName (Text.upcase name) := isName_upper (isIdentifierText_upper hname)
    have hok := assemble_of_link hl (ofSource_selfBranch_label hname hlines (hlabel h))
      (place_selfBranch hl hentries _ _) (link_selfBranch hupper _ _ _)
    simp [hok, h, selfBranch]

/-- A name that starts like a register, and a register in lower case. -/
theorem assemble_selfBranch_names :
    (∃ a, assemble ".text\nr1.x: BRA r1.x\n" {} = .ok a ∧ a.words = [0xA000] ∧
      a.program.symbols.entries = [("R1.X", ⟨.text, 0, 2⟩)]) ∧
    ∃ mode, assemble ".text\r\npc: BRA pc" {} =
      .error (.source ⟨2, "pc: BRA pc", .unsupportedInstruction "BRA" [mode]⟩) := by
  have hlayout : ({} : Layout).validate = .ok () := by decide
  constructor
  · have hname : isIdentifier "r1.x" = true := by decide
    obtain ⟨hiff, hok, _⟩ := assemble_selfBranch hname hlayout rfl
      (show textLines ".text\nr1.x: BRA r1.x\n" = _ by decide)
    obtain ⟨a, ha⟩ := hiff.mpr (by decide)
    obtain ⟨hwords, hsymbols, _⟩ := hok a ha
    exact ⟨a, ha, hwords, hsymbols⟩
  · have hname : isIdentifier "pc" = true := by decide
    exact (assemble_selfBranch hname hlayout rfl (by decide)).2.2 (by decide)

end

end SuperH
