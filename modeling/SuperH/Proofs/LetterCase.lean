import SuperH.Proofs.CaseFolding
import SuperH.Proofs.Lexing
import SuperH.Proofs.Sections

/-!
# Letter case does not count

Two sources without quotes that differ in the case of ASCII letters only say the same. Each is
compared with the source in lower case: statement by statement, reading gives the same result, or an
error of the same kind on the same line.
-/
namespace SuperH

/-! ## Results that agree -/

section Agreement

variable {ε κ α β γ δ : Type}

/-- The second result is what `f` makes of the first, or both are errors with the same `key`. -/
def AgreeBy (key : ε → κ) (f : α → β) : Except ε α → Except ε β → Prop
  | .ok a, .ok b => b = f a
  | .error e, .error e' => key e' = key e
  | _, _ => False

theorem AgreeBy.refl (key : ε → κ) (x : Except ε α) : AgreeBy key id x x := by
  cases x <;> rfl

theorem AgreeBy.bind {key : ε → κ} {f : α → β} {g : γ → δ} {x : Except ε α} {y : Except ε β}
    (h : AgreeBy key f x y) {k : α → Except ε γ} {k' : β → Except ε δ}
    (hk : ∀ a, x = .ok a → AgreeBy key g (k a) (k' (f a))) :
    AgreeBy key g (x >>= k) (y >>= k') := by
  cases x with
  | error e =>
    cases y with
    | error e' => exact h
    | ok b => exact h.elim
  | ok a =>
    cases y with
    | error e' => exact h.elim
    | ok b =>
      cases h
      exact hk a rfl

theorem AgreeBy.of_common {key : ε → κ} {x y z : Except ε α} (hx : AgreeBy key id x z)
    (hy : AgreeBy key id y z) : AgreeBy key id x y := by
  cases z with
  | ok c =>
    cases x with
    | error e => exact hx.elim
    | ok a =>
      cases y with
      | error e => exact hy.elim
      | ok b => exact Eq.trans (Eq.symm hy) hx
  | error e =>
    cases x with
    | ok a => exact hx.elim
    | error d =>
      cases y with
      | ok b => exact hy.elim
      | error d' => exact Eq.trans (Eq.symm hy) hx

theorem AgreeBy.mapM {key : ε → κ} {f : α → β} {g : γ → δ} {k : α → Except ε γ}
    {k' : β → Except ε δ} {xs : List α} (h : ∀ x ∈ xs, AgreeBy key g (k x) (k' (f x))) :
    AgreeBy key (List.map g) (xs.mapM k) ((xs.map f).mapM k') := by
  induction xs with
  | nil => rfl
  | cons x xs ih =>
    obtain ⟨hx, hxs⟩ := List.forall_mem_cons.mp h
    rw [List.map_cons, List.mapM_cons, List.mapM_cons]
    apply hx.bind
    intro a _
    apply (ih hxs).bind
    intro as _
    rfl

end Agreement

/-- The kind of an error, whatever text it quotes. -/
def Error.kind (e : Error) : Nat :=
  e.ctorIdx

/-- Two readings of which the second is `f` of the first, or errors of one kind. -/
abbrev SameBy {α β : Type} (f : α → β) : Except Error α → Except Error β → Prop :=
  AgreeBy Error.kind f

/-! ## Statements of the text section -/

theorem takeLabel_fold (code : List Char) :
    SameBy (fun x => (x.1, Text.fold x.2)) (takeLabel code) (takeLabel (Text.fold code)) := by
  rw [takeLabel, takeLabel, labelled?_fold]
  cases labelled? code with
  | none => rfl
  | some x =>
    simp only [Option.map_some, isIdentifierText_fold, Text.upper_fold]
    split <;> rfl

private theorem operandTexts_foldText (args : String) :
    SameBy (List.map Text.foldText) (operandTexts args) (operandTexts (Text.foldText args)) := by
  simp only [operandTexts, Text.toList_foldText, Text.trim_fold, Text.fold_eq_nil,
    splitOutside_fold]
  split
  · rfl
  · cases splitOutside 0 args.toList with
    | none => rfl
    | some pieces =>
      have htrim : (pieces.map Text.fold).map Text.trim = (pieces.map Text.trim).map Text.fold := by
        simp [Function.comp_def]
      have hempty : ((pieces.map Text.trim).map Text.fold).contains [] =
          (pieces.map Text.trim).contains [] := by
        rw [Bool.eq_iff_iff, List.contains_iff_mem, List.contains_iff_mem, List.mem_map]
        simp
      simp only [Option.map_some, htrim, hempty]
      split
      · rfl
      · change List.map String.ofList _ = List.map Text.foldText (List.map String.ofList _)
        simp [Function.comp_def]

def WrittenInst.fold (written : WrittenInst) : WrittenInst :=
  ⟨written.mnemonic, written.operands.map Text.foldText⟩

private theorem Instruction.ofWritten_fold (written : WrittenInst) :
    Instruction.ofWritten written.fold = Instruction.ofWritten written := by
  have hread : (written.operands.map Text.foldText).map Operand.read =
      written.operands.map Operand.read := by
    simp [Function.comp_def, Operand.read_foldText]
  simp only [ofWritten, WrittenInst.fold, hread]

private theorem WrittenCode.parse_foldText (code : String) :
    SameBy (fun w => ⟨w.label, w.inst.map WrittenInst.fold⟩)
      (WrittenCode.parse code) (WrittenCode.parse (Text.foldText code)) := by
  rw [WrittenCode.parse, WrittenCode.parse, Text.toList_foldText]
  apply (takeLabel_fold code.toList).bind
  rintro ⟨label, rest⟩ _
  simp only [Text.fold_eq_nil, Text.cutAtBlank_fold, Text.upper_fold,
    Text.head?_fold_mark (show '.'.isAlpha = false by decide), ← Text.foldText_ofList]
  split
  · rfl
  · split
    · rfl
    · apply (operandTexts_foldText _).bind
      intro operands _
      rfl

/-! ## Statements of the data section -/

theorem Literal.value_foldText (v : String) :
    SameBy id (Literal.value v) (Literal.value (Text.foldText v)) := by
  have hdigits (s : List Char) : Text.natural? 2 (Text.fold s) = Text.natural? 2 s :=
    Text.natural?_fold (by decide) s
  simp only [value, Text.toList_foldText, Text.trim_fold, binaryDigits?_fold]
  cases binaryDigits? (Text.trim v.toList) with
  | some digits =>
    simp only [Option.map_some, hdigits]
    cases (Text.natural? 2 digits).filter (· < Nat.pow 2 63) with
    | none => rfl
    | some n => rfl
  | none =>
    simp only [Option.map_none, number, String.toList_ofList, Text.trim_fold, number?_fold]
    cases number? (Text.trim (Text.trim v.toList)) with
    | none => rfl
    | some n => rfl

private theorem Literal.quoted_of_no_quote {s : String} (h : '"' ∉ s.toList) :
    Literal.quoted s = .error (.malformed (.notQuoted s)) := by
  have hnone : insideQuotes? (Text.trim s.toList) = none := by
    unfold insideQuotes?
    split
    · rename_i rest hrest
      have hmem : '"' ∈ Text.trim s.toList := by
        rw [hrest]
        exact List.mem_cons_self
      exact absurd ((Text.trim_sublist s.toList).mem hmem) h
    · rfl
  rw [quoted, hnone]

private theorem Directive.values_foldText (width : Nat) (args : String) :
    SameBy id (Directive.values width args) (Directive.values width (Text.foldText args)) := by
  simp only [values, Text.toList_foldText, Text.trim_fold, Text.fold_eq_nil,
    Text.splitOn_fold (show ','.isAlpha = false by decide)]
  have hitems : SameBy (List.map id)
      ((Text.splitOn ',' args.toList).mapM fun arg => do
        Literal.bigEndian (← Literal.value (String.ofList arg)) width)
      (((Text.splitOn ',' args.toList).map Text.fold).mapM fun arg => do
        Literal.bigEndian (← Literal.value (String.ofList arg)) width) := by
    apply AgreeBy.mapM
    intro arg _
    have hvalue := Literal.value_foldText (String.ofList arg)
    rw [Text.foldText_ofList] at hvalue
    apply hvalue.bind
    intro n _
    exact AgreeBy.refl _ _
  split
  · rfl
  · apply hitems.bind
    intro items _
    rw [List.map_id]
    rfl

private theorem Directive.payload_foldText (d : Directive) {args : String} (h : '"' ∉ args.toList) :
    SameBy id (d.payload args) (d.payload (Text.foldText args)) := by
  have hfold : '"' ∉ (Text.foldText args).toList := by
    rwa [Text.toList_foldText, Text.mem_fold_mark (by decide)]
  cases d with
  | ascii | asciiz =>
    simp only [payload, Literal.quoted_of_no_quote h, Literal.quoted_of_no_quote hfold]
    rfl
  | byte | word | long => exact values_foldText _ args

private theorem WrittenData.parse_foldText (code : String) :
    SameBy (fun w => ⟨w.label, w.directive, Text.foldText w.args⟩)
      (WrittenData.parse code) (WrittenData.parse (Text.foldText code)) := by
  rw [WrittenData.parse, WrittenData.parse, Text.toList_foldText]
  apply (takeLabel_fold code.toList).bind
  rintro ⟨label, rest⟩ _
  simp only [Text.cutAtBlank_fold, Text.lower_fold,
    Text.head?_fold_mark (show '.'.isAlpha = false by decide)]
  split
  · change WrittenData.mk _ _ _ = _
    simp
  · rfl

/-! ## Statements of the vector table -/

theorem WrittenVector.parse_foldText (code : String) :
    SameBy id (WrittenVector.parse code) (WrittenVector.parse (Text.foldText code)) := by
  rw [WrittenVector.parse, WrittenVector.parse, Text.toList_foldText]
  apply (takeLabel_fold code.toList).bind
  rintro ⟨label, rest⟩ _
  cases label with
  | none => rfl
  | some name =>
    simp only [Text.firstWord?_fold]
    cases Text.firstWord? rest with
    | none => rfl
    | some word =>
      have haddress : Text.unsigned? 16 (Nat.pow 2 64) (Text.dropHexMark (Text.fold word)) =
          Text.unsigned? 16 (Nat.pow 2 64) (Text.dropHexMark word) := by
        rw [Text.dropHexMark_fold, Text.unsigned?_fold (by decide)]
      simp only [Option.map_some, haddress]
      cases Text.unsigned? 16 (Nat.pow 2 64) (Text.dropHexMark word) with
      | none => rfl
      | some address => exact AgreeBy.refl _ _

/-! ## Lines -/

theorem Statement.read_foldText (current : Option Section) {code : String}
    (h : '"' ∉ code.toList) :
    SameBy id (Statement.read current code) (Statement.read current (Text.foldText code)) := by
  match current with
  | none => rfl
  | some .text =>
    apply (WrittenCode.parse_foldText code).bind
    intro written _
    have hinst : (written.inst.map WrittenInst.fold).mapM Instruction.ofWritten =
        written.inst.mapM Instruction.ofWritten := by
      cases written.inst with
      | none => rfl
      | some inst => simp [Instruction.ofWritten_fold]
    dsimp only
    rw [hinst]
    exact AgreeBy.refl _ _
  | some .data =>
    apply (WrittenData.parse_foldText code).bind
    intro written hwritten
    have hargs : '"' ∉ written.args.toList := by
      obtain ⟨rest, htake, _, hargs⟩ := WrittenData.parse_eq_ok hwritten
      rw [hargs, String.toList_ofList]
      intro hmem
      exact h ((takeLabel_sublist htake).mem ((Text.cutAtBlank_sublist rest).mem hmem))
    apply (AgreeBy.refl _ (Directive.parse written.directive)).bind
    intro directive _
    apply (directive.payload_foldText hargs).bind
    intro payload _
    rfl
  | some .vectable =>
    apply (WrittenVector.parse_foldText code).bind
    intro written _
    rfl

def Diagnostic.spot (d : Diagnostic) : Nat × Nat :=
  (d.line, d.error.kind)

def SourceLine.fold (l : SourceLine) : SourceLine :=
  ⟨l.number, Text.foldText l.raw, Text.foldText l.code⟩

private theorem SourceLine.diagnose_fold {α : Type} (l : SourceLine) {x y : Except Error α}
    (h : SameBy id x y) : AgreeBy Diagnostic.spot id (l.diagnose x) (l.fold.diagnose y) := by
  cases x with
  | ok a =>
    cases y with
    | ok b => exact h
    | error e => exact h.elim
  | error e =>
    cases y with
    | ok b => exact h.elim
    | error e' => exact congrArg (Prod.mk l.number) h

private theorem SourceLine.numbered_fold (number : Nat) (raws : List String) :
    numbered number (raws.map Text.foldText) = (numbered number raws).map fold := by
  have hempty (s : String) : Text.foldText s = "" ↔ s = "" := by
    rw [← String.toList_inj, ← String.toList_inj, Text.toList_foldText]
    exact Text.fold_eq_nil
  induction raws generalizing number with
  | nil => rfl
  | cons raw raws ih =>
    rw [List.map_cons, numbered, numbered]
    simp only [lineCode_foldText, hempty, ih]
    split <;> rfl

private theorem SourceLine.ofText_foldText (text : String) :
    ofText (Text.foldText text) = (ofText text).map fold := by
  have hlines : textLines (Text.foldText text) = (textLines text).map Text.foldText := by
    simp [textLines, Text.lines_fold, Function.comp_def]
  rw [ofText, hlines, numbered_fold, ofText]

private theorem inSections_fold (current : Option Section) (ls : List SourceLine) :
    inSections current (ls.map SourceLine.fold) =
      (inSections current ls).map fun x => (x.1, x.2.fold) := by
  induction ls generalizing current with
  | nil => rfl
  | cons l ls ih =>
    have hsection : Section.parse? l.fold.code = Section.parse? l.code :=
      Section.parse?_foldText l.code
    rw [List.map_cons, inSections, inSections, hsection]
    split
    · exact ih _
    · rw [List.map_cons, ih]

private theorem quote_not_mem_code {source : String} (h : '"' ∉ source.toList) {l : SourceLine}
    (hl : l ∈ SourceLine.ofText source) : '"' ∉ l.code.toList := by
  obtain ⟨i, hraw, _, hcode⟩ := mem_numbered hl
  obtain ⟨raw, hlines, hraw⟩ := List.mem_map.mp (List.mem_of_getElem? hraw)
  intro hmem
  rw [hcode, ← hraw] at hmem
  have hline := (lineCode_sublist (String.ofList raw)).mem hmem
  rw [String.toList_ofList] at hline
  exact h ((Text.of_mem_lines hlines).1.mem hline)

theorem readLines_foldText {source : String} (h : '"' ∉ source.toList) :
    AgreeBy Diagnostic.spot id (readLines none (SourceLine.ofText source))
      (readLines none (SourceLine.ofText (Text.foldText source))) := by
  rw [readLines_eq_mapM, readLines_eq_mapM, SourceLine.ofText_foldText, inSections_fold,
    ← List.map_id_fun]
  apply AgreeBy.mapM
  intro x hx
  have hquote := quote_not_mem_code h (mem_of_mem_inSections hx)
  apply (x.2.diagnose_fold (Statement.read_foldText x.1 hquote)).bind
  intro statement _
  rfl

/-! ## Sources -/

/-- Programs that differ in the text of their source lines at most. -/
structure Program.SaysSame (p q : Program) : Prop where
  code : p.code = q.code
  branches : p.branches = q.branches
  data : p.data = q.data
  vectors : p.vectors = q.vectors
  symbols : p.symbols = q.symbols
  notices : p.notices.map (fun n => (n.kind, n.line)) =
    q.notices.map (fun n => (n.kind, n.line))

private theorem Event.map_allNotices (raw raw' : Nat → String) (symbols : SymbolTable)
    (events : List Event) :
    (allNotices raw symbols events).map (fun n => (n.kind, n.line)) =
      (allNotices raw' symbols events).map (fun n => (n.kind, n.line)) := by
  induction events generalizing symbols with
  | nil => rfl
  | cons e events ih =>
    have hnotices : (e.notices raw symbols).map (fun n => (n.kind, n.line)) =
        (e.notices raw' symbols).map (fun n => (n.kind, n.line)) := by
      cases e with
      | ignored line => rfl
      | defined name symbol =>
        rw [notices, notices]
        split <;> rfl
    rw [allNotices, allNotices, List.map_append, List.map_append, hnotices, ih]

/-- Both readings give programs that say the same, or errors of one kind on one line. -/
inductive SameReading : Except Diagnostic Program → Except Diagnostic Program → Prop where
  | programs {p q : Program} (same : p.SaysSame q) : SameReading (.ok p) (.ok q)
  | errors {d e : Diagnostic} (line : d.line = e.line) (kind : d.error.kind = e.error.kind) :
      SameReading (.error d) (.error e)

/-- Sources without quotes that differ in the case of ASCII letters only give the same program, up
to the text of its lines, or errors of the same kind on the same line. -/
theorem Program.ofSource_ignores_case {source other : String}
    (hsame : Text.sameIgnoringCase source other = true) (hquote : '"' ∉ source.toList) :
    SameReading (Program.ofSource source) (Program.ofSource other) := by
  have hfold := Text.sameIgnoringCase_iff.mp hsame
  have hother : '"' ∉ other.toList := by
    rw [← Text.mem_fold_mark (by decide), ← Text.toList_foldText, ← hfold, Text.toList_foldText,
      Text.mem_fold_mark (by decide)]
    exact hquote
  have hagree := (readLines_foldText hquote).of_common (hfold ▸ readLines_foldText hother)
  rw [ofSource, ofSource]
  cases hread : readLines none (SourceLine.ofText source) with
  | error d =>
    cases hread' : readLines none (SourceLine.ofText other) with
    | error e =>
      rw [hread, hread'] at hagree
      exact .errors (congrArg Prod.fst (Eq.symm hagree)) (congrArg Prod.snd (Eq.symm hagree))
    | ok statements =>
      rw [hread, hread'] at hagree
      exact hagree.elim
  | ok statements =>
    cases hread' : readLines none (SourceLine.ofText other) with
    | error e =>
      rw [hread, hread'] at hagree
      exact hagree.elim
    | ok statements' =>
      rw [hread, hread'] at hagree
      cases hagree
      exact .programs ⟨rfl, rfl, rfl, rfl, rfl, Event.map_allNotices _ _ _ _⟩

/-- Section names, labels, registers and radix marks in both cases; and a faulty line, which is
quoted as it is spelled. -/
theorem Program.ofSource_ignores_case_spellings :
    SameReading (Program.ofSource ".TEXT\nGo: Mov.L @(0X8,r1),R2\nbra gO\n.data\n.Byte 0xfF,B10")
      (Program.ofSource ".text\ngO: mov.l @(0x8,R1),r2\nBRA Go\n.DATA\n.bYTE 0XFf,b10") ∧
    (Program.ofSource
        ".TEXT\nGo: Mov.L @(0X8,r1),R2\nbra gO\n.data\n.Byte 0xfF,B10").toOption.map
      (fun p => (p.code.map (·.inst.word), p.data.bytes.map (·.value), p.symbols.entries)) =
        some ([0x5218, 0xA000], [0xFF, 0x02], [("GO", ⟨.text, 0, 2⟩)]) ∧
    SameReading (Program.ofSource ".text\n.Word 1") (Program.ofSource ".Text\n.WORD 1") ∧
    Program.ofSource ".text\n.Word 1" = .error ⟨2, ".Word 1", .unknownDirective ".Word"⟩ ∧
    Program.ofSource ".Text\n.WORD 1" = .error ⟨2, ".WORD 1", .unknownDirective ".WORD"⟩ := by
  refine ⟨?_, by decide +kernel, ?_, by decide +kernel, by decide +kernel⟩
  · apply Program.ofSource_ignores_case
    all_goals decide +kernel
  · apply Program.ofSource_ignores_case
    all_goals decide +kernel

end SuperH
