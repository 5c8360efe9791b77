import SuperH.Program
import SuperH.Proofs.Traversal

/-!
# Statements by section

Reading a source reads each statement by itself: all that it needs of the other lines is the
section they have switched to. So the lines are first given their sections and then read one by
one, and each part of a program leads back to a line of the source.
-/
namespace SuperH

/-- The lines that hold statements, each with the section it stands in. -/
def inSections (current : Option Section) : List SourceLine → List (Option Section × SourceLine)
  | [] => []
  | l :: rest =>
    match Section.parse? l.code with
    | some next => inSections (some next) rest
    | none => (current, l) :: inSections current rest

def readLine (x : Option Section × SourceLine) : Except Diagnostic SourceStatement := do
  let statement ← x.2.diagnose (Statement.read x.1 x.2.code)
  return ⟨x.2.number, statement⟩

theorem readLines_eq_mapM (current : Option Section) (ls : List SourceLine) :
    readLines current ls = (inSections current ls).mapM readLine := by
  induction ls generalizing current with
  | nil => rfl
  | cons l rest ih =>
    rw [readLines, inSections]
    cases Section.parse? l.code with
    | some next => exact ih (some next)
    | none =>
      simp only [ih current, List.mapM_cons, readLine]
      cases l.diagnose (Statement.read current l.code) <;> rfl

theorem mem_of_mem_inSections {current : Option Section} {ls : List SourceLine}
    {x : Option Section × SourceLine} (h : x ∈ inSections current ls) : x.2 ∈ ls := by
  induction ls generalizing current with
  | nil => cases h
  | cons l rest ih =>
    rw [inSections] at h
    split at h
    · exact List.mem_cons_of_mem _ (ih h)
    · rcases List.mem_cons.mp h with rfl | h
      · exact List.mem_cons_self
      · exact List.mem_cons_of_mem _ (ih h)

theorem SourceLine.diagnose_eq_ok {α : Type} {l : SourceLine} {x : Except Error α} {a : α} :
    l.diagnose x = .ok a ↔ x = .ok a := by
  cases x <;> simp [diagnose]

theorem SourceLine.diagnose_eq_error {α : Type} {l : SourceLine} {x : Except Error α}
    {d : Diagnostic} : l.diagnose x = .error d ↔ ∃ e, x = .error e ∧ d = ⟨l.number, l.raw, e⟩ := by
  cases x <;> simp [diagnose, eq_comm]

theorem readLine_eq_ok {x : Option Section × SourceLine} {s : SourceStatement} :
    readLine x = .ok s ↔ s.line = x.2.number ∧ Statement.read x.1 x.2.code = .ok s.statement := by
  unfold readLine SourceLine.diagnose
  cases Statement.read x.1 x.2.code with
  | error e => simp [bind, Except.bind]
  | ok statement =>
    simp only [bind, Except.bind, pure, Except.pure, Except.ok.injEq]
    constructor
    · rintro rfl
      exact ⟨rfl, rfl⟩
    · rintro ⟨hline, rfl⟩
      rw [← hline]

theorem readLine_eq_error {x : Option Section × SourceLine} {d : Diagnostic} :
    readLine x = .error d ↔
      ∃ e, Statement.read x.1 x.2.code = .error e ∧ d = ⟨x.2.number, x.2.raw, e⟩ := by
  rw [readLine, bind_eq_error, SourceLine.diagnose_eq_error]
  simp [pure, Except.pure]

theorem mem_numbered {l : SourceLine} {number : Nat} {raws : List String}
    (h : l ∈ SourceLine.numbered number raws) :
    ∃ i, raws[i]? = some l.raw ∧ l.number = number + i ∧ l.code = lineCode l.raw := by
  induction raws generalizing number with
  | nil => cases h
  | cons raw rest ih =>
    have hlater (h : l ∈ SourceLine.numbered (number + 1) rest) :
        ∃ i, (raw :: rest)[i]? = some l.raw ∧ l.number = number + i ∧ l.code = lineCode l.raw := by
      obtain ⟨i, hraw, hnumber, hcode⟩ := ih h
      exact ⟨i + 1, by simpa using hraw, by omega, hcode⟩
    rw [SourceLine.numbered] at h
    split at h
    · exact hlater h
    · rcases List.mem_cons.mp h with rfl | h
      · exact ⟨0, rfl, rfl, rfl⟩
      · exact hlater h

def Statement.section? : Statement → Option Section
  | .code _ _ => some .text
  | .data _ _ _ => some .data
  | .vector _ _ => some .vectable
  | .stray => none

theorem Statement.section?_of_read {current : Option Section} {code : String}
    {statement : Statement} (h : Statement.read current code = .ok statement) :
    statement.section? = current := by
  match current with
  | none =>
    cases h
    rfl
  | some .text =>
    obtain ⟨written, _, h⟩ := bind_eq_ok.mp h
    obtain ⟨inst, _, h⟩ := bind_eq_ok.mp h
    cases h
    rfl
  | some .data =>
    obtain ⟨written, _, h⟩ := bind_eq_ok.mp h
    obtain ⟨directive, _, h⟩ := bind_eq_ok.mp h
    obtain ⟨payload, _, h⟩ := bind_eq_ok.mp h
    cases h
    rfl
  | some .vectable =>
    obtain ⟨written, _, h⟩ := bind_eq_ok.mp h
    cases h
    rfl

/-- An instruction as its line writes it: the entry is the one of its mnemonic and the modes of
its operands. -/
def Instruction.IsWritten (inst : Instruction) (code : String) : Prop :=
  ∃ label written, WrittenCode.parse code = .ok ⟨label, some written⟩ ∧
    inst.operands = written.operands.map Operand.read ∧
    sh2.lookup? written.mnemonic (inst.operands.map Operand.mode) = some inst.entry ∧
    inst.entry.encode inst.operands = .ok inst.word

theorem Instruction.ofWritten_eq_ok {written : WrittenInst} {inst : Instruction}
    (h : Instruction.ofWritten written = .ok inst) :
    inst.operands = written.operands.map Operand.read ∧
      Instruction.badLabel? inst.operands = none ∧
      sh2.lookup? written.mnemonic (inst.operands.map Operand.mode) = some inst.entry ∧
      inst.entry.encode inst.operands = .ok inst.word := by
  simp only [ofWritten] at h
  split at h
  · cases h
  · rename_i hlabel
    split at h
    · cases h
    · rename_i entry hentry
      split at h
      · cases h
      · rename_i word hword
        cases h
        exact ⟨rfl, hlabel, hentry, hword⟩

theorem Statement.exists_written_of_read {current : Option Section} {code : String}
    {label : Option String} {inst : Instruction}
    (h : Statement.read current code = .ok (.code label (some inst))) :
    ∃ written, WrittenCode.parse code = .ok ⟨label, some written⟩ ∧
      Instruction.ofWritten written = .ok inst := by
  have hsection := Statement.section?_of_read h
  cases hsection
  obtain ⟨⟨label', written?⟩, hwritten, h⟩ := bind_eq_ok.mp h
  obtain ⟨inst?, hinst, h⟩ := bind_eq_ok.mp h
  cases h
  cases written? with
  | none => cases hinst
  | some written =>
    obtain ⟨inst', hinst', h⟩ := bind_eq_ok.mp hinst
    cases h
    exact ⟨written, hwritten, hinst'⟩

theorem Statement.exists_written_data_of_read {current : Option Section} {code : String}
    {label : Option String} {directive : Directive} {payload : List UInt8}
    (h : Statement.read current code = .ok (.data label directive payload)) :
    ∃ written, WrittenData.parse code = .ok written ∧ written.label = label ∧
      directive.payload written.args = .ok payload := by
  have hsection := Statement.section?_of_read h
  cases hsection
  obtain ⟨written, hwritten, h⟩ := bind_eq_ok.mp h
  obtain ⟨directive', _, h⟩ := bind_eq_ok.mp h
  obtain ⟨payload', hpayload, h⟩ := bind_eq_ok.mp h
  cases h
  exact ⟨written, hwritten, rfl, hpayload⟩

theorem Statement.isWritten_of_read {current : Option Section} {code : String}
    {label : Option String} {inst : Instruction}
    (h : Statement.read current code = .ok (.code label (some inst))) : inst.IsWritten code := by
  obtain ⟨written, hwritten, hinst⟩ := exists_written_of_read h
  obtain ⟨hops, _, hentry, hword⟩ := Instruction.ofWritten_eq_ok hinst
  exact ⟨label, written, hwritten, hops, hentry, hword⟩

theorem Program.ofSource_eq_ok {source : String} {p : Program} :
    Program.ofSource source = .ok p ↔
      ∃ statements, readLines none (SourceLine.ofText source) = .ok statements ∧
        p = Program.ofStatements (textLines source).toArray statements := by
  unfold ofSource
  rw [bind_eq_ok]
  simp [pure, Except.pure, eq_comm]

theorem SourceStatement.code?_eq_some {s : SourceStatement} {c : CodeLine} :
    s.code? = some c ↔ ∃ label, s = ⟨c.line, .code label (some c.inst)⟩ := by
  constructor
  · intro h
    unfold code? at h
    split at h
    · cases h
      exact ⟨_, rfl⟩
    · cases h
  · rintro ⟨label, rfl⟩
    rfl

theorem Program.isWritten_of_mem_code {source : String} {p : Program}
    (h : Program.ofSource source = .ok p) {line : CodeLine} (hline : line ∈ p.code) :
    ∃ raw, 0 < line.line ∧ (textLines source)[line.line - 1]? = some raw ∧
      line.inst.IsWritten (lineCode raw) := by
  obtain ⟨statements, hread, rfl⟩ := Program.ofSource_eq_ok.mp h
  obtain ⟨s, hs, hcode⟩ := List.mem_filterMap.mp hline
  obtain ⟨label, rfl⟩ := SourceStatement.code?_eq_some.mp hcode
  rw [readLines_eq_mapM] at hread
  obtain ⟨⟨current, l⟩, hx, hread⟩ := exists_of_mem_mapM hread hs
  obtain ⟨hnumber, hstatement⟩ := readLine_eq_ok.mp hread
  obtain ⟨i, hraw, hi, hlcode⟩ := mem_numbered (mem_of_mem_inSections hx)
  dsimp only at hnumber hstatement hi hraw ⊢
  refine ⟨l.raw, by omega, ?_, hlcode ▸ Statement.isWritten_of_read hstatement⟩
  rw [hnumber, hi, Nat.add_sub_cancel_left, hraw]

end SuperH
