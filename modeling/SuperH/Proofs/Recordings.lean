import SuperH.Recorder
import SuperH.Proofs.History
import SuperH.Proofs.Linking

/-!
# What is recorded of a source

Handling a line adds what its statement says to the recording, whatever was recorded before: the
three kinds of lines are taken up one by one. So a run over the lines of a source ends with the
parts of the program that is read from it, and fails where reading fails.
-/
namespace SuperH

private theorem filterMap_single {α β : Type} (f : α → Option β) (a : α) :
    [a].filterMap f = (f a).toList := by
  cases h : f a <;> simp [h]

namespace DataStream

private theorem foldl_push (payload : List UInt8) (line : Nat) (s : DataStream) :
    payload.foldl (fun s byte => s.push byte line) s =
      ⟨s.bytes ++ payload, s.lines ++ payload.map fun _ => line⟩ := by
  induction payload generalizing s with
  | nil => simp
  | cons byte payload ih =>
    rw [List.foldl_cons, ih, push]
    simp

private theorem aligned_eq (s : DataStream) (d : Directive) (line : Nat) :
    (if 1 < d.width then s.align line else s) =
      ⟨s.bytes ++ List.replicate (d.startAt s.bytes.length - s.bytes.length) 0,
        s.lines ++ List.replicate (d.startAt s.bytes.length - s.bytes.length) line⟩ := by
  unfold align Directive.startAt
  by_cases hwide : 1 < d.width
  · by_cases hodd : s.bytes.length % 2 = 1
    · simp [hwide, hodd, push]
    · simp [hwide, hodd]
  · simp [hwide]

theorem emit_eq (s : DataStream) (d : Directive) (args : String) (line : Nat) :
    s.emit d args line = (d.payload args).map fun payload =>
      (d.startAt s.bytes.length,
        ⟨s.bytes ++ (d.bytesAt s.bytes.length payload line).map (·.value),
          s.lines ++ (d.bytesAt s.bytes.length payload line).map (·.line)⟩) := by
  rw [emit]
  cases d.payload args with
  | error e => rfl
  | ok payload =>
    have hle := d.le_startAt s.bytes.length
    simp only [bind, Except.bind, Except.map, pure, Except.pure, aligned_eq, foldl_push]
    simp only [Directive.bytesAt, List.map_append, List.map_replicate, List.map_map,
      Function.comp_def, List.map_id', List.append_assoc, List.length_append,
      List.length_replicate, Nat.add_sub_cancel' hle]

/-- The words of two lists that grow together are those of the pairs. -/
theorem words_eq (bytes : List SourceByte) :
    (⟨bytes.map (·.value), bytes.map (·.line)⟩ : DataStream).words = DataSection.words ⟨bytes⟩ := by
  unfold words DataSection.words
  dsimp only
  fun_induction DataSection.pairUp bytes with
  | case1 => rfl
  | case2 high => rfl
  | case3 high low rest ih => simp [pairs, ih]

end DataStream

namespace Recording

def add (r : Recording) (s : SourceStatement) : Recording :=
  let events := Event.ofStatement r.text.length r.data.bytes.length s
  let bytes := s.bytesAt r.data.bytes.length
  let branch := s.code?.bind fun code => Program.branchOf? (code, r.text.length)
  { lines := r.lines
    text := r.text ++ s.code?.toList.map fun code => ⟨code.inst.word, code.line⟩
    branches := r.branches ++ branch.toList
    data := ⟨r.data.bytes ++ bytes.map (·.value), r.data.lines ++ bytes.map (·.line)⟩
    vectors := r.vectors ++ s.vector?.toList
    symbols := events.foldl Event.apply r.symbols
    notices := r.notices ++ Event.allNotices (lineText r.lines) r.symbols events }

/-! ## One line -/

theorem defineLabel_eq (r : Recording) (label : Option String) (symbol : Symbol) :
    let events := label.toList.map fun name => Event.defined name symbol
    r.defineLabel label symbol = { r with
      symbols := events.foldl Event.apply r.symbols
      notices := r.notices ++ Event.allNotices (lineText r.lines) r.symbols events } := by
  cases label with
  | none => simp [defineLabel, Event.allNotices]
  | some name =>
    simp only [defineLabel, define, Option.toList_some, List.map_cons, List.map_nil,
      List.foldl_cons, List.foldl_nil, Event.apply, Event.allNotices, Event.notices]
    cases r.symbols.get? name with
    | none => simp
    | some previous => simp [notice]

private theorem addWord_eq (r : Recording) (line : Nat) (inst : Instruction) :
    r.addWord line inst = { r with
      branches := r.branches ++ (Program.branchOf? (⟨line, inst⟩, r.text.length)).toList
      text := r.text ++ [⟨inst.word, line⟩] } := by
  unfold addWord Program.branchOf?
  cases inst.target? <;> simp

private theorem add_code (r : Recording) (line : Nat) (label : Option String)
    (inst : Option Instruction) :
    r.add ⟨line, .code label inst⟩ =
      let labelled := r.defineLabel label ⟨.text, 2 * r.text.length, line⟩
      match inst with
      | none => labelled
      | some inst => labelled.addWord line inst := by
  have hevents : Event.ofStatement r.text.length r.data.bytes.length ⟨line, .code label inst⟩ =
      label.toList.map fun name => .defined name ⟨.text, 2 * r.text.length, line⟩ := by
    cases label <;> rfl
  cases inst with
  | none => simp [add, hevents, defineLabel_eq, SourceStatement.code?, SourceStatement.vector?,
      SourceStatement.bytesAt]
  | some inst => simp [add, hevents, defineLabel_eq, addWord_eq, SourceStatement.code?,
      SourceStatement.vector?, SourceStatement.bytesAt]

private theorem add_data (r : Recording) (line : Nat) (label : Option String) (d : Directive)
    (payload : List UInt8) :
    r.add ⟨line, .data label d payload⟩ =
      let bytes := d.bytesAt r.data.bytes.length payload line
      let data := ⟨r.data.bytes ++ bytes.map (·.value), r.data.lines ++ bytes.map (·.line)⟩
      { r with data := data }.defineLabel label ⟨.data, d.startAt r.data.bytes.length, line⟩ := by
  have hevents : Event.ofStatement r.text.length r.data.bytes.length ⟨line, .data label d payload⟩ =
      label.toList.map fun name => .defined name ⟨.data, d.startAt r.data.bytes.length, line⟩ := by
    cases label <;> rfl
  simp [add, hevents, defineLabel_eq, SourceStatement.code?, SourceStatement.vector?,
    SourceStatement.bytesAt]

theorem textLine_eq (r : Recording) (line : Nat) (code : String) :
    r.textLine line code =
      (Statement.read (some .text) code).map fun statement => r.add ⟨line, statement⟩ := by
  unfold textLine Statement.read
  cases WrittenCode.parse code with
  | error e => rfl
  | ok written =>
    obtain ⟨label, inst⟩ := written
    cases inst with
    | none => exact congrArg Except.ok (r.add_code line label none).symm
    | some written =>
      cases hinst : Instruction.ofWritten written with
      | error e => simp [bind, Except.bind, Except.map, Option.mapM_some, Functor.map, hinst]
      | ok inst =>
        simp [bind, Except.bind, Except.map, pure, Except.pure, Option.mapM_some, Functor.map,
          hinst, add_code]

theorem dataLine_eq (r : Recording) (line : Nat) (code : String) :
    r.dataLine line code =
      (Statement.read (some .data) code).map fun statement => r.add ⟨line, statement⟩ := by
  unfold dataLine Statement.read
  cases WrittenData.parse code with
  | error e => rfl
  | ok written =>
    cases hdirective : Directive.parse written.directive with
    | error e => simp [bind, Except.bind, Except.map, hdirective]
    | ok d =>
      cases hpayload : d.payload written.args with
      | error e =>
        simp [bind, Except.bind, Except.map, hdirective, DataStream.emit_eq, hpayload]
      | ok payload =>
        simp [bind, Except.bind, Except.map, pure, Except.pure, hdirective, DataStream.emit_eq,
          hpayload, add_data]

theorem vectorLine_eq (r : Recording) (line : Nat) (code : String) :
    r.vectorLine line code =
      (Statement.read (some .vectable) code).map fun statement => r.add ⟨line, statement⟩ := by
  unfold vectorLine Statement.read
  cases WrittenVector.parse code with
  | error e => rfl
  | ok written =>
    simp [bind, Except.bind, Except.map, pure, Except.pure, add, SourceStatement.code?,
      SourceStatement.vector?, SourceStatement.bytesAt, Event.ofStatement, Event.allNotices]

theorem line_eq (r : Recording) (current : Option Section) (line : Nat) (code : String) :
    r.line current line code =
      (Statement.read current code).map fun statement => r.add ⟨line, statement⟩ := by
  cases current with
  | none =>
    simp [Recording.line, Statement.read, notice, Except.map, pure, Except.pure, add,
      SourceStatement.code?, SourceStatement.vector?, SourceStatement.bytesAt, Event.ofStatement,
      Event.allNotices, Event.notices, Event.apply]
  | some next =>
    cases next with
    | text => exact textLine_eq r line code
    | data => exact dataLine_eq r line code
    | vectable => exact vectorLine_eq r line code

/-! ## All lines -/

def ofProgram (p : Program) : Recording where
  lines := p.lines
  text := p.code.map fun code => ⟨code.inst.word, code.line⟩
  branches := p.branches
  data := ⟨p.data.bytes.map (·.value), p.data.bytes.map (·.line)⟩
  vectors := p.vectors
  symbols := p.symbols
  notices := p.notices

theorem ofProgram_concat (lines : Array String) (ss : List SourceStatement) (s : SourceStatement) :
    ofProgram (.ofStatements lines (ss ++ [s])) = (ofProgram (.ofStatements lines ss)).add s := by
  simp only [ofProgram, Program.ofStatements, add, Program.branches_eq, ofStatements_concat,
    List.filterMap_append, dataFrom_append, List.foldl_append, Event.allNotices_append,
    List.length_map, List.zipIdx_append, List.map_append, filterMap_single, dataFrom,
    List.append_nil, Nat.zero_add]
  cases s.code? with
  | none => simp
  | some code => simp [filterMap_single]

end Recording

namespace Recorder

variable {r : Recorder} {line : Nat} {raw : String}

private theorem step_of_blank (h : lineCode raw = "") : r.step line raw = .ok r := by
  simp [step, h]

private theorem step_of_section (h : lineCode raw ≠ "") {next : Section}
    (hnext : Section.parse? (lineCode raw) = some next) :
    r.step line raw = .ok ⟨some next, r.recording⟩ := by
  simp [step, h, hnext]

private theorem step_of_statement (h : lineCode raw ≠ "")
    (hnext : Section.parse? (lineCode raw) = none) :
    r.step line raw = (Statement.read r.current (lineCode raw)).map fun statement =>
      ⟨r.current, r.recording.add ⟨line, statement⟩⟩ := by
  simp only [step, h, if_false, hnext, Recording.line_eq]
  cases Statement.read r.current (lineCode raw) <;> rfl

/-- The recorder keeps up with reading, line by line. -/
theorem steps_eq (lines : Array String) (current : Option Section) (before : List SourceStatement)
    (line : Nat) (raws : List String) :
    ((⟨current, .ofProgram (.ofStatements lines before)⟩ : Recorder).steps line raws).map
        (·.recording) =
      (readLines current (SourceLine.numbered line raws)).map fun ss =>
        .ofProgram (.ofStatements lines (before ++ ss)) := by
  induction raws generalizing current before line with
  | nil => simp [steps, SourceLine.numbered, readLines, Except.map]
  | cons raw raws ih =>
    rw [steps, SourceLine.numbered]
    by_cases hcode : lineCode raw = ""
    · rw [step_of_blank hcode]
      simpa [hcode] using ih current before (line + 1)
    · cases hnext : Section.parse? (lineCode raw) with
      | some next =>
        rw [step_of_section hcode hnext]
        simpa [hcode, readLines, hnext] using ih (some next) before (line + 1)
      | none =>
        rw [step_of_statement hcode hnext]
        simp only [hcode, if_false, readLines, hnext]
        cases Statement.read current (lineCode raw) with
        | error e => rfl
        | ok statement =>
          have hrest := ih current (before ++ [⟨line, statement⟩]) (line + 1)
          rw [Recording.ofProgram_concat] at hrest
          simp only [Except.map, SourceLine.diagnose, bind, Except.bind] at hrest ⊢
          rw [hrest]
          cases readLines current (SourceLine.numbered (line + 1) raws) with
          | error d => rfl
          | ok ss => simp [pure, Except.pure]

/-- A run records the program that is read from its source. -/
theorem run_eq (source : String) : run source = (Program.ofSource source).map .ofProgram := by
  have hsteps := steps_eq (textLines source).toArray none [] 1 (textLines source)
  have hstart : Recording.ofProgram (.ofStatements (textLines source).toArray []) =
      .start (textLines source).toArray := rfl
  rw [hstart] at hsteps
  rw [run, start, hsteps, Program.ofSource, ← SourceLine.ofText]
  cases readLines none (SourceLine.ofText source) <;> rfl

end Recorder

end SuperH
