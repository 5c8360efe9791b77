import SuperH.Program

/-!
# Recording a source

The lines of a source are handled one after the other, each by the rules of the section that is
open, and what they say is recorded as it is met: a word with its line, a branch with the index that
its word will have, a byte and its line in two lists, a label at the offset reached so far.
-/
namespace SuperH

/-- The bytes of the data section, and beside them the lines they come from. -/
structure DataStream where
  bytes : List UInt8
  lines : List Nat
deriving DecidableEq

namespace DataStream

def empty : DataStream := ⟨[], []⟩

def push (s : DataStream) (byte : UInt8) (line : Nat) : DataStream :=
  ⟨s.bytes ++ [byte], s.lines ++ [line]⟩

def align (s : DataStream) (line : Nat) : DataStream :=
  if s.bytes.length % 2 = 1 then s.push 0 line else s

/-- Add what a directive stands for, and give the offset of its first item. -/
def emit (s : DataStream) (d : Directive) (args : String) (line : Nat) :
    Except Error (Nat × DataStream) := do
  let payload ← d.payload args
  let s := if 1 < d.width then s.align line else s
  return (s.bytes.length, payload.foldl (fun s byte => s.push byte line) s)

/-- Two bytes at a time with the first of their lines, as long as both lists last. -/
def pairs : List UInt8 → List Nat → List (Word × Nat)
  | [high], line :: _ => [(wordOfBytes high 0, line)]
  | high :: low :: bytes, line :: lines => (wordOfBytes high low, line) :: pairs bytes lines.tail
  | _, _ => []

def words (s : DataStream) : List (Word × Nat) :=
  pairs s.bytes s.lines

end DataStream

structure Emitted where
  word : Word
  line : Nat
deriving DecidableEq

structure Recording where
  lines : Array String
  text : List Emitted
  branches : List Program.Branch
  data : DataStream
  vectors : List VectorLine
  symbols : SymbolTable
  notices : List Notice
deriving DecidableEq

namespace Recording

def start (lines : Array String) : Recording :=
  ⟨lines, [], [], .empty, [], .empty, []⟩

def notice (r : Recording) (kind : NoticeKind) (line : Nat) : Recording :=
  { r with notices := r.notices ++ [⟨kind, line, lineText r.lines line⟩] }

def define (r : Recording) (name : String) (symbol : Symbol) : Recording :=
  let next := { r with symbols := r.symbols.define name symbol }
  match r.symbols.get? name with
  | none => next
  | some previous =>
    (next.notice (.redefined name) symbol.line).notice .overridden previous.line

def defineLabel (r : Recording) (label : Option String) (symbol : Symbol) : Recording :=
  match label with
  | none => r
  | some name => r.define name symbol

/-- Add the word of an instruction, and the branch that it is. -/
def addWord (r : Recording) (line : Nat) (inst : Instruction) : Recording :=
  let branches : List Program.Branch :=
    match inst.target? with
    | none => r.branches
    | some target => r.branches ++ [⟨r.text.length, target, inst.entry.format⟩]
  { r with branches := branches, text := r.text ++ [⟨inst.word, line⟩] }

/-- Handle a line of the text. A label is defined even if the instruction after it is at fault. -/
def textLine (r : Recording) (line : Nat) (code : String) : Except Error Recording := do
  let written ← WrittenCode.parse code
  let r := r.defineLabel written.label ⟨.text, 2 * r.text.length, line⟩
  match written.inst with
  | none => return r
  | some written => return r.addWord line (← Instruction.ofWritten written)

/-- Handle a line of the data. Its label stands for the first item, after what aligns it. -/
def dataLine (r : Recording) (line : Nat) (code : String) : Except Error Recording := do
  let written ← WrittenData.parse code
  let directive ← Directive.parse written.directive
  let (start, data) ← r.data.emit directive written.args line
  let r := { r with data := data }
  return r.defineLabel written.label ⟨.data, start, line⟩

def vectorLine (r : Recording) (line : Nat) (code : String) : Except Error Recording := do
  let written ← WrittenVector.parse code
  return { r with vectors := r.vectors ++ [⟨written.name, written.address, line⟩] }

/-- Handle a line in the section `current`; outside of all sections it is only noticed. -/
def line (r : Recording) (current : Option Section) (line : Nat) (code : String) :
    Except Error Recording :=
  match current with
  | some .text => r.textLine line code
  | some .data => r.dataLine line code
  | some .vectable => r.vectorLine line code
  | none => .ok (r.notice .stray line)

end Recording

/-- The section that is open, and what has been recorded so far. -/
structure Recorder where
  current : Option Section
  recording : Recording
deriving DecidableEq

namespace Recorder

/-- Handle a line of the source: a blank one, one that opens a section or a statement. -/
def step (r : Recorder) (line : Nat) (raw : String) : Except Error Recorder :=
  let code := lineCode raw
  if code = "" then .ok r
  else
    match Section.parse? code with
    | some next => .ok ⟨some next, r.recording⟩
    | none => do return ⟨r.current, ← r.recording.line r.current line code⟩

/-- Handle lines from the number `line` on, up to the first that is at fault. -/
def steps (r : Recorder) (line : Nat) : List String → Except Diagnostic Recorder
  | [] => .ok r
  | raw :: rest =>
    match r.step line raw with
    | .error e => .error ⟨line, raw, e⟩
    | .ok next => next.steps (line + 1) rest

def start (lines : List String) : Recorder :=
  ⟨none, .start lines.toArray⟩

def run (source : String) : Except Diagnostic Recording :=
  ((start (textLines source)).steps 1 (textLines source)).map (·.recording)

end Recorder

end SuperH
