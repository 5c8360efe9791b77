import SuperH.Literal

/-!
# Data streams

The data section is a growing stream of bytes, each with the source line it comes from. A
directive for words or longs starts at an even offset; one zero byte fills the gap.
-/
namespace SuperH

structure SourceByte where
  value : UInt8
  line : Nat
deriving DecidableEq

inductive Directive where
  | byte | word | long | ascii | asciiz
deriving DecidableEq

namespace Directive

def name : Directive → String
  | .byte => ".byte"
  | .word => ".word"
  | .long => ".long"
  | .ascii => ".ascii"
  | .asciiz => ".asciiz"

def parse (s : String) : Except Error Directive :=
  match [byte, word, long, ascii, asciiz].find? fun d => Text.sameIgnoringCase d.name s with
  | some d => .ok d
  | none => .error (.unknownDirective s)

def width : Directive → Nat
  | .byte | .ascii | .asciiz => 1
  | .word => 2
  | .long => 4

def values (width : Nat) (args : String) : Except Error (List UInt8) := do
  if Text.trim args.toList = [] then throw (.malformed .noValues)
  let items ← (Text.splitOn ',' args.toList).mapM fun arg => do
    Literal.bigEndian (← Literal.value (String.ofList arg)) width
  return items.flatten

def payload (d : Directive) (args : String) : Except Error (List UInt8) :=
  match d with
  | .ascii => Literal.quoted args
  | .asciiz => return (← Literal.quoted args) ++ [0]
  | .byte | .word | .long => values d.width args

/-- Where the items of a directive start if the stream has reached `offset`. -/
def startAt (d : Directive) (offset : Nat) : Nat :=
  if 1 < d.width ∧ offset % 2 = 1 then offset + 1 else offset

/-- The bytes that a directive appends to a stream that has reached `offset`. -/
def bytesAt (d : Directive) (offset : Nat) (payload : List UInt8) (line : Nat) :
    List SourceByte :=
  List.replicate (d.startAt offset - offset) ⟨0, line⟩ ++ payload.map (⟨·, line⟩)

end Directive

def wordOfBytes (high low : UInt8) : Word :=
  high.toBitVec ++ low.toBitVec

structure DataSection where
  bytes : List SourceByte
deriving DecidableEq

namespace DataSection

def empty : DataSection := ⟨[]⟩

def offset (s : DataSection) : Nat :=
  s.bytes.length

def push (values : List UInt8) (line : Nat) : StateM DataSection Unit :=
  modify fun s => ⟨s.bytes ++ values.map (⟨·, line⟩)⟩

def align (line : Nat) : StateM DataSection Unit := do
  if (← get).offset % 2 = 1 then push [0] line

/-- Add what a directive stands for, and give the offset of its first item. The arguments are read
before anything is added: the stream outlives an error. -/
def emit (d : Directive) (args : String) (line : Nat) : ExceptT Error (StateM DataSection) Nat := do
  let payload ← ofExcept (d.payload args)
  if 1 < d.width then align line
  let start := (← get).offset
  push payload line
  return start

/-- Words of a stream, with the line of the high byte; zero stands for a missing low byte. -/
def pairUp : List SourceByte → List (Word × Nat)
  | [] => []
  | [high] => [(wordOfBytes high.value 0, high.line)]
  | high :: low :: rest => (wordOfBytes high.value low.value, high.line) :: pairUp rest

def words (s : DataSection) : List (Word × Nat) :=
  pairUp s.bytes

end DataSection

end SuperH
