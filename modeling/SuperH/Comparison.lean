import SuperH.Literal
import SuperH.Source.Line

/-!
# Comparing memory

A list of expected bytes from a start address is compared with a dump of memory. Both are text:
the first holds a start line and one `B.`, `W.` or `L.` value a line, the second eight or sixteen
binary digits a line. Comments are as in sources.
-/
namespace SuperH

/-- The bytes that memory should hold from an address on. -/
structure Expectation where
  start : Nat
  bytes : List UInt8
deriving DecidableEq

namespace Expectation

def afterColon? (s : List Char) : Option (List Char) :=
  if s.contains ':' then some (s.reverse.takeWhile (· != ':')).reverse else none

/-- The 32-bit address after the last colon of a start line. -/
def startAddress (code : String) : Except Error Nat :=
  match afterColon? code.toList with
  | none => .error (.malformed (.notStart code))
  | some rest =>
    let addr := Text.trim rest
    match Text.unsigned? 16 (Nat.pow 2 32) (Text.dropHexMark addr) with
    | some n => .ok n
    | none => .error (.invalidNumber (String.ofList addr))

/-- The width that the mark of a line names, and the value after it. -/
def item? : List Char → Option (Nat × List Char)
  | c :: '.' :: value =>
    if c = 'B' ∨ c = 'b' then some (1, value)
    else if c = 'W' ∨ c = 'w' then some (2, value)
    else if c = 'L' ∨ c = 'l' then some (4, value)
    else none
  | _ => none

def itemBytes (code : String) : Except Error (List UInt8) :=
  match item? code.toList with
  | none => .error (.malformed (.notItem code))
  | some (width, value) => do
    Literal.bigEndian (← Literal.value (String.ofList value)) width

/-- The first line of code gives the start, every other one a value. -/
def parse (text : String) : Except Diagnostic Expectation :=
  match SourceLine.ofText text with
  | [] => .error ⟨0, "", .malformed .noStart⟩
  | first :: rest => do
    let start ← first.diagnose (startAddress first.code)
    let items ← rest.mapM fun l => l.diagnose (itemBytes l.code)
    return ⟨start, items.flatten⟩

end Expectation

namespace Dump

/-- The bytes of eight or sixteen characters that write a binary number below `2 ^ 16`. -/
def lineBytes (code : String) : Except Error (List UInt8) :=
  let size := code.utf8ByteSize
  match Text.unsigned? 2 (Nat.pow 2 16) code.toList with
  | some n =>
    if size = 16 then .ok [UInt8.ofNat (n / 256), UInt8.ofNat n]
    else if size = 8 then .ok [UInt8.ofNat n]
    else .error (.malformed (.notBits code))
  | none => .error (.malformed (.notBits code))

def parse (text : String) : Except Diagnostic (List UInt8) := do
  let chunks ← (SourceLine.ofText text).mapM fun l => l.diagnose (lineBytes l.code)
  return chunks.flatten

end Dump

/-- An expected byte that memory does not hold, and what it holds if the dump reaches that far. -/
structure Difference where
  addr : Nat
  expected : UInt8
  actual : Option UInt8
deriving DecidableEq

def Difference.text (m : Difference) : String :=
  Text.address m.addr ++ " - expected " ++ Text.fixedBinary 8 m.expected.toNat ++ " - actual " ++
    match m.actual with
    | some actual => Text.fixedBinary 8 actual.toNat
    | none => "--------"

def dumpByte? (dump : Array UInt8) (origin addr : Nat) : Option UInt8 :=
  if origin ≤ addr then dump[addr - origin]? else none

/-- The expected bytes that a dump from `origin` on does not hold. Addresses wrap around at the
end of the 32-bit address space. -/
def Expectation.differences (e : Expectation) (dump : List UInt8) (origin : Nat) :
    List Difference :=
  let memory := dump.toArray
  e.bytes.zipIdx.filterMap fun (want, index) =>
    let addr := (e.start + index) % Nat.pow 2 32
    let actual := dumpByte? memory origin addr
    if actual = some want then none else some ⟨addr, want, actual⟩

end SuperH
