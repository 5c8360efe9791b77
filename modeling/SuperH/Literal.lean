import SuperH.Error
import SuperH.Text.Blank
import SuperH.Text.Case

/-!
# Literals

Numbers as operands and data directives write them, their big-endian bytes, and quoted strings.
-/
namespace SuperH.Literal

def takeSign : List Char → Bool × List Char
  | '-' :: rest => (true, rest)
  | '+' :: rest => (false, rest)
  | rest => (false, rest)

/-- The radix that a mark in lower case names, and the digits after it. -/
def takeRadix : List Char → Nat × List Char
  | '0' :: 'x' :: digits => (16, digits)
  | '0' :: 'b' :: digits => (2, digits)
  | '0' :: 'o' :: digits => (8, digits)
  | digits => (10, digits)

/-- A number without blanks around it, of magnitude below `2 ^ 63`. -/
def number? (s : List Char) : Option Int :=
  let (negative, unsigned) := takeSign s
  let (radix, digits) := takeRadix (unsigned.map Char.toLower)
  ((Text.natural? radix digits).filter (· < Nat.pow 2 63)).map fun n => if negative then -n else n

/-- A number: an optional sign, then digits after `0x`, `0b` or `0o`, or decimal digits. -/
def number (s : String) : Except Error Int :=
  match number? (Text.trim s.toList) with
  | some n => .ok n
  | none => .error (.invalidNumber s)

/-- The digits of a value in the short binary form, `b` or `B` and then binary digits only. -/
def binaryDigits? : List Char → Option (List Char)
  | c :: digits =>
    if (c = 'b' ∨ c = 'B') ∧ digits ≠ [] ∧ digits.all (fun d => d = '0' ∨ d = '1') then some digits
    else none
  | [] => none

/-- A value of a data directive: a number, or the short binary form. -/
def value (s : String) : Except Error Int :=
  let t := Text.trim s.toList
  match binaryDigits? t with
  | some digits =>
    match (Text.natural? 2 digits).filter (· < Nat.pow 2 63) with
    | some n => .ok n
    | none => .error (.invalidNumber s)
  | none => number (String.ofList t)

/-- The low `width` bytes of a number, the highest first. -/
def lowBytes (value : Int) : (width : Nat) → List UInt8
  | 0 => []
  | width + 1 => UInt8.ofNat (value / 256 ^ width % 256).toNat :: lowBytes value width

/-- The bytes of a value that fits in `width` bytes, signed or unsigned. -/
def bigEndian (value : Int) (width : Nat) : Except Error (List UInt8) :=
  if Fits value (8 * width) then .ok (lowBytes value width)
  else .error (.outOfRange value (8 * width))

def insideQuotes? : List Char → Option (List Char)
  | '"' :: rest => if rest.getLast? = some '"' then some rest.dropLast else none
  | _ => none

def unescape : List Char → Except Error (List Char)
  | [] => .ok []
  | ['\\'] => .error (.malformed .danglingEscape)
  | '\\' :: c :: rest => do
    let plain ← match c with
      | 'n' => .ok '\n'
      | 't' => .ok '\t'
      | 'r' => .ok '\r'
      | '0' => .ok (Char.ofNat 0)
      | '\\' => .ok '\\'
      | '"' => .ok '"'
      | other => .error (.malformed (.unknownEscape other))
    return plain :: (← unescape rest)
  | c :: rest => return c :: (← unescape rest)

def quoted (s : String) : Except Error (List UInt8) :=
  match insideQuotes? (Text.trim s.toList) with
  | none => .error (.malformed (.notQuoted s))
  | some inner => return (← unescape inner).flatMap String.utf8EncodeChar

end SuperH.Literal
