/-!
# Digits

Reading digits in a radix up to 16, and writing numbers in a fixed or least number of digits.
-/
namespace SuperH.Text

/-- The value of a digit below `radix`, letters in either case. -/
def digit? (radix : Nat) (c : Char) : Option Nat :=
  let value :=
    if '0' ≤ c ∧ c ≤ '9' then c.toNat - '0'.toNat
    else if 'a' ≤ c ∧ c ≤ 'f' then c.toNat - 'a'.toNat + 10
    else if 'A' ≤ c ∧ c ≤ 'F' then c.toNat - 'A'.toNat + 10
    else radix
  if value < radix then some value else none

/-- The number that a text of one or more digits writes. -/
def natural? (radix : Nat) : List Char → Option Nat
  | [] => none
  | digits => digits.foldlM (fun n c => (digit? radix c).map (n * radix + ·)) 0

/-- A number below `limit`, which may start with one plus sign. -/
def unsigned? (radix limit : Nat) : List Char → Option Nat
  | '+' :: digits => (natural? radix digits).filter (· < limit)
  | digits => (natural? radix digits).filter (· < limit)

/-- Text after a hexadecimal mark `0x` or `0X`, if it has one. -/
def dropHexMark : List Char → List Char
  | '0' :: 'x' :: digits => digits
  | '0' :: 'X' :: digits => digits
  | digits => digits

def digitChar (d : Nat) : Char :=
  if d < 10 then Char.ofNat ('0'.toNat + d) else Char.ofNat ('A'.toNat + (d - 10))

/-- The last `width` digits of `n`. -/
def fixedDigits (radix : Nat) : (width : Nat) → (n : Nat) → List Char
  | 0, _ => []
  | width + 1, n => digitChar (n / radix ^ width % radix) :: fixedDigits radix width n

def fixedHex (width n : Nat) : String :=
  String.ofList (fixedDigits 16 width n)

def fixedBinary (width n : Nat) : String :=
  String.ofList (fixedDigits 2 width n)

/-- An address as eight hexadecimal digits after `0x`. -/
def address (n : Nat) : String :=
  "0x" ++ fixedHex 8 n

def hexLower (n : Nat) : String :=
  String.ofList (Nat.toDigits 16 n)

def hexUpper (n : Nat) : String :=
  String.ofList ((Nat.toDigits 16 n).map Char.toUpper)

def spaces (n : Nat) : String :=
  String.ofList (List.replicate n ' ')

def padRight (width : Nat) (s : String) : String :=
  s ++ spaces (width - s.length)

def padLeft (width : Nat) (s : String) : String :=
  spaces (width - s.length) ++ s

end SuperH.Text
