import SuperH.Error
import SuperH.Text.Blank
import SuperH.Text.Case

/-!
# Source lines

The code of a line is what stands before its comment. A line of code either opens a section or is
a statement, which may start with a label. Labels come out in upper case.
-/
namespace SuperH

def textLines (text : String) : List String :=
  (Text.lines text.toList).map String.ofList

/-- The part of a line before a semicolon outside quotes. A quote after a backslash, `before`,
does not open or close a quoted part. -/
def beforeComment (quoted : Bool) (before : Char) : List Char → List Char
  | [] => []
  | c :: rest =>
    if c = ';' && !quoted then []
    else c :: beforeComment (if c = '"' && before != '\\' then !quoted else quoted) c rest

/-- A line without its comment and the blanks around its code. -/
def lineCode (line : String) : String :=
  String.ofList (Text.trim (beforeComment false (Char.ofNat 0) line.toList))

/-- A line that has code: its number, its text and its code. -/
structure SourceLine where
  number : Nat
  raw : String
  code : String
deriving DecidableEq

namespace SourceLine

/-- The lines with code among those from number `number` on. -/
def numbered (number : Nat) : List String → List SourceLine
  | [] => []
  | raw :: rest =>
    let code := lineCode raw
    if code = "" then numbered (number + 1) rest
    else ⟨number, raw, code⟩ :: numbered (number + 1) rest

def ofText (text : String) : List SourceLine :=
  numbered 1 (textLines text)

def diagnose {α : Type} (l : SourceLine) (result : Except Error α) : Except Diagnostic α :=
  match result with
  | .ok a => .ok a
  | .error e => .error ⟨l.number, l.raw, e⟩

end SourceLine

def startsIdentifier (c : Char) : Bool :=
  c.isAlpha || c == '_'

def continuesIdentifier (c : Char) : Bool :=
  c.isAlphanum || c == '_' || c == '.'

def isIdentifierText : List Char → Bool
  | [] => false
  | c :: rest => startsIdentifier c && rest.all continuesIdentifier

/-- ASCII letters, digits, underscores and dots, starting with a letter or an underscore. -/
def isIdentifier (s : String) : Bool :=
  isIdentifierText s.toList

inductive Section where
  | text | data | vectable
deriving DecidableEq

namespace Section

def name : Section → String
  | .text => ".text"
  | .data => ".data"
  | .vectable => ".vectable"

/-- The section that the first word of a line switches to. -/
def parse? (code : String) : Option Section :=
  (Text.firstWord? code.toList).bind fun word =>
    [text, data, vectable].find? fun s => Text.sameIgnoringCase s.name (String.ofList word)

end Section

/-- The name before a colon and the text after it. The name has no blanks and no colon, and the
text after the colon, less the blanks it starts with, has to be a single line. -/
def labelled? (code : List Char) : Option (List Char × List Char) :=
  let inName (c : Char) : Bool := !Text.isBlank c && c != ':'
  match code.takeWhile inName, Text.trimStart (code.dropWhile inName) with
  | c :: name, ':' :: rest =>
    let rest := Text.trimStart rest
    if rest.contains '\n' then none else some (c :: name, rest)
  | _, _ => none

/-- The label of a statement, if it has one, and the rest of its code. -/
def takeLabel (code : List Char) : Except Error (Option String × List Char) :=
  match labelled? code with
  | none => .ok (none, code)
  | some (name, rest) =>
    if isIdentifierText name then .ok (some (String.ofList (Text.upper name)), rest)
    else .error (.malformed (.labelName (String.ofList name)))

end SuperH
