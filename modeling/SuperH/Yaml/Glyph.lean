/-!
# Placed characters

The characters of a YAML text, each with the line and the column where it stands.
-/
namespace SuperH.Yaml

def isGap (c : Char) : Bool :=
  c == ' ' || c == '\t'

/-- The characters that end a line once `unifyBreaks` has made one of the others. -/
def isBreak (c : Char) : Bool :=
  c == '\n' || c == '\u2028' || c == '\u2029'

def isPrintable (c : Char) : Bool :=
  let n := c.toNat
  n == 0x09 || n == 0x0A || n == 0x0D || (0x20 ≤ n && n ≤ 0x7E) || n == 0x85 ||
    (0xA0 ≤ n && n != 0xFFFE && n != 0xFFFF)

/-- The characters of names of anchors, handles and directives. -/
def isWordChar (c : Char) : Bool :=
  c.isAlphanum || c == '_' || c == '-'

/-- A character, its line and its column, both counted from zero. -/
structure Glyph where
  char : Char
  line : Nat
  column : Nat
deriving DecidableEq

/-- One line feed for a carriage return, for a next-line character, and for a carriage return with
a line feed. Line and paragraph separators stay. -/
def unifyBreaks : List Char → List Char
  | [] => []
  | '\r' :: '\n' :: rest => '\n' :: unifyBreaks rest
  | c :: rest => (if c == '\r' || c == '\u0085' then '\n' else c) :: unifyBreaks rest

def place (line column : Nat) : List Char → List Glyph
  | [] => []
  | c :: rest =>
    ⟨c, line, column⟩ :: if isBreak c then place (line + 1) 0 rest else place line (column + 1) rest

def glyphs? (text : String) : Option (List Glyph) :=
  let chars := text.toList
  if chars.all isPrintable then some (place 0 0 (unifyBreaks chars)) else none

def chars (text : List Glyph) : List Char :=
  text.map (·.char)

def char? (text : List Glyph) : Option Char :=
  text.head?.map (·.char)

/-- No word goes on here: there is a gap, the end of a line or the end of the text. -/
def atSpace (text : List Glyph) : Bool :=
  (char? text).all fun c => isGap c || isBreak c

/-- A line starts here with `c` three times and nothing joined to it. -/
def atMark (c : Char) : List Glyph → Bool
  | g₁ :: g₂ :: g₃ :: rest =>
    g₁.column == 0 && g₁.char == c && g₂.char == c && g₃.char == c && atSpace rest
  | _ => false

/-- A line starts here that starts or ends a document. -/
def atDocumentMark (text : List Glyph) : Bool :=
  atMark '-' text || atMark '.' text

/-- What follows the end of this line, on which only gaps and a comment may stand. -/
def restOfLine? (text : List Glyph) : Option (List Glyph) :=
  match text.dropWhile (isGap ·.char) with
  | [] => some []
  | g :: rest =>
    if g.char == '#' then some ((rest.dropWhile (!isBreak ·.char)).drop 1)
    else if isBreak g.char then some rest
    else none

end SuperH.Yaml
