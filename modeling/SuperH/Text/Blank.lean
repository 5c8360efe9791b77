/-!
# White space and lines

Text is scanned as a list of characters. A blank is a character with the Unicode property
White_Space; a line ends at a line feed, together with one carriage return just before it.
-/
namespace SuperH.Text

/-- The property White_Space of Unicode. -/
def isBlank (c : Char) : Bool :=
  let n := c.toNat
  (0x09 ≤ n && n ≤ 0x0D) || n == 0x20 || n == 0x85 || n == 0xA0 || n == 0x1680 ||
    (0x2000 ≤ n && n ≤ 0x200A) || n == 0x2028 || n == 0x2029 || n == 0x202F || n == 0x205F ||
    n == 0x3000

def trimStart (s : List Char) : List Char :=
  s.dropWhile isBlank

def trimEnd (s : List Char) : List Char :=
  (s.reverse.dropWhile isBlank).reverse

def trim (s : List Char) : List Char :=
  trimEnd (trimStart s)

/-- The first maximal run of characters that are not blank. -/
def firstWord? (s : List Char) : Option (List Char) :=
  match (trimStart s).takeWhile (!isBlank ·) with
  | [] => none
  | word => some word

/-- Text before the first blank, and the trimmed text after it. -/
def cutAtBlank (s : List Char) : List Char × List Char :=
  (s.takeWhile (!isBlank ·), trim (s.dropWhile (!isBlank ·)))

/-- Put a character in front of the first piece of a list of pieces. -/
def consHead (c : Char) : List (List Char) → List (List Char)
  | [] => [[c]]
  | piece :: pieces => (c :: piece) :: pieces

/-- The lines of a text without their ends; nothing follows a final line feed. -/
def lines : List Char → List (List Char)
  | [] => []
  | '\n' :: rest => [] :: lines rest
  | '\r' :: '\n' :: rest => [] :: lines rest
  | c :: rest => consHead c (lines rest)

/-- The pieces of a text between the separators `sep`; at least one. -/
def splitOn (sep : Char) : List Char → List (List Char)
  | [] => [[]]
  | c :: rest => if c = sep then [] :: splitOn sep rest else consHead c (splitOn sep rest)

end SuperH.Text
