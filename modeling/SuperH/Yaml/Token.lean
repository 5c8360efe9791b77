import SuperH.Yaml.Tag

/-!
# Tokens

The tokens of a YAML text that holds nothing but scalars and mappings of them.
-/
namespace SuperH.Yaml

inductive Token where
  | version (major minor : Nat)
  | handle (name : List Char) (start : List UInt8)
  | documentStart
  | documentEnd
  /-- Before the first key and after the last value of a mapping on lines of its own. -/
  | blockStart
  | blockEnd
  | braceOpen
  | braceClose
  | comma
  | key
  | value
  | aliasOf (name : List Char)
  | anchor (name : List Char)
  | tag (tag : WrittenTag)
  | scalar (isPlain : Bool) (text : List Char)
deriving DecidableEq

namespace Token

def name? (text : List Glyph) : Option (List Char × List Glyph) :=
  let name := text.takeWhile (isWordChar ·.char)
  let after := text.drop name.length
  if name ≠ [] ∧ (atSpace after ∨
      (char? after).any (['?', ':', ',', ']', '}', '%', '@', '\x60'].contains ·)) then
    some (chars name, after)
  else none

/-- Part of a version, of nine digits at most, and what follows. -/
def versionNumber? (text : List Glyph) : Option (Nat × List Glyph) := do
  let digits := text.takeWhile (·.char.isDigit)
  let n ← Text.natural? 10 (chars digits)
  if digits.length ≤ 9 then return (n, text.drop digits.length) else none

def version? (text : List Glyph) : Option (Token × List Glyph) := do
  let (major, text) ← versionNumber? (text.dropWhile (isGap ·.char))
  if char? text = some '.' then
    let (minor, text) ← versionNumber? (text.drop 1)
    return (.version major minor, text)
  else none

def handle? (text : List Glyph) : Option (Token × List Glyph) := do
  let text := text.dropWhile (isGap ·.char)
  if char? text ≠ some '!' then none
  let (name, text) := Yaml.handle (text.drop 1)
  if !(char? text).any isGap then none
  let (start, text) ← tagText? true (text.dropWhile (isGap ·.char))
  if atSpace text then return (.handle name start, text) else none

def directive? (text : List Glyph) : Option (Token × List Glyph) := do
  let name := text.takeWhile (isWordChar ·.char)
  let after := text.drop name.length
  if !atSpace after then none
  let (token, after) ←
    match String.ofList (chars name) with
    | "YAML" => version? after
    | "TAG" => handle? after
    | _ => none
  return (token, ← restOfLine? after)

def tag? (inBraces : Bool) (text : List Glyph) : Option (Token × List Glyph) := do
  let (written, after) ← writtenTag? text
  if atSpace after || (inBraces && char? after == some ',') then return (.tag written, after)
  else none

end Token
end SuperH.Yaml
