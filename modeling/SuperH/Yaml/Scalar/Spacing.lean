import SuperH.Yaml.Glyph

/-!
# Spacing inside scalars

What stands between two words of a plain or quoted scalar, and the text it becomes.
-/
namespace SuperH.Yaml

/-- Gaps within a line, or the ends of lines. An escape takes away the first of these. -/
inductive Spacing where
  | gaps (chars : List Char)
  | breaks (first : Option Char) (more : List Char)
deriving DecidableEq

namespace Spacing

def tight : Spacing := .gaps []

def isBroken : Spacing → Bool
  | .gaps _ => false
  | .breaks _ _ => true

/-- Add a gap or the end of a line. Gaps beside the end of a line are lost. -/
def push (spacing : Spacing) (c : Char) : Spacing :=
  match spacing with
  | .gaps chars => if isBreak c then .breaks (some c) [] else .gaps (chars ++ [c])
  | .breaks first more => if isBreak c then .breaks first (more ++ [c]) else spacing

/-- A single line feed becomes a space, and of several the first is lost. -/
def text : Spacing → List Char
  | .gaps chars => chars
  | .breaks (some '\n') [] => [' ']
  | .breaks (some '\n') more => more
  | .breaks first more => first.toList ++ more

end Spacing
end SuperH.Yaml
