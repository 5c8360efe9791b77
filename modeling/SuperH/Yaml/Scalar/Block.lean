import SuperH.Text.Digits
import SuperH.Yaml.Glyph

/-!
# Block scalars

Whole lines that are further in than what surrounds them, after a bar if they stay lines, after an
angle bracket if they are folded.
-/
namespace SuperH.Yaml

/-- What becomes of the line ends after the last line: none stays, one does or all do. -/
inductive Chomp where
  | strip | clip | keep
deriving DecidableEq

def chomp? : Char → Option Chomp
  | '-' => some .strip
  | '+' => some .keep
  | _ => none

/-- A chomping mark, if there is one, and what follows. -/
def chompMark (text : List Glyph) : Option Chomp × List Glyph :=
  match (char? text).bind chomp? with
  | some chomp => (some chomp, text.drop 1)
  | none => (none, text)

/-- A depth from one to nine, if there is one, and what follows. -/
def depthMark? (text : List Glyph) : Option (Option Nat × List Glyph) :=
  match (char? text).bind (Text.digit? 10) with
  | some 0 => none
  | some depth => some (some depth, text.drop 1)
  | none => some (none, text)

/-- The marks after the bar or angle bracket, in either order, and what follows their line. -/
def blockHeader? (text : List Glyph) : Option (Chomp × Option Nat × List Glyph) := do
  let (before, text) := chompMark text
  let (depth, text) ← depthMark? text
  let (after, text) := if before.isNone && depth.isSome then chompMark text else (none, text)
  return ((before.or after).getD .clip, depth, ← restOfLine? text)

/-- The furthest column among the first lines, up to the first that is not empty. -/
def blockColumn? (furthest : Nat) : List Glyph → Option Nat
  | [] => some furthest
  | g :: rest =>
    if g.char == ' ' then blockColumn? furthest rest
    else if g.char == '\t' then none
    else if isBreak g.char then blockColumn? (max furthest g.column) rest
    else some (max furthest g.column)

/-- Line ends that are not yet part of the text: the one after the last line, and those after empty
lines. -/
structure OpenBreaks where
  first : Option Char := none
  more : List Char := []

namespace OpenBreaks

/-- The text of line ends between two lines. Folding makes a space of a single line feed, unless a
line beside it starts with a gap. -/
def text (breaks : OpenBreaks) (folds : Bool) : List Char :=
  if folds && breaks.first == some '\n' then
    if breaks.more = [] then [' '] else breaks.more
  else breaks.first.toList ++ breaks.more

def chomped (breaks : OpenBreaks) : Chomp → List Char
  | .strip => []
  | .clip => breaks.first.toList
  | .keep => breaks.first.toList ++ breaks.more

end OpenBreaks

/-- Lines that start at `column`, and what follows them. `gapBefore` says that the line before
starts with a gap. -/
def blockLines? (folded : Bool) (chomp : Chomp) (column : Nat) (inLine gapBefore : Bool)
    (breaks : OpenBreaks) : List Glyph → Option (List Char × List Glyph)
  | [] => some (breaks.chomped chomp, [])
  | g :: rest =>
    if inLine then
      if isBreak g.char then
        blockLines? folded chomp column false gapBefore { first := some g.char } rest
      else do
        let (text, after) ← blockLines? folded chomp column true gapBefore {} rest
        return (g.char :: text, after)
    else if isBreak g.char then
      blockLines? folded chomp column false gapBefore
        { breaks with more := breaks.more ++ [g.char] } rest
    else if g.column < column && isGap g.char then
      if g.char == '\t' then none
      else blockLines? folded chomp column false gapBefore breaks rest
    else if g.column == column then do
      let gap := isGap g.char
      let (text, after) ← blockLines? folded chomp column true gap {} rest
      return (breaks.text (folded && !gapBefore && !gap) ++ g.char :: text, after)
    else some (breaks.chomped chomp, g :: rest)

/-- The text of a block scalar after its bar or angle bracket, and what follows. `margin` is the
least column of its lines. -/
def block? (folded : Bool) (margin : Nat) (text : List Glyph) :
    Option (List Char × List Glyph) := do
  let (chomp, depth, lines) ← blockHeader? text
  let column ←
    match depth with
    | some depth => some (margin - 1 + depth)
    | none => (blockColumn? 0 lines).map (max · (max margin 1))
  blockLines? folded chomp column false false {} lines

end SuperH.Yaml
