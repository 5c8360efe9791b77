import SuperH.Yaml.Scalar.Spacing

/-!
# Plain scalars
-/
namespace SuperH.Yaml

def isBracePunctuation (c : Char) : Bool :=
  [',', '[', ']', '{', '}'].contains c

def startsPlain (inBraces : Bool) (c : Char) (rest : List Glyph) : Bool :=
  if c == '-' then !atSpace rest
  else if c == '?' || c == ':' then !inBraces && !atSpace rest
  else !(isGap c || isBreak c || isBracePunctuation c ||
    ['#', '&', '*', '!', '|', '>', '\'', '"', '%', '@', '\x60'].contains c)

/-- The text of a plain scalar, the spacing after it and what follows. It goes on over lines that
start at `margin` or further in, and between braces over all. -/
def plain? (inBraces : Bool) (margin : Nat) (spacing : Spacing) :
    List Glyph → Option (List Char × Spacing × List Glyph)
  | [] => some ([], spacing, [])
  | g :: rest =>
    if isGap g.char || isBreak g.char then
      if g.char == '\t' && spacing.isBroken && g.column < margin then none
      else plain? inBraces margin (spacing.push g.char) rest
    else if inBraces && g.char == ':' &&
        (char? rest).any (fun c => c == '?' || isBracePunctuation c) then none
    else if atDocumentMark (g :: rest) || (g.char == ':' && atSpace rest) ||
        (spacing != .tight && (g.char == '#' || (!inBraces && g.column < margin))) ||
        (inBraces && isBracePunctuation g.char) then some ([], spacing, g :: rest)
    else do
      let (text, after) ← plain? inBraces margin .tight rest
      return (spacing.text ++ g.char :: text, after)

end SuperH.Yaml
