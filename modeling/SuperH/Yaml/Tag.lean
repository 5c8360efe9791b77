import SuperH.Text.Digits
import SuperH.Yaml.Glyph

/-!
# Tags

A tag is a sequence of octets. It is written whole between angle brackets, or as a handle that
stands for how the tag starts, and a suffix.
-/
namespace SuperH.Yaml

structure Tag where
  octets : List UInt8
deriving DecidableEq

def Tag.null : Tag := ⟨"tag:yaml.org,2002:null".toUTF8.toList⟩

/-- A handle and a suffix. A tag that is written whole has an empty handle. -/
structure WrittenTag where
  handle : List Char
  suffix : List UInt8
deriving DecidableEq

abbrev Handles := List (List Char × List UInt8)

def Handles.usual : Handles :=
  [(['!'], "!".toUTF8.toList), (['!', '!'], "tag:yaml.org,2002:".toUTF8.toList)]

def WrittenTag.resolve? (tag : WrittenTag) (handles : Handles) : Option Tag :=
  if tag.handle = [] then some ⟨tag.suffix⟩
  else ((handles ++ Handles.usual).lookup tag.handle).map fun start => ⟨start ++ tag.suffix⟩

/-- The characters of a tag. Some may stand only in a whole tag, where no bracket can end it. -/
def isTagChar (whole : Bool) (c : Char) : Bool :=
  isWordChar c || ";/?:@&=+$.!~*'()".toList.contains c || (whole && [',', '[', ']'].contains c)

/-- How many octets follow the first octet of an encoded character. -/
def octetsAfter? (octet : Nat) : Option Nat :=
  if octet < 0x80 then some 0
  else if 0xC0 ≤ octet && octet < 0xE0 then some 1
  else if 0xE0 ≤ octet && octet < 0xF0 then some 2
  else if 0xF0 ≤ octet && octet < 0xF8 then some 3
  else none

/-- Octets of a tag and what follows. A percent sign and two digits write an octet; `due` more of
these complete the character that the last of them started. -/
def tagOctets? (whole : Bool) (due : Nat) : List Glyph → Option (List UInt8 × List Glyph)
  | [] => if due = 0 then some ([], []) else none
  | g :: rest =>
    if g.char == '%' then
      match rest with
      | high :: low :: rest => do
        let octet := 16 * (← Text.digit? 16 high.char) + (← Text.digit? 16 low.char)
        let due ←
          if due = 0 then octetsAfter? octet
          else if 0x80 ≤ octet && octet < 0xC0 then some (due - 1)
          else none
        let (octets, after) ← tagOctets? whole due rest
        return (octet.toUInt8 :: octets, after)
      | _ => none
    else if due ≠ 0 then none
    else if isTagChar whole g.char then do
      let (octets, after) ← tagOctets? whole 0 rest
      return (g.char.toNat.toUInt8 :: octets, after)
    else some ([], g :: rest)

/-- Octets of a tag, one at least, and what follows. A zero octet ends the tag. -/
def tagText? (whole : Bool) (text : List Glyph) : Option (List UInt8 × List Glyph) := do
  let (octets, after) ← tagOctets? whole 0 text
  if octets = [] then none else return (octets.takeWhile (· != 0), after)

/-- A handle after its first `!`, and what follows. Without a second `!` only the first counts. -/
def handle (text : List Glyph) : List Char × List Glyph :=
  let word := text.takeWhile (isWordChar ·.char)
  match text.drop word.length with
  | g :: after => if g.char == '!' then ('!' :: chars word ++ ['!'], after) else (['!'], text)
  | [] => (['!'], text)

def writtenTag? (text : List Glyph) : Option (WrittenTag × List Glyph) :=
  if char? text = some '<' then do
    let (octets, after) ← tagText? true (text.drop 1)
    if char? after = some '>' then return (⟨[], octets⟩, after.drop 1) else none
  else
    match handle text with
    | (['!'], text) => do
      let (octets, after) ← tagOctets? false 0 text
      match octets.takeWhile (· != 0) with
      | [] => return (⟨[], "!".toUTF8.toList⟩, after)
      | suffix => return (⟨['!'], suffix⟩, after)
    | (handle, text) => do
      let (suffix, after) ← tagText? false text
      return (⟨handle, suffix⟩, after)

end SuperH.Yaml
