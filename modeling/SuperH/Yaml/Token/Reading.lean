import SuperH.Yaml.Scalar.Block
import SuperH.Yaml.Scalar.Plain
import SuperH.Yaml.Scalar.Quoted
import SuperH.Yaml.Token

/-!
# Reading tokens

A colon makes a key of what stands before it, so the token that says where a key starts is put in
only when its colon is found. A text with a sequence, or with a mapping inside another, is refused.
-/
namespace SuperH.Yaml

/-- A place where a key may have started: how many tokens stand before it, its line and column, and
whether nothing but a key may stand there. -/
structure KeyPlace where
  tokensBefore : Nat
  line : Nat
  column : Nat
  isRequired : Bool

structure Reader where
  /-- The last token first. -/
  tokens : List Token := []
  inBraces : Bool := false
  /-- The column of the keys of the mapping that is open, unless that is in braces. -/
  indent : Option Nat := none
  /-- A key may start at the next token. -/
  keyAllowed : Bool := true
  keyPlace : Option KeyPlace := none

namespace Reader

def push (r : Reader) (token : Token) : Reader :=
  { r with tokens := token :: r.tokens }

/-- Put tokens in where only `count` tokens were read. -/
def insert (r : Reader) (count : Nat) (tokens : List Token) : Reader :=
  let after := r.tokens.length - count
  { r with tokens := r.tokens.take after ++ tokens.reverse ++ r.tokens.drop after }

/-- Give up the place of a key that has not found its colon. -/
def dropKey? (r : Reader) : Option Reader :=
  if r.keyPlace.any (·.isRequired) then none else some { r with keyPlace := none }

/-- A key and its colon stand on one line, the colon at most 1024 columns after the start. -/
def expireKey? (r : Reader) (g : Glyph) : Option Reader :=
  if r.keyPlace.any fun k => k.line < g.line || k.column + 1024 < g.column then r.dropKey?
  else some r

/-- A key may start here, and not at the token after. -/
def startKey? (r : Reader) (g : Glyph) : Option Reader :=
  if r.keyAllowed then do
    let r ← r.dropKey?
    return { r with
      keyAllowed := false
      keyPlace := some
        { tokensBefore := r.tokens.length, line := g.line, column := g.column,
          isRequired := !r.inBraces && r.indent == some g.column } }
  else some r

/-- The mapping on lines of its own ends before text that is less far in. -/
def closeBlock (r : Reader) (endsBefore : Nat → Bool) : Reader :=
  if !r.inBraces && r.indent.any endsBefore then { r.push .blockEnd with indent := none } else r

/-- A key or value at `column`, after `count` tokens, opens a mapping unless one is open. -/
def openBlock? (r : Reader) (count column : Nat) : Option Reader :=
  match r.inBraces, r.indent with
  | true, _ => some r
  | false, none => some { r.insert count [.blockStart] with indent := some column }
  | false, some indent => if indent < column then none else some r

def readKey? (r : Reader) (g : Glyph) : Option Reader := do
  if !r.inBraces && !r.keyAllowed then none
  let r ← r.openBlock? r.tokens.length g.column
  let r ← r.dropKey?
  return { r.push .key with keyAllowed := !r.inBraces }

def readValue? (r : Reader) (g : Glyph) : Option Reader :=
  match r.keyPlace with
  | some k => do
    let r := r.insert k.tokensBefore [.key]
    let r ← r.openBlock? k.tokensBefore k.column
    return { r.push .value with keyAllowed := false, keyPlace := none }
  | none => do
    if !r.inBraces && !r.keyAllowed then none
    let r ← r.openBlock? r.tokens.length g.column
    return { r.push .value with keyAllowed := !r.inBraces }

def readMark? (r : Reader) (token : Token) : Option Reader := do
  let r ← (r.closeBlock fun _ => true).dropKey?
  return { r.push token with keyAllowed := false }

/-- The least column of text that belongs to a value. -/
def margin (r : Reader) : Nat :=
  match r.indent with
  | some indent => indent + 1
  | none => 0

def readPlain? (r : Reader) (g : Glyph) (rest : List Glyph) : Option (Reader × List Glyph) := do
  let r ← r.startKey? g
  let (text, spacing, after) ← plain? r.inBraces r.margin .tight (g :: rest)
  return ({ r.push (.scalar true text) with keyAllowed := spacing.isBroken }, after)

def readQuoted? (r : Reader) (g : Glyph) (rest : List Glyph) : Option (Reader × List Glyph) := do
  let r ← r.startKey? g
  let (text, after) ← quoted? g.char none .tight rest
  return (r.push (.scalar false text), after)

def readBlock? (r : Reader) (g : Glyph) (rest : List Glyph) : Option (Reader × List Glyph) := do
  let r ← r.dropKey?
  let (text, after) ← block? (g.char == '>') r.margin rest
  return ({ r.push (.scalar false text) with keyAllowed := true }, after)

def readProperty? (r : Reader) (g : Glyph) (rest : List Glyph) : Option (Reader × List Glyph) := do
  let r ← r.startKey? g
  let (token, after) ←
    match g.char with
    | '*' => (Token.name? rest).map fun (name, after) => (.aliasOf name, after)
    | '&' => (Token.name? rest).map fun (name, after) => (.anchor name, after)
    | _ => Token.tag? r.inBraces rest
  return (r.push token, after)

def readToken? (r : Reader) (g : Glyph) (rest : List Glyph) : Option (Reader × List Glyph) :=
  if g.column == 0 && g.char == '%' then do
    let (token, after) ← Token.directive? rest
    return (← r.readMark? token, after)
  else if atMark '-' (g :: rest) then do return (← r.readMark? .documentStart, rest.drop 2)
  else if atMark '.' (g :: rest) then do return (← r.readMark? .documentEnd, rest.drop 2)
  else
    match g.char with
    | '{' =>
      if r.inBraces then none
      else
        some ({ r.push .braceOpen with inBraces := true, keyAllowed := true, keyPlace := none },
          rest)
    | '}' =>
      if r.inBraces then
        some ({ r.push .braceClose with inBraces := false, keyAllowed := false, keyPlace := none },
          rest)
      else none
    | ',' =>
      if r.inBraces then some ({ r.push .comma with keyAllowed := true, keyPlace := none }, rest)
      else none
    | '*' | '&' | '!' => r.readProperty? g rest
    | '\'' | '"' => r.readQuoted? g rest
    | '|' | '>' => if r.inBraces then none else r.readBlock? g rest
    | c =>
      if c == '?' && (r.inBraces || atSpace rest) then do return (← r.readKey? g, rest)
      else if c == ':' && (r.inBraces || atSpace rest) then do return (← r.readValue? g, rest)
      else if startsPlain r.inBraces c rest then r.readPlain? g rest
      else none

/-- Whether a key may start at the next token, and the text from there. A tab is no gap where a key
may start on a line, and a byte order mark may start a line. -/
def skipIdle (inBraces keyAllowed inComment : Bool) : List Glyph → Bool × List Glyph
  | [] => (keyAllowed, [])
  | g :: rest =>
    if isBreak g.char then skipIdle inBraces (keyAllowed || !inBraces) false rest
    else if inComment || g.char == ' ' || (g.char == '\t' && (inBraces || !keyAllowed)) ||
        (g.char == '\ufeff' && g.column == 0) then
      skipIdle inBraces keyAllowed inComment rest
    else if g.char == '#' then skipIdle inBraces keyAllowed true rest
    else (keyAllowed, g :: rest)

/-- Read tokens to the end of the text. Every token takes a character at least, so `fuel` need not
exceed their number by more than one. -/
def readAll? : (fuel : Nat) → Reader → List Glyph → Option (List Token)
  | 0, _, _ => none
  | fuel + 1, r, text =>
    let (keyAllowed, text) := skipIdle r.inBraces r.keyAllowed false text
    let r := { r with keyAllowed }
    match text with
    | [] => do
      let r ← (r.closeBlock fun _ => true).dropKey?
      return r.tokens.reverse
    | g :: rest => do
      let r ← r.expireKey? g
      let (r, rest) ← (r.closeBlock (g.column < ·)).readToken? g rest
      readAll? fuel r rest

end Reader

def tokens? (text : String) : Option (List Token) := do
  let text ← glyphs? text
  Reader.readAll? (text.length + 1) {} text

end SuperH.Yaml
