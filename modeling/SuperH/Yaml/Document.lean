import SuperH.Yaml.Token.Reading

/-!
# Flat documents

A document that is a mapping from scalars to scalars, either a key to a line or between braces.
Whatever is not flat is refused, and so is a second document.
-/
namespace SuperH.Yaml

/-- A scalar that is not written is plain and empty. -/
structure Scalar where
  anchor : Option (List Char) := none
  tag : Option Tag := none
  isPlain : Bool := true
  text : List Char := []
deriving DecidableEq

inductive Leaf where
  | scalar (scalar : Scalar)
  | aliasOf (name : List Char)
deriving DecidableEq

structure Document where
  /-- The anchor of the mapping itself. -/
  anchor : Option (List Char) := none
  entries : List (Leaf × Leaf) := []
deriving DecidableEq

namespace Document

/-- An anchor and a tag in either order, where there are any, and what follows. -/
def properties? (handles : Handles) :
    List Token → Option (Option (List Char) × Option Tag × List Token)
  | .anchor name :: .tag tag :: rest => return (some name, some (← tag.resolve? handles), rest)
  | .tag tag :: .anchor name :: rest => return (some name, some (← tag.resolve? handles), rest)
  | .anchor name :: rest => return (some name, none, rest)
  | .tag tag :: rest => return (none, some (← tag.resolve? handles), rest)
  | rest => return (none, none, rest)

/-- A key or a value, and what follows. A tag of a single `!` on a scalar says nothing. -/
def leaf? (handles : Handles) : List Token → Option (Leaf × List Token)
  | .aliasOf name :: rest => some (.aliasOf name, rest)
  | tokens => do
    let (anchor, tag, rest) ← properties? handles tokens
    match rest with
    | .scalar isPlain text :: rest =>
      let tag := tag.filter (· != ⟨"!".toUTF8.toList⟩)
      return (.scalar { anchor, tag, isPlain, text }, rest)
    | .blockStart :: _ | .braceOpen :: _ => none
    | rest =>
      if anchor.isSome || tag.isSome then return (.scalar { anchor, tag }, rest) else none

/-- A value, and what follows. Nothing need be written before the tokens `isEnd`. -/
def value? (handles : Handles) (isEnd : Token → Bool) : List Token → Option (Leaf × List Token)
  | .value :: rest =>
    if rest.head?.any isEnd then some (.scalar {}, rest) else leaf? handles rest
  | rest => some (.scalar {}, rest)

/-- Entries on lines of their own, and what follows the mapping. Every entry takes a token at least,
so `fuel` need not exceed the number of tokens. -/
def blockEntries? (handles : Handles) :
    (fuel : Nat) → List Token → Option (List (Leaf × Leaf) × List Token)
  | _, .blockEnd :: rest => some ([], rest)
  | fuel + 1, .key :: rest => do
    let (key, rest) ← leaf? handles rest
    let (value, rest) ← value? handles (fun t => t = .key ∨ t = .value ∨ t = .blockEnd) rest
    let (entries, rest) ← blockEntries? handles fuel rest
    return ((key, value) :: entries, rest)
  | _, _ => none

def bracedEntry? (handles : Handles) : List Token → Option ((Leaf × Leaf) × List Token)
  | .key :: rest => do
    let (key, rest) ← leaf? handles rest
    let (value, rest) ← value? handles (fun t => t = .comma ∨ t = .braceClose) rest
    return ((key, value), rest)
  | rest => do
    let (key, rest) ← leaf? handles rest
    return ((key, .scalar {}), rest)

def bracedEntries? (handles : Handles) :
    (fuel : Nat) → List Token → Option (List (Leaf × Leaf) × List Token)
  | _, .braceClose :: rest => some ([], rest)
  | 0, _ => none
  | fuel + 1, rest => do
    let (entry, rest) ← bracedEntry? handles rest
    match rest with
    | .comma :: rest => do
      let (entries, rest) ← bracedEntries? handles fuel rest
      return (entry :: entries, rest)
    | .braceClose :: rest => return ([entry], rest)
    | _ => none

/-- The mapping of a document, and what follows it. A mapping that is not written is empty. -/
def mapping? (handles : Handles) (tokens : List Token) : Option (Document × List Token) := do
  let (anchor, tag, rest) ← properties? handles tokens
  match rest with
  | .blockStart :: rest =>
    let (entries, rest) ← blockEntries? handles rest.length rest
    return ({ anchor, entries }, rest)
  | .braceOpen :: rest =>
    let (entries, rest) ← bracedEntries? handles rest.length rest
    return ({ anchor, entries }, rest)
  | .scalar _ _ :: _ => none
  | rest => if anchor.isSome || tag.isSome then return ({ anchor }, rest) else none

/-- Directives, and what follows the line that starts the document. No handle is given twice, nor
is the version, which has to be 1.1 or 1.2. -/
def directives? (hasVersion : Bool) (handles : Handles) :
    List Token → Option (Handles × List Token)
  | .documentStart :: rest => some (handles, rest)
  | .version major minor :: rest =>
    if !hasVersion && major = 1 && (minor = 1 || minor = 2) then directives? true handles rest
    else none
  | .handle name start :: rest =>
    if (handles.lookup name).isSome then none
    else directives? hasVersion ((name, start) :: handles) rest
  | _ => none

def isOutside : Token → Bool
  | .version _ _ | .handle _ _ | .documentStart | .documentEnd => true
  | _ => false

def ofTokens? (tokens : List Token) : Option Document := do
  let (document, rest) ←
    match tokens with
    | [] => some ({}, [])
    | .version .. :: _ | .handle .. :: _ | .documentStart :: _ => do
      let (handles, rest) ← directives? false [] tokens
      if rest.head?.all isOutside then some ({}, rest) else mapping? handles rest
    | _ => mapping? [] tokens
  if rest.all (· = .documentEnd) then return document else none

def parse? (text : String) : Option Document :=
  (tokens? text).bind ofTokens?

end Document
end SuperH.Yaml
