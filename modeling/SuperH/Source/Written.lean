import SuperH.Literal
import SuperH.Source.Line

/-!
# Statements as written

A statement is taken apart by the rules of its section: text, data or vector table. Mnemonics come
out in upper case and directives in lower case; operands and arguments stay as they are written.
-/
namespace SuperH

/-- Pieces between the commas that stand outside parentheses, `depth` of which are open; nothing
if one is closed that was never opened. -/
def splitOutside (depth : Nat) : List Char → Option (List (List Char))
  | [] => some [[]]
  | ',' :: rest =>
    if depth = 0 then (splitOutside 0 rest).map ([] :: ·)
    else (splitOutside depth rest).map (Text.consHead ',')
  | '(' :: rest => (splitOutside (depth + 1) rest).map (Text.consHead '(')
  | ')' :: rest =>
    match depth with
    | 0 => none
    | depth + 1 => (splitOutside depth rest).map (Text.consHead ')')
  | c :: rest => (splitOutside depth rest).map (Text.consHead c)

/-- The operands of an argument text, each without the blanks around it. -/
def operandTexts (args : String) : Except Error (List String) :=
  let trimmed := Text.trim args.toList
  if trimmed = [] then .ok []
  else
    match splitOutside 0 args.toList with
    | none => .error (.malformedOperand (String.ofList trimmed))
    | some pieces =>
      let operands := pieces.map Text.trim
      if operands.contains [] then .error (.malformed (.emptyOperand (String.ofList trimmed)))
      else .ok (operands.map String.ofList)

/-- A mnemonic in upper case with its operands as written. -/
structure WrittenInst where
  mnemonic : String
  operands : List String
deriving DecidableEq

structure WrittenCode where
  label : Option String
  inst : Option WrittenInst
deriving DecidableEq

/-- The code of a statement after its label: nothing, or a mnemonic and its operands. -/
def WrittenCode.parse (code : String) : Except Error WrittenCode := do
  let (label, rest) ← takeLabel code.toList
  if rest = [] then return ⟨label, none⟩
  let (mnemonic, args) := Text.cutAtBlank rest
  if mnemonic.head? = some '.' then throw (.unknownDirective (String.ofList mnemonic))
  let operands ← operandTexts (String.ofList args)
  return ⟨label, some ⟨String.ofList (Text.upper mnemonic), operands⟩⟩

/-- A statement of the data section: a directive in lower case with its arguments. -/
structure WrittenData where
  label : Option String
  directive : String
  args : String
deriving DecidableEq

def WrittenData.parse (code : String) : Except Error WrittenData := do
  let (label, rest) ← takeLabel code.toList
  let (directive, args) := Text.cutAtBlank rest
  if directive.head? = some '.' then
    return ⟨label, String.ofList (Text.lower directive), String.ofList args⟩
  else
    throw (.malformed (.notDirective (String.ofList directive)))

/-- A statement of the vector table section: a name and a 32-bit address. -/
structure WrittenVector where
  name : String
  address : Nat
deriving DecidableEq

/-- An address takes up to 64 bits to read; one that needs more than 32 is reported as the signed
64-bit number with the same bits. -/
def WrittenVector.parse (code : String) : Except Error WrittenVector := do
  match ← takeLabel code.toList with
  | (none, _) => throw (.malformed (.notVector code))
  | (some name, rest) =>
    match Text.firstWord? rest with
    | none => throw (.malformed (.noVectorAddress name))
    | some word =>
      match Text.unsigned? 16 (Nat.pow 2 64) (Text.dropHexMark word) with
      | none => throw (.invalidNumber (String.ofList word))
      | some address =>
        if address < Nat.pow 2 32 then return ⟨name, address⟩
        else throw (.outOfRange (Int.bmod address (Nat.pow 2 64)) 32)

end SuperH
