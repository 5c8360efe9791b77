import SuperH.Assembly

/-!
# Listings

A listing shows every source line, those with an instruction next to its address, its word and
what the word stands for, and then the symbols.
-/
namespace SuperH.Listing

def header (path : String) : String :=
  "-----------------+------[" ++ path ++ "]" ++
    String.ofList (List.replicate (45 - path.utf8ByteSize) '-')

def rule : String :=
  "-----------------+-------------------------------------------------------"

/-- A row of a listing: a source line, and the instruction that stands on it. -/
structure Row where
  line : Nat
  raw : String
  code : Option (Nat × Word)
deriving DecidableEq

/-- The rows of the lines from number `line` on, where `code` holds the instructions left, each
with its line, address and word. -/
def rowsFrom (line : Nat) (code : List (Nat × Nat × Word)) : List String → List Row
  | [] => []
  | raw :: rest =>
    match code with
    | (codeLine, addr, word) :: code' =>
      if codeLine = line then ⟨line, raw, some (addr, word)⟩ :: rowsFrom (line + 1) code' rest
      else ⟨line, raw, none⟩ :: rowsFrom (line + 1) code rest
    | [] => ⟨line, raw, none⟩ :: rowsFrom (line + 1) [] rest

/-- What a word stands for, or question marks. -/
def disassembled (word : Word) (addr : Nat) : String :=
  match sh2.decode? word addr with
  | some (entry, ops) => entry.styled ops
  | none => Text.shout .red "????"

def Row.text (row : Row) : String :=
  let number := Text.padLeft 4 (toString row.line)
  match row.code with
  | some (addr, word) =>
    "[" ++ Text.fixedHex 8 addr ++ "] " ++ Text.fixedHex 4 word.toNat ++ " | " ++ number ++ ": " ++
      disassembled word addr ++ "    " ++ Text.dim (String.ofList (Text.trim row.raw.toList))
  | none =>
    Text.spaces 17 ++ "| " ++ number ++ ": " ++ String.ofList (Text.trimEnd row.raw.toList)

def symbolText (place : Placement) (name : String) (symbol : Symbol) : String :=
  Text.paint .green (Text.padRight 16 name) ++ " " ++ Text.address (place.address symbol) ++ " " ++
    Text.dim ("(" ++ symbol.segment.name ++ " line " ++ toString symbol.line ++ ")")

def rows (p : Program) (words : List Word) (place : Placement) : List Row :=
  let code := (p.code.zip words).zipIdx.map fun ((line, word), index) =>
    (line.line, place.codeAddress index, word)
  rowsFrom 1 code p.lines.toList

def render (path : String) (p : Program) (words : List Word) (place : Placement) : String :=
  let symbols := p.symbols.entries.map fun (name, symbol) => symbolText place name symbol
  let lines := header path :: (rows p words place).map Row.text ++ rule :: symbols
  String.join (lines.map (· ++ "\n"))

end SuperH.Listing
