import SuperH.Error
import SuperH.Text.Case

/-!
# Symbols

Labels and what they stand for, in the order of their first definitions. Letter case does not
distinguish labels: they are kept in upper case.
-/
namespace SuperH

inductive Segment where
  | text | data
deriving DecidableEq

def Segment.name : Segment → String
  | .text => ".text"
  | .data => ".data"

/-- The place of a label: an offset into its segment, and the line that defines it. -/
structure Symbol where
  segment : Segment
  offset : Nat
  line : Nat
deriving DecidableEq

/-- Names with their symbols, in order of first definition. -/
structure SymbolTable where
  entries : List (String × Symbol)
deriving DecidableEq

namespace SymbolTable

def empty : SymbolTable := ⟨[]⟩

/-- The symbol of a name, in any letter case. -/
def get? (t : SymbolTable) (name : String) : Option Symbol :=
  t.entries.lookup (Text.upcase name)

/-- Define a name. A new definition of a name takes the place of the old one. -/
def define (t : SymbolTable) (name : String) (symbol : Symbol) : SymbolTable :=
  let key := Text.upcase name
  match t.entries.lookup key with
  | none => ⟨t.entries ++ [(key, symbol)]⟩
  | some _ => ⟨t.entries.map fun entry => if entry.1 = key then (key, symbol) else entry⟩

def resolve (t : SymbolTable) (name : String) : Except Error Symbol :=
  match t.get? name with
  | some symbol => .ok symbol
  | none => .error (.undefinedLabel name)

end SymbolTable

end SuperH
