import SuperH.Notice
import SuperH.Statement
import SuperH.SymbolTable

/-!
# Definitions and ignored lines

A label stands for the place where the code or the data after it starts. Definitions and ignored
lines are events in source order; the symbols and the notices of a source follow from them.
-/
namespace SuperH

/-- What happens while labels are collected: a label is defined, or a line is ignored. -/
inductive Event where
  | defined (name : String) (symbol : Symbol)
  | ignored (line : Nat)
deriving DecidableEq

namespace Event

/-- The events of a statement, after `words` instructions and `bytes` bytes of data. -/
def ofStatement (words bytes : Nat) : SourceStatement → List Event
  | ⟨line, .code (some label) _⟩ => [.defined label ⟨.text, 2 * words, line⟩]
  | ⟨line, .data (some label) directive _⟩ =>
      [.defined label ⟨.data, directive.startAt bytes, line⟩]
  | ⟨line, .stray⟩ => [.ignored line]
  | _ => []

def ofStatements (words bytes : Nat) : List SourceStatement → List Event
  | [] => []
  | s :: rest =>
      ofStatement words bytes s ++
        ofStatements (words + s.code?.toList.length) (bytes + (s.bytesAt bytes).length) rest

def apply (symbols : SymbolTable) : Event → SymbolTable
  | .defined name symbol => symbols.define name symbol
  | .ignored _ => symbols

/-- The notices of an event. A label defined again calls up its previous line as well. -/
def notices (raw : Nat → String) (symbols : SymbolTable) : Event → List Notice
  | .ignored line => [⟨.stray, line, raw line⟩]
  | .defined name symbol =>
    match symbols.get? name with
    | none => []
    | some previous =>
      [⟨.redefined name, symbol.line, raw symbol.line⟩,
       ⟨.overridden, previous.line, raw previous.line⟩]

def allNotices (raw : Nat → String) (symbols : SymbolTable) : List Event → List Notice
  | [] => []
  | e :: rest => e.notices raw symbols ++ allNotices raw (e.apply symbols) rest

end Event

end SuperH
