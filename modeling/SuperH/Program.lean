import SuperH.Event

/-!
# Programs

A program gathers the statements of a source by kind: code, data and vectors, with the symbols they
define and the notices they give rise to.
-/
namespace SuperH

/-- A source, read and sorted by kind of statement. -/
structure Program where
  lines : Array String
  code : List CodeLine
  data : DataSection
  vectors : List VectorLine
  symbols : SymbolTable
  notices : List Notice
deriving DecidableEq

def lineText (lines : Array String) : Nat → String
  | 0 => ""
  | n + 1 => lines.getD n ""

namespace Program

def raw (p : Program) (line : Nat) : String :=
  lineText p.lines line

def ofStatements (lines : Array String) (statements : List SourceStatement) : Program :=
  let events := Event.ofStatements 0 0 statements
  { lines := lines
    code := statements.filterMap SourceStatement.code?
    data := ⟨dataFrom 0 statements⟩
    vectors := statements.filterMap SourceStatement.vector?
    symbols := events.foldl Event.apply .empty
    notices := Event.allNotices (lineText lines) .empty events }

def ofSource (source : String) : Except Diagnostic Program := do
  let statements ← readLines none (SourceLine.ofText source)
  return ofStatements (textLines source).toArray statements

/-- A branch: the index of its word, the label it leads to and its format. -/
structure Branch where
  index : Nat
  target : String
  format : Format
deriving DecidableEq

def branches (p : Program) : List Branch :=
  p.code.zipIdx.filterMap fun (line, index) =>
    line.inst.target?.map fun target => ⟨index, target, line.inst.entry.format⟩

end Program

end SuperH
