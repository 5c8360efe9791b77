import SuperH.Layout
import SuperH.Program

/-!
# Placement and branches

Once a program has been read, its segments get their addresses, and with them every label has
one. Branches are then completed with the distance to their labels.
-/
namespace SuperH

structure Placement where
  vectableOrigin : Nat
  vectableSize : Nat
  textBase : Nat
  dataBase : Nat
deriving DecidableEq

namespace Placement

def address (place : Placement) (symbol : Symbol) : Nat :=
  match symbol.segment with
  | .text => place.textBase + symbol.offset
  | .data => place.dataBase + symbol.offset

def codeAddress (place : Placement) (index : Nat) : Nat :=
  place.textBase + 2 * index

end Placement

namespace Program

def diagnose (p : Program) (line : Nat) (error : Error) : Diagnostic :=
  ⟨line, p.raw line, error⟩

/-- The line of a vector by its index; 0 if there is none. -/
def vectorLine (p : Program) (index : Nat) : Nat :=
  match p.vectors[index]? with
  | some v => v.line
  | none => 0

/-- Give a program its addresses. An overflow is reported on the line that first exceeds its
segment. -/
def place (p : Program) (l : Layout) : Except Diagnostic Placement := do
  let overflow (region : Region) (size : Nat) : Error :=
    .segmentOverflow region size l.segmentSize
  let vectableSize ←
    match l.vectableSize p.vectors.length with
    | .ok bytes => pure bytes
    | .error e => throw (p.diagnose (p.vectorLine (l.vectableEntries.getD 0)) e)
  if l.segmentSize < vectableSize then
    throw (p.diagnose (p.vectorLine (l.segmentSize / 4)) (overflow .text vectableSize))
  match p.code[(l.segmentSize - vectableSize) / 2]? with
  | some first =>
    throw (p.diagnose first.line (overflow .text (vectableSize + 2 * p.code.length)))
  | none => pure ()
  match p.data.words[l.segmentSize / 2]? with
  | some (_, line) => throw (p.diagnose line (overflow .data (2 * p.data.words.length)))
  | none => pure ()
  return {
    vectableOrigin := l.textOrigin
    vectableSize := vectableSize
    textBase := l.textOrigin + vectableSize
    dataBase := l.dataOrigin }

/-- The word of an instruction at `here`, a branch completed with half the distance to its label,
rounded toward zero. -/
def linkWord (symbols : SymbolTable) (place : Placement) (here : Nat) (inst : Instruction) :
    Except Error Word :=
  match inst.target? with
  | none => .ok inst.word
  | some name => do
    let symbol ← symbols.resolve name
    let disp := Int.tdiv ((place.address symbol : Int) - here) 2
    match inst.entry.format.withDisp inst.word disp with
    | .ok word => return word
    | .error e => throw (.ofEncodeError e)

def link (p : Program) (place : Placement) : Except Diagnostic (List Word) :=
  p.code.zipIdx.mapM fun (line, index) =>
    match linkWord p.symbols place (place.codeAddress index) line.inst with
    | .ok word => .ok word
    | .error e => .error (p.diagnose line.line e)

end Program

end SuperH
