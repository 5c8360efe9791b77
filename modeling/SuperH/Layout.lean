import SuperH.Error

/-!
# Memory layouts

A layout places two segments of one size in a 32-bit address space: text, which starts with the
vector table, and data.
-/
namespace SuperH

/-- Sizes and origins in bytes. Without `vectableEntries` the vector table is as long as its
vectors need. -/
structure Layout where
  segmentSize : Nat := 1024
  textOrigin : Nat := 0
  dataOrigin : Nat := 1024
  vectableEntries : Option Nat := none
deriving DecidableEq

namespace Layout

def textEnd (l : Layout) : Nat :=
  l.textOrigin + l.segmentSize

def dataEnd (l : Layout) : Nat :=
  l.dataOrigin + l.segmentSize

/-- The vector table has more entries than a segment has room for. -/
def vectableFault? (l : Layout) : Option LayoutFault :=
  match l.vectableEntries with
  | some n => if l.segmentSize < 4 * n then some (.vectable n l.segmentSize) else none
  | none => none

/-- What is wrong with a layout, the first fault only. -/
def fault? (l : Layout) : Option LayoutFault :=
  if l.segmentSize = 0 ∨ l.segmentSize % 2 = 1 then
    some (.segmentSize l.segmentSize)
  else if l.textOrigin % 2 = 1 ∨ l.dataOrigin % 2 = 1 then
    some (.oddOrigin l.textOrigin l.dataOrigin)
  else l.vectableFault?.or <|
    if Nat.pow 2 32 ≤ l.textEnd ∨ Nat.pow 2 32 ≤ l.dataEnd then
      some .addressSpace
    else if l.textOrigin < l.dataEnd ∧ l.dataOrigin < l.textEnd then
      some (.overlap l.textOrigin l.textEnd l.dataOrigin l.dataEnd)
    else none

def validate (l : Layout) : Except Error Unit :=
  match l.fault? with
  | some fault => .error (.layout fault)
  | none => .ok ()

/-- Bytes that the vector table takes when a source has `found` vectors. -/
def vectableSize (l : Layout) (found : Nat) : Except Error Nat :=
  match l.vectableEntries with
  | some n =>
    if n < found then .error (.segmentOverflow .vectable (4 * found) (4 * n)) else .ok (4 * n)
  | none => .ok (4 * found)

end Layout

end SuperH
