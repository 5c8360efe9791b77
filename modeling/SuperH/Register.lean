import SuperH.Text.Case

/-!
# Registers

The sixteen general registers, selected by a four-bit field of an instruction word, and the
control and system registers that operands call by name.
-/
namespace SuperH

/-- A general register, known by its four-bit field. -/
structure Reg where
  field : BitVec 4
deriving DecidableEq

namespace Reg

def r0 : Reg := ⟨0⟩

def name (r : Reg) : String :=
  "R" ++ toString r.field.toNat

def all : List Reg :=
  (List.range 16).map fun n => ⟨BitVec.ofNat 4 n⟩

def parse? (s : String) : Option Reg :=
  all.find? fun r => Text.sameIgnoringCase r.name s

/-- The register that the four bits of `word` from bit `start` select. -/
def ofBits (word : BitVec 16) (start : Nat) : Reg :=
  ⟨word.extractLsb' start 4⟩

end Reg

inductive SysReg where
  | sr | gbr | vbr | mach | macl | pr | pc
deriving DecidableEq

namespace SysReg

def name : SysReg → String
  | .sr => "SR"
  | .gbr => "GBR"
  | .vbr => "VBR"
  | .mach => "MACH"
  | .macl => "MACL"
  | .pr => "PR"
  | .pc => "PC"

def all : List SysReg :=
  [.sr, .gbr, .vbr, .mach, .macl, .pr, .pc]

def parse? (s : String) : Option SysReg :=
  all.find? fun r => Text.sameIgnoringCase r.name s

end SysReg

end SuperH
