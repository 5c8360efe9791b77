import SuperH.Register
import SuperH.Text.Style

/-!
# Operands

An operand is an addressing mode with its payload. Numbers are kept as written; they meet the
width of their field only when an instruction is encoded.
-/
namespace SuperH

/-- Addressing modes. The list of an instruction's modes is its shape. -/
inductive Mode where
  | imm
  | reg
  | indirect
  | preDec
  | postInc
  | dispReg
  | dispGbr
  | indexGbr
  | dispPc
  | indexReg
  | sys (r : SysReg)
  | label
deriving DecidableEq

def Mode.text : Mode → String
  | .imm => "#imm"
  | .reg => "Rn"
  | .indirect => "@Rn"
  | .preDec => "@-Rn"
  | .postInc => "@Rn+"
  | .dispReg => "@(disp,Rn)"
  | .dispGbr => "@(disp,GBR)"
  | .indexGbr => "@(R0,GBR)"
  | .dispPc => "@(disp,PC)"
  | .indexReg => "@(R0,Rn)"
  | .sys r => r.name
  | .label => "label"

/-- A shape in parentheses, such as `(Rn, @(disp,GBR))`. -/
def shapeText (shape : List Mode) : String :=
  "(" ++ ", ".intercalate (shape.map Mode.text) ++ ")"

inductive Operand where
  | imm (value : Int)
  | reg (r : Reg)
  | indirect (r : Reg)
  | preDec (r : Reg)
  | postInc (r : Reg)
  | dispReg (disp : Int) (r : Reg)
  | dispGbr (disp : Int)
  | indexGbr
  | dispPc (disp : Int)
  | indexReg (r : Reg)
  | sys (r : SysReg)
  | label (name : String)
deriving DecidableEq

namespace Operand

def mode : Operand → Mode
  | .imm _ => .imm
  | .reg _ => .reg
  | .indirect _ => .indirect
  | .preDec _ => .preDec
  | .postInc _ => .postInc
  | .dispReg _ _ => .dispReg
  | .dispGbr _ => .dispGbr
  | .indexGbr => .indexGbr
  | .dispPc _ => .dispPc
  | .indexReg _ => .indexReg
  | .sys r => .sys r
  | .label _ => .label

/-- The general register of an operand; the implied R0 of an index is not one. -/
def reg? : Operand → Option Reg
  | .reg r | .indirect r | .preDec r | .postInc r | .dispReg _ r | .indexReg r => some r
  | _ => none

def disp? : Operand → Option Int
  | .dispReg d _ | .dispGbr d | .dispPc d => some d
  | _ => none

def imm? : Operand → Option Int
  | .imm v => some v
  | _ => none

def direct? : Operand → Option Reg
  | .reg r => some r
  | _ => none

/-- The operand as the assembler reads it. -/
def text : Operand → String
  | .imm v => s!"#{v}"
  | .reg r => r.name
  | .indirect r => "@" ++ r.name
  | .preDec r => "@-" ++ r.name
  | .postInc r => "@" ++ r.name ++ "+"
  | .dispReg d r => s!"@({d}, " ++ r.name ++ ")"
  | .dispGbr d => s!"@({d}, GBR)"
  | .indexGbr => "@(R0, GBR)"
  | .dispPc d => s!"@({d}, PC)"
  | .indexReg r => "@(R0, " ++ r.name ++ ")"
  | .sys r => r.name
  | .label name => name

/-- Numbers are yellow, labels green, and all else is blue. -/
def colour : Operand → Text.Colour
  | .imm _ | .dispReg _ _ | .dispGbr _ | .dispPc _ => .yellow
  | .label _ => .green
  | _ => .blue

def styled (op : Operand) : String :=
  Text.paint op.colour op.text

end Operand

end SuperH
