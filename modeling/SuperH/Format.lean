import SuperH.Operand
import SuperH.Text.Digits

/-!
# Instruction formats

A format says which bits of a word the opcode fixes and where registers, displacement and
immediate stand. In the pictures `n` is a destination register, `m` a source register,
`d` a displacement and `i` an immediate.

`Format.encode` fills the fields from operands, `Format.decode` reads them back for a given
shape, and `Format.withDisp` replaces the displacement of a branch. All three are total: operand
lists and shapes need not be ones that the instruction set pairs with the format.
-/
namespace SuperH

abbrev Word := BitVec 16

inductive EncodeError where
  | outOfRange (value : Int) (bits : Nat)
  | branchOutOfRange (disp : Int) (bits : Nat)
  | requiresR0 (r : Reg)
deriving DecidableEq

def EncodeError.message : EncodeError → String
  | .outOfRange value bits => s!"Value {value} does not fit in a {bits}-bit field"
  | .branchOutOfRange disp bits =>
      s!"Branch displacement {disp} does not fit in a signed {bits}-bit field"
  | .requiresR0 r => "Operand `" ++ r.name ++ "` must be R0 for this instruction"

inductive Format where
  /-- `xxxx xxxx xxxx xxxx` -/
  | zero
  /-- `xxxx nnnn xxxx xxxx` -/
  | n
  /-- `xxxx mmmm xxxx xxxx` -/
  | m
  /-- `xxxx nnnn mmmm xxxx` -/
  | nm
  /-- `xxxx xxxx mmmm dddd`; the other operand is R0 -/
  | md
  /-- `xxxx xxxx nnnn dddd`; the other operand is R0 -/
  | nd4
  /-- `xxxx nnnn mmmm dddd` -/
  | nmd
  /-- `xxxx xxxx dddd dddd` -/
  | d
  /-- `xxxx dddd dddd dddd` -/
  | d12
  /-- `xxxx nnnn dddd dddd` -/
  | nd8
  /-- `xxxx xxxx iiii iiii` -/
  | i
  /-- `xxxx nnnn iiii iiii` -/
  | ni
deriving DecidableEq

/-- The value can be written in `bits` bits, signed or unsigned. -/
def Fits (value : Int) (bits : Nat) : Prop :=
  -Int.pow 2 (bits - 1) ≤ value ∧ value < Int.pow 2 bits

instance (value : Int) (bits : Nat) : Decidable (Fits value bits) :=
  inferInstanceAs (Decidable (_ ∧ _))

/-- The value can be written in `bits` bits with a sign. -/
def FitsSigned (value : Int) (bits : Nat) : Prop :=
  -Int.pow 2 (bits - 1) ≤ value ∧ value < Int.pow 2 (bits - 1)

instance (value : Int) (bits : Nat) : Decidable (FitsSigned value bits) :=
  inferInstanceAs (Decidable (_ ∧ _))

/-- The low `bits` bits of a number that fits there. -/
def fitField (value : Int) (bits : Nat) : Except EncodeError Word :=
  if Fits value bits then
    .ok (BitVec.ofInt 16 (value % Int.pow 2 bits))
  else
    .error (.outOfRange value bits)

namespace Format

def mask : Format → Word
  | .zero => 0xFFFF
  | .n | .m => 0xF0FF
  | .nm => 0xF00F
  | .md | .nd4 | .d | .i => 0xFF00
  | .nmd | .d12 | .nd8 | .ni => 0xF000

/-- A register operand of these formats has no field and has to be R0. -/
def impliesR0 : Format → Bool
  | .md | .nd4 | .d | .i => true
  | _ => false

def branchWidth : Format → Option Nat
  | .d => some 8
  | .d12 => some 12
  | _ => none

/-- The registers that take a field, in operand order. -/
def fieldRegs (f : Format) (ops : List Operand) : Except EncodeError (List Reg) :=
  if f.impliesR0 then
    match (ops.filterMap Operand.direct?).find? (· ≠ .r0) with
    | some r => .error (.requiresR0 r)
    | none => .ok ((ops.filter fun op => op.direct?.isNone).filterMap Operand.reg?)
  else
    .ok (ops.filterMap Operand.reg?)

/-- Fill the fields of `opcode`. A missing register, displacement or immediate is zero; labels
leave the displacement at zero. -/
def encode (f : Format) (opcode : Word) (ops : List Operand) : Except EncodeError Word := do
  let regs ← f.fieldRegs ops
  let reg (k : Nat) : Word := (regs.getD k .r0).field.setWidth 16
  let disp := (ops.findSome? Operand.disp?).getD 0
  let imm := (ops.findSome? Operand.imm?).getD 0
  match f with
  | .zero => return opcode
  | .n | .m => return opcode ||| reg 0 <<< 8
  | .nm => return opcode ||| reg 1 <<< 8 ||| reg 0 <<< 4
  | .md | .nd4 => return opcode ||| reg 0 <<< 4 ||| (← fitField disp 4)
  | .nmd => return opcode ||| reg 1 <<< 8 ||| reg 0 <<< 4 ||| (← fitField disp 4)
  | .d => return opcode ||| (← fitField disp 8)
  | .d12 => return opcode ||| (← fitField disp 12)
  | .nd8 => return opcode ||| reg 0 <<< 8 ||| (← fitField disp 8)
  | .i => return opcode ||| (← fitField imm 8)
  | .ni => return opcode ||| reg 0 <<< 8 ||| (← fitField imm 8)

/-- Replace the displacement of a branch; other formats keep their word. -/
def withDisp (f : Format) (word : Word) (disp : Int) : Except EncodeError Word :=
  match f.branchWidth with
  | none => .ok word
  | some bits =>
    if FitsSigned disp bits then
      let low : Word := BitVec.ofNat 16 (Nat.pow 2 bits - 1)
      .ok ((word &&& ~~~low) ||| (BitVec.ofInt 16 disp &&& low))
    else
      .error (.branchOutOfRange disp bits)

/-- The registers in the fields of a word, in operand order. -/
def wordRegs (f : Format) (word : Word) : List Reg :=
  match f with
  | .n | .m | .nd8 | .ni => [.ofBits word 8]
  | .nm | .nmd => [.ofBits word 4, .ofBits word 8]
  | .md | .nd4 => [.ofBits word 4]
  | .zero | .d | .d12 | .i => []

/-- The displacement of a word, signed only in the twelve-bit format. -/
def wordDisp (f : Format) (word : Word) : Int :=
  match f with
  | .md | .nd4 | .nmd => (word.extractLsb' 0 4).toNat
  | .d12 => (word.extractLsb' 0 12).toInt
  | _ => (word.extractLsb' 0 8).toNat

/-- The immediate of a word, signed only beside a register field. -/
def wordImm (f : Format) (word : Word) : Int :=
  match f with
  | .ni => (word.extractLsb' 0 8).toInt
  | _ => (word.extractLsb' 0 8).toNat

/-- The displacement of a word as a branch, signed also in eight bits. -/
def branchDisp (f : Format) (word : Word) : Int :=
  match f with
  | .d => (word.extractLsb' 0 8).toInt
  | _ => f.wordDisp word

/-- Where a branch word at address `pc` leads, in the 32-bit address space. -/
def branchTarget (f : Format) (word : Word) (pc : Nat) : Nat :=
  ((pc + 2 * f.branchDisp word) % Int.pow 2 32).toNat

/-- Operands of a shape, taking registers from `regs` while there are any. -/
def decodeFrom (f : Format) (word : Word) (pc : Nat) : List Reg → List Mode → List Operand
  | _, [] => []
  | regs, mode :: shape =>
    let r := regs.headD .r0
    match mode with
    | .imm => .imm (f.wordImm word) :: f.decodeFrom word pc regs shape
    | .reg =>
      if f.impliesR0 then .reg .r0 :: f.decodeFrom word pc regs shape
      else .reg r :: f.decodeFrom word pc regs.tail shape
    | .indirect => .indirect r :: f.decodeFrom word pc regs.tail shape
    | .preDec => .preDec r :: f.decodeFrom word pc regs.tail shape
    | .postInc => .postInc r :: f.decodeFrom word pc regs.tail shape
    | .dispReg => .dispReg (f.wordDisp word) r :: f.decodeFrom word pc regs.tail shape
    | .dispGbr => .dispGbr (f.wordDisp word) :: f.decodeFrom word pc regs shape
    | .indexGbr => .indexGbr :: f.decodeFrom word pc regs shape
    | .dispPc => .dispPc (f.wordDisp word) :: f.decodeFrom word pc regs shape
    | .indexReg => .indexReg r :: f.decodeFrom word pc regs.tail shape
    | .sys s => .sys s :: f.decodeFrom word pc regs shape
    | .label => .label (Text.address (f.branchTarget word pc)) :: f.decodeFrom word pc regs shape

/-- The operands of a word at address `pc`, for a given shape. -/
def decode (f : Format) (word : Word) (shape : List Mode) (pc : Nat) : List Operand :=
  f.decodeFrom word pc (f.wordRegs word) shape

end Format

end SuperH
