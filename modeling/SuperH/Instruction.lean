import SuperH.InstructionSet
import SuperH.Operand.Reading
import SuperH.Source.Written

/-!
# Instructions

An instruction of a source, looked up in the instruction table and encoded. The displacement of a
branch to a label stays zero until the label has an address.
-/
namespace SuperH

/-- An instruction with its operands and its word, the displacement of a branch left at zero. -/
structure Instruction where
  entry : Entry
  operands : List Operand
  word : Word
deriving DecidableEq

namespace Instruction

def target? (inst : Instruction) : Option String :=
  match inst.entry.branchWidth, inst.operands with
  | some _, .label name :: _ => some name
  | _, _ => none

/-- Names of operands that are labels by default, but no identifiers. -/
def badLabel? (ops : List Operand) : Option String :=
  ops.findSome? fun
    | .label name => if isIdentifier name then none else some name
    | _ => none

/-- Look an instruction up and encode it. -/
def ofWritten (written : WrittenInst) : Except Error Instruction :=
  let ops := written.operands.map Operand.read
  match badLabel? ops with
  | some name => .error (.malformedOperand name)
  | none =>
    let shape := ops.map Operand.mode
    match sh2.lookup? written.mnemonic shape with
    | none => .error (.unsupportedInstruction written.mnemonic shape)
    | some entry =>
      match entry.encode ops with
      | .error e => .error (.ofEncodeError e)
      | .ok word => .ok ⟨entry, ops, word⟩

end Instruction

end SuperH
