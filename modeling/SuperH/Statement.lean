import SuperH.DataSection
import SuperH.Instruction

/-!
# Statements

What the lines of a source say. Reading a statement depends on nothing but its line and the
section it stands in, so the first faulty line is the one reported.
-/
namespace SuperH

inductive Statement where
  | code (label : Option String) (inst : Option Instruction)
  | data (label : Option String) (directive : Directive) (payload : List UInt8)
  | vector (name : String) (address : Nat)
  | stray
deriving DecidableEq

def Statement.read (current : Option Section) (code : String) : Except Error Statement := do
  match current with
  | some .text =>
    let written ← WrittenCode.parse code
    return .code written.label (← written.inst.mapM Instruction.ofWritten)
  | some .data =>
    let written ← WrittenData.parse code
    let directive ← Directive.parse written.directive
    return .data written.label directive (← directive.payload written.args)
  | some .vectable =>
    let written ← WrittenVector.parse code
    return .vector written.name written.address
  | none => return .stray

structure SourceStatement where
  line : Nat
  statement : Statement
deriving DecidableEq

/-- Read lines, starting in the section `current`. -/
def readLines (current : Option Section) :
    List SourceLine → Except Diagnostic (List SourceStatement)
  | [] => .ok []
  | l :: rest =>
    match Section.parse? l.code with
    | some next => readLines (some next) rest
    | none => do
      let statement ← l.diagnose (Statement.read current l.code)
      return ⟨l.number, statement⟩ :: (← readLines current rest)

structure CodeLine where
  line : Nat
  inst : Instruction
deriving DecidableEq

structure VectorLine where
  name : String
  address : Nat
  line : Nat
deriving DecidableEq

def SourceStatement.code? : SourceStatement → Option CodeLine
  | ⟨line, .code _ (some inst)⟩ => some ⟨line, inst⟩
  | _ => none

def SourceStatement.vector? : SourceStatement → Option VectorLine
  | ⟨line, .vector name address⟩ => some ⟨name, address, line⟩
  | _ => none

def SourceStatement.bytesAt (offset : Nat) : SourceStatement → List SourceByte
  | ⟨line, .data _ directive payload⟩ => directive.bytesAt offset payload line
  | _ => []

def dataFrom (offset : Nat) : List SourceStatement → List SourceByte
  | [] => []
  | s :: rest => s.bytesAt offset ++ dataFrom (offset + (s.bytesAt offset).length) rest

end SuperH
