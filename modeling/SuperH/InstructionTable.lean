import SuperH.Format

/-!
# Instruction tables

A table lists instructions by mnemonic and shape. `Table.ofEntries` accepts a list in which no
key comes twice and no word belongs to two entries, so that both look-ups have one answer.
-/
namespace SuperH

/-- One instruction: its key and how to encode it. -/
structure Entry where
  mnemonic : String
  shape : List Mode
  opcode : Word
  format : Format
deriving DecidableEq

namespace Entry

def key (e : Entry) : String :=
  e.mnemonic ++ " " ++ shapeText e.shape

def encode (e : Entry) (ops : List Operand) : Except EncodeError Word :=
  e.format.encode e.opcode ops

def branchWidth (e : Entry) : Option Nat :=
  if e.shape = [.label] then e.format.branchWidth else none

/-- The word has the opcode's bits where the opcode fixes them. -/
def covers (e : Entry) (word : Word) : Bool :=
  word &&& e.format.mask == e.opcode

def sameKey (a b : Entry) : Bool :=
  a.mnemonic == b.mnemonic && a.shape == b.shape

/-- The opcodes agree on every bit that both fix. -/
def overlaps (a b : Entry) : Bool :=
  let common := a.format.mask &&& b.format.mask
  a.opcode &&& common == b.opcode &&& common

def styled (e : Entry) (ops : List Operand) : String :=
  Text.paint .red (Text.padRight 8 e.mnemonic) ++ ", ".intercalate (ops.map Operand.styled)

end Entry

inductive TableError where
  | duplicateKey (entry : Entry)
  | overlap (first second : Entry)
deriving DecidableEq

def TableError.message : TableError → String
  | .duplicateKey e => "Duplicate instruction table entry: `" ++ e.key ++ "`"
  | .overlap a b => "Encodings of `" ++ a.key ++ "` and `" ++ b.key ++ "` overlap"

structure Table where
  entries : List Entry
deriving DecidableEq

namespace Table

/-- The first entry whose key an earlier one has. -/
def firstDuplicate? (seen : List Entry) : List Entry → Option Entry
  | [] => none
  | e :: rest => if seen.any e.sameKey then some e else firstDuplicate? (e :: seen) rest

/-- The first pair of entries, by the earlier one, that overlap. -/
def firstOverlap? : List Entry → Option (Entry × Entry)
  | [] => none
  | e :: rest =>
    match rest.find? e.overlaps with
    | some other => some (e, other)
    | none => firstOverlap? rest

/-- A table of entries with distinct keys and disjoint encodings; keys are checked first. -/
def ofEntries (entries : List Entry) : Except TableError Table :=
  match firstDuplicate? [] entries with
  | some e => .error (.duplicateKey e)
  | none =>
    match firstOverlap? entries with
    | some (a, b) => .error (.overlap a b)
    | none => .ok ⟨entries⟩

/-- The entry of a mnemonic and shape; letter case counts. -/
def lookup? (t : Table) (mnemonic : String) (shape : List Mode) : Option Entry :=
  t.entries.find? fun e => e.mnemonic == mnemonic && e.shape == shape

/-- The instruction that a word at address `pc` stands for. -/
def decode? (t : Table) (word : Word) (pc : Nat) : Option (Entry × List Operand) :=
  (t.entries.find? (·.covers word)).map fun e => (e, e.format.decode word e.shape pc)

end Table

end SuperH
