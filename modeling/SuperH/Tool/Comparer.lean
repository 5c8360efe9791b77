import SuperH.Comparison
import SuperH.Storage
import SuperH.Tool.Arguments
import SuperH.Tool.Outcome

/-!
# The memory comparer on the command line

`<expected> <dump> [--origin ADDRESS]`
-/
namespace SuperH.Tool.Comparer

def specs : List OptionSpec :=
  [⟨"origin", none, true⟩]

def usage : String :=
  "usage: cmp <expected> <dump> [--origin ADDRESS]"

structure Options where
  expected : String
  dump : String
  origin : Nat

/-- The address of the first byte of a dump unless it is given. -/
def usualOrigin : Nat := 0x400

/-- A 32-bit address, written as a number of the assembler. -/
def origin? (s : String) : Option Nat :=
  match Literal.number s with
  | .ok n => if 0 ≤ n ∧ n < Int.pow 2 32 then some n.toNat else none
  | .error _ => none

def Options.parse? (args : List String) : Option Options := do
  let args ← Tool.parse? specs args
  let origin ← match args.value? "origin" with
    | some s => origin? s
    | none => some usualOrigin
  match args.others with
  | [expected, dump] => return ⟨expected, dump, origin⟩
  | _ => none

/-- A line for every mismatch, and one for the result. -/
def report (expected : Expectation) (differences : List Difference) : Outcome :=
  let total := expected.bytes.length
  if differences.isEmpty then
    ⟨0, Text.shout .green "ok" ++ s!": {total} bytes from " ++ Text.address expected.start ++
      " match\n", ""⟩
  else
    let count := differences.length
    let lines := differences.map fun mismatch =>
      Text.shout .red "mismatch" ++ " @ " ++ mismatch.text ++ "\n"
    let result := Text.shout .red "failed" ++ s!": {count} of {total} bytes differ\n"
    ⟨1, String.join lines ++ result, ""⟩

variable {m : Type → Type} [Monad m] [Storage m]

/-- Compare the two files; both are read before either is parsed. A failure names its file. -/
def compareWith (options : Options) : ExceptT (String × Failure) m Outcome := do
  let load (path : String) : ExceptT (String × Failure) m String :=
    (readText path : ExceptT Error m String).adapt fun e => (path, .setup e)
  let expectedText ← load options.expected
  let dumpText ← load options.dump
  let expected ← ExceptT.mk (pure ((Expectation.parse expectedText).mapError fun d =>
    (options.expected, .source d)))
  let dump ← ExceptT.mk (pure ((Dump.parse dumpText).mapError fun d =>
    (options.dump, .source d)))
  return report expected (expected.differences dump options.origin)

def run (args : List String) : m Outcome := do
  match Options.parse? args with
  | none => return .usage usage
  | some options =>
    match ← (compareWith options).run with
    | .ok outcome => return outcome
    | .error (file, failure) => return .failure file failure

end SuperH.Tool.Comparer
