import SuperH.Tool.Assembler
import SuperH.Tool.Comparer

/-!
# The program

The first argument selects the tool: `asm` assembles a file, `cmp` compares a dump of memory with
what it should hold.
-/
namespace SuperH

/-- Run an action, and give its error as a value. -/
def attempt {α : Type} (act : IO α) : IO (Except IO.Error α) := do
  try return .ok (← act) catch e => return .error e

/-- Files of the operating system. A directory can be opened, but not read. -/
instance : Storage IO where
  read path := do
    if path.toList.contains '\x00' then return .error .badPath
    match ← attempt (IO.FS.Handle.mk path .read) with
    | .error (.noFileOrDirectory ..) | .error (.permissionDenied ..) => return .error .missing
    | .error _ => return .error .blocked
    | .ok handle =>
      match ← attempt handle.readBinToEnd with
      | .error _ => return .error .directory
      | .ok bytes => return .ok bytes
  write path contents := do
    if path.toList.contains '\x00' then return .error .create
    match ← attempt (IO.FS.Handle.mk path .write) with
    | .error _ => return .error .create
    | .ok handle =>
      match ← attempt (handle.write contents) with
      | .error _ => return .error .write
      | .ok () => return .ok ()

end SuperH

open SuperH in
def main (args : List String) : IO UInt32 := do
  let outcome : Tool.Outcome ←
    match args with
    | "asm" :: args => Tool.Assembler.run args
    | "cmp" :: args => Tool.Comparer.run args
    | _ => pure (.usage (Tool.Assembler.usage ++ "\n" ++ Tool.Comparer.usage))
  (← IO.getStderr).putStr outcome.stderr
  (← IO.getStdout).putStr outcome.stdout
  return outcome.exit
