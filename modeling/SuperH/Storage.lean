import SuperH.Error

/-!
# Files

What the tools ask of a place that keeps files: to read and to write whole files by path.
-/
namespace SuperH

/-- Why a file cannot be read: there is none, something else than a directory stands on the way to
it, it is a directory, or no file can have such a path. -/
inductive ReadFault where
  | missing | blocked | directory | badPath
deriving DecidableEq

/-- Why a file cannot be written: it cannot be created, or its contents are not taken. -/
inductive WriteFault where
  | create | write
deriving DecidableEq

/-- Reading and writing whole files by path. -/
class Storage (m : Type → Type) where
  read : String → m (Except ReadFault ByteArray)
  write : String → ByteArray → m (Except WriteFault Unit)

variable {m : Type → Type} [Monad m] [Storage m]

def readText (path : String) : ExceptT Error m String := do
  match ← (Storage.read path : m _) with
  | .error .missing => throw (.fileOpen path)
  | .error _ => throw (.fileRead path)
  | .ok bytes =>
    match String.fromUTF8? bytes with
    | some text => return text
    | none => throw (.fileRead path)

/-- Write files one after the other, and stop at the first that fails. -/
def writeFiles : List (String × ByteArray) → ExceptT Error m Unit
  | [] => return ()
  | (path, contents) :: rest => do
    match ← (Storage.write path contents : m _) with
    | .error .create => throw (.fileCreate path)
    | .error .write => throw (.fileWrite path)
    | .ok () => writeFiles rest

end SuperH
