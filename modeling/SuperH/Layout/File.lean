import SuperH.Layout.Reading
import SuperH.Storage

/-!
# Layouts in files
-/
namespace SuperH

variable {m : Type → Type} [Monad m] [Storage m]

def readLayout (path : String) : ExceptT Error m Layout := do
  match ← (Storage.read path : m _) with
  | .error .directory => throw (.layout (.unreadable path))
  | .error _ => throw (.fileOpen path)
  | .ok bytes =>
    match (String.fromUTF8? bytes).bind Layout.ofText? with
    | none => throw (.layout (.unreadable path))
    | some l =>
      match l.fault? with
      | some fault => throw (.layout fault)
      | none => return l

end SuperH
