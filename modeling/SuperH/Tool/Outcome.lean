import SuperH.Notice

/-!
# Outcomes of a tool

What a run of a tool leaves: its exit code and what it prints.
-/
namespace SuperH.Tool

structure Outcome where
  exit : UInt32
  stdout : String
  stderr : String
deriving DecidableEq

namespace Outcome

def usage (text : String) : Outcome :=
  ⟨2, "", text ++ "\n"⟩

def failure (file : String) : Failure → Outcome
  | .source d => ⟨1, "", d.report file⟩
  | .setup e => ⟨1, "", Level.error.headline e.message⟩

end Outcome

end SuperH.Tool
