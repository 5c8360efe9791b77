import SuperH.Error
import SuperH.Text.Style

/-!
# Notices and how they are shown

A notice reports something odd that does not stop the assembler. Errors and notices are shown
with a headline and, where there is one, the line they are about.
-/
namespace SuperH

inductive Level where
  | error | warn | note
deriving DecidableEq

namespace Level

def name : Level → String
  | .error => "error"
  | .warn => "warn"
  | .note => "note"

def colour : Level → Text.Colour
  | .error => .red
  | .warn => .yellow
  | .note => .green

def headline (level : Level) (text : String) : String :=
  Text.shout level.colour level.name ++ ": " ++ text ++ "\n"

/-- A message about a line of a file, with the line itself. -/
def report (level : Level) (text file : String) (line : Nat) (raw : String) : String :=
  let bar := "      " ++ Text.paint .blue "|" ++ "\n"
  level.headline text ++
    "     " ++ Text.paint .blue "-->" ++ " " ++ Text.underline s!"{file}:{line}" ++ "\n" ++
    bar ++
    " " ++ Text.paint .blue (Text.padLeft 4 (toString line) ++ " |") ++ " " ++ raw ++ "\n" ++
    bar

end Level

inductive NoticeKind where
  | stray
  | redefined (name : String)
  | overridden
deriving DecidableEq

namespace NoticeKind

def level : NoticeKind → Level
  | .stray | .redefined _ => .warn
  | .overridden => .note

def text : NoticeKind → String
  | .stray => "Statement outside of any section is ignored"
  | .redefined name => s!"Re-defined label: `{name}`"
  | .overridden => "Already defined here. The value has been overridden."

end NoticeKind

structure Notice where
  kind : NoticeKind
  line : Nat
  raw : String
deriving DecidableEq

def Notice.report (n : Notice) (file : String) : String :=
  n.kind.level.report n.kind.text file n.line n.raw

def Diagnostic.report (d : Diagnostic) (file : String) : String :=
  Level.error.report d.error.message file d.line d.raw

end SuperH
