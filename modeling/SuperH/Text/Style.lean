/-!
# Terminal styles

Escape sequences that colour or emphasise a text and restore the terminal after it.
-/
namespace SuperH.Text

inductive Colour where
  | red | green | yellow | blue

def Colour.code : Colour → Nat
  | .red => 31
  | .green => 32
  | .yellow => 33
  | .blue => 34

def escape (code : Nat) : String :=
  s!"\x1b[{code}m"

def paint (colour : Colour) (s : String) : String :=
  escape colour.code ++ s ++ escape 39

/-- Coloured and bold. -/
def shout (colour : Colour) (s : String) : String :=
  escape colour.code ++ escape 1 ++ s ++ escape 39 ++ escape 22

def dim (s : String) : String :=
  escape 2 ++ s ++ escape 22

def underline (s : String) : String :=
  escape 4 ++ s ++ escape 24

end SuperH.Text
