import SuperH.Text.Blank

/-!
# Command-line arguments

Options come before, between or after the other arguments: `--name value`, `--name=value`,
`-n value`, `-nvalue` or `-n=value`. Options without a value can share one dash, and `--` ends the
options. No option comes twice.
-/
namespace SuperH.Tool

structure OptionSpec where
  long : String
  short : Option Char
  takesValue : Bool

/-- The options given, by long name, and the other arguments. -/
structure Arguments where
  options : List (String × String)
  others : List String

namespace Arguments

def empty : Arguments := ⟨[], []⟩

def value? (args : Arguments) (long : String) : Option String :=
  args.options.lookup long

def isSet (args : Arguments) (long : String) : Bool :=
  (args.value? long).isSome

/-- Add an option that was not given before. -/
def addOption? (args : Arguments) (spec : OptionSpec) (value : String) : Option Arguments :=
  if args.isSet spec.long then none
  else some { args with options := args.options ++ [(spec.long, value)] }

def addOther (args : Arguments) (arg : String) : Arguments :=
  { args with others := args.others ++ [arg] }

end Arguments

/-- What an argument is: the options it sets, one that waits for the next argument, the mark that
ends the options, or none of these. -/
inductive ArgumentKind where
  | options (given : List (OptionSpec × String)) (pending : Option OptionSpec)
  | endOfOptions
  | other

/-- Options that share a dash. -/
def shortOptions? (specs : List OptionSpec) :
    List Char → Option (List (OptionSpec × String) × Option OptionSpec)
  | [] => some ([], none)
  | c :: rest => do
    let spec ← specs.find? (·.short == some c)
    if spec.takesValue then
      match rest with
      | [] => return ([], some spec)
      | '=' :: value => return ([(spec, String.ofList value)], none)
      | value => return ([(spec, String.ofList value)], none)
    else
      let (given, pending) ← shortOptions? specs rest
      return ((spec, "") :: given, pending)

def longOption? (specs : List OptionSpec) (s : List Char) :
    Option (List (OptionSpec × String) × Option OptionSpec) := do
  let name := String.ofList (s.takeWhile (· != '='))
  let spec ← specs.find? (·.long == name)
  match spec.takesValue, s.dropWhile (· != '=') with
  | true, _ :: value => return ([(spec, String.ofList value)], none)
  | true, [] => return ([], some spec)
  | false, [] => return ([(spec, "")], none)
  | false, _ :: _ => none

/-- What an argument is; nothing if it is a wrong option. -/
def classify? (specs : List OptionSpec) (arg : String) : Option ArgumentKind :=
  match arg.toList with
  | ['-', '-'] => some .endOfOptions
  | '-' :: '-' :: s => (longOption? specs s).map fun (given, pending) => .options given pending
  | '-' :: c :: s =>
    (shortOptions? specs (c :: s)).map fun (given, pending) => .options given pending
  | _ => some .other

def addOptions? (args : Arguments) : List (OptionSpec × String) → Option Arguments
  | [] => some args
  | (spec, value) :: rest => (args.addOption? spec value).bind (addOptions? · rest)

/-- Read arguments after those in `args`. -/
def parseFrom? (specs : List OptionSpec) (args : Arguments) : List String → Option Arguments
  | [] => some args
  | arg :: rest => do
    match ← classify? specs arg with
    | .endOfOptions => return rest.foldl Arguments.addOther args
    | .other => parseFrom? specs (args.addOther arg) rest
    | .options given pending =>
      let args ← addOptions? args given
      match pending, rest with
      | none, rest => parseFrom? specs args rest
      | some _, [] => none
      | some spec, value :: rest =>
        -- A value of its own does not look like an option.
        if value.toList.head? = some '-' ∧ value ≠ "-" then none
        else parseFrom? specs (← args.addOption? spec value) rest

def parse? (specs : List OptionSpec) (args : List String) : Option Arguments :=
  parseFrom? specs .empty args

end SuperH.Tool
