import SuperH.Assembly.File
import SuperH.Layout.File
import SuperH.Listing
import SuperH.Path
import SuperH.Tool.Arguments
import SuperH.Tool.Outcome

/-!
# The assembler on the command line

`<input> [-o|--output BASE] [-l|--layout FILE] [-b|--bin] [-d|--dump]`
-/
namespace SuperH.Tool.Assembler

def specs : List OptionSpec :=
  [⟨"output", some 'o', true⟩, ⟨"layout", some 'l', true⟩, ⟨"bin", some 'b', false⟩,
   ⟨"dump", some 'd', false⟩]

def usage : String :=
  "usage: asm <input> [-o|--output BASE] [-l|--layout FILE] [-b|--bin] [-d|--dump]"

structure Options where
  input : String
  output : Option String
  layout : Option String
  bin : Bool
  dump : Bool

def Options.parse? (args : List String) : Option Options := do
  let args ← Tool.parse? specs args
  match args.others with
  | [input] =>
    return ⟨input, args.value? "output", args.value? "layout", args.isSet "bin", args.isSet "dump"⟩
  | _ => none

/-- What is shown of an assembled file: notices, the listing on demand, and the files written. -/
def report (options : Options) (assembly : Assembly) (written : List String) : Outcome :=
  let p := assembly.program
  let listing :=
    if options.dump then Listing.render options.input p assembly.words assembly.place else ""
  let files := written.map fun path => "  " ++ Text.paint .green ">" ++ " " ++ path ++ "\n"
  { exit := 0
    stdout := listing ++ String.join files
    stderr := String.join (p.notices.map (·.report options.input)) }

variable {m : Type → Type} [Monad m] [Storage m]

def assembleWith (options : Options) : ExceptT Failure m Outcome := do
  let layout ←
    match options.layout with
    | some path => (readLayout path : ExceptT Error m Layout).adapt .setup
    | none => pure {}
  let base := options.output.getD (Path.baseOf options.input)
  let (assembly, written) ← assembleFile options.input base layout options.bin
  return report options assembly written

def run (args : List String) : m Outcome := do
  match Options.parse? args with
  | none => return .usage usage
  | some options =>
    match ← (assembleWith options).run with
    | .ok outcome => return outcome
    | .error failure => return .failure options.input failure

end SuperH.Tool.Assembler
