import SuperH.Format

/-!
# Errors

Every reason for which a source, a layout or a memory listing is refused, and its wording.
A diagnostic binds an error to a line of the text in which it arose.
-/
namespace SuperH

/-- A text that breaks the grammar of its kind of line. -/
inductive SyntaxFault where
  | labelName (name : String)
  | emptyOperand (args : String)
  | notDirective (found : String)
  | notVector (code : String)
  | noVectorAddress (name : String)
  | noValues
  | notQuoted (args : String)
  | unknownEscape (c : Char)
  | danglingEscape
  | notStart (code : String)
  | noStart
  | notItem (code : String)
  | notBits (found : String)
deriving DecidableEq

def SyntaxFault.message : SyntaxFault → String
  | .labelName name => s!"invalid label name `{name}`"
  | .emptyOperand args => s!"empty operand in `{args}`"
  | .notDirective found => s!"expected a data directive, found `{found}`"
  | .notVector code => s!"expected `NAME: 0xADDRESS`, found `{code}`"
  | .noVectorAddress name => s!"missing address for vector `{name}`"
  | .noValues => "data directive without values"
  | .notQuoted args => s!"expected a quoted string, found `{args}`"
  | .unknownEscape c => s!"unknown escape `\\{c}`"
  | .danglingEscape => "dangling `\\` in string"
  | .notStart code => s!"expected `...: 0xADDR`, found `{code}`"
  | .noStart => "missing start address line"
  | .notItem code => s!"expected `B.`, `W.` or `L.` value, found `{code}`"
  | .notBits found => s!"expected 8 or 16 binary digits, found `{found}`"

inductive LayoutFault where
  | segmentSize (size : Nat)
  | oddOrigin (text data : Nat)
  | vectable (entries size : Nat)
  | addressSpace
  | overlap (text textEnd data dataEnd : Nat)
  | unreadable (path : String)
deriving DecidableEq

def LayoutFault.message : LayoutFault → String
  | .segmentSize size => s!"segment_size must be a non-zero even number, got {size}"
  | .oddOrigin text data =>
      "origins must be even, got text 0x" ++ Text.hexUpper text ++ " and data 0x" ++
        Text.hexUpper data
  | .vectable entries size =>
      s!"{entries} vector table entries do not fit in a {size} byte segment"
  | .addressSpace => "segment exceeds the address space"
  | .overlap text textEnd data dataEnd =>
      "text segment 0x" ++ Text.hexUpper text ++ "..0x" ++ Text.hexUpper textEnd ++
        " overlaps data segment 0x" ++ Text.hexUpper data ++ "..0x" ++ Text.hexUpper dataEnd
  | .unreadable path => s!"{path}: not a mapping of layout fields"

inductive Region where
  | vectable | text | data
deriving DecidableEq

def Region.name : Region → String
  | .vectable => "vectable"
  | .text => "text"
  | .data => "data"

inductive Error where
  | unsupportedInstruction (mnemonic : String) (shape : List Mode)
  | undefinedLabel (name : String)
  | unknownDirective (name : String)
  | displacementOutOfRange (disp : Int) (bits : Nat)
  | segmentOverflow (region : Region) (size capacity : Nat)
  | malformedOperand (found : String)
  | outOfRange (value : Int) (bits : Nat)
  | requiresR0 (r : Reg)
  | invalidNumber (found : String)
  | malformed (fault : SyntaxFault)
  | layout (fault : LayoutFault)
  | fileOpen (path : String)
  | fileRead (path : String)
  | fileCreate (path : String)
  | fileWrite (path : String)
deriving DecidableEq

namespace Error

def message : Error → String
  | .unsupportedInstruction mnemonic shape =>
      "Unsupported instruction: `" ++ mnemonic ++ " " ++ shapeText shape ++ "`"
  | .undefinedLabel name => s!"Undefined label: `{name}`"
  | .unknownDirective name => s!"Unknown directive: `{name}`"
  | .displacementOutOfRange disp bits => (EncodeError.branchOutOfRange disp bits).message
  | .segmentOverflow region size capacity =>
      "Segment `" ++ region.name ++ s!"` overflows: {size} bytes do not fit in {capacity}"
  | .malformedOperand found => s!"Malformed operand: `{found}`"
  | .outOfRange value bits => s!"Value {value} does not fit in {bits} bits"
  | .requiresR0 r => (EncodeError.requiresR0 r).message
  | .invalidNumber found => s!"Cannot parse `{found}` as a number"
  | .malformed fault => "Syntax error: " ++ fault.message
  | .layout fault => "Invalid layout: " ++ fault.message
  | .fileOpen path => s!"Failed to open file: {path}"
  | .fileRead path => s!"Failed to read file: {path}"
  | .fileCreate path => s!"Failed to create file: {path}"
  | .fileWrite path => s!"Failed to write file: {path}"

def ofEncodeError : EncodeError → Error
  | .outOfRange value bits => .outOfRange value bits
  | .branchOutOfRange disp bits => .displacementOutOfRange disp bits
  | .requiresR0 r => .requiresR0 r

end Error

/-- An error with the line it arose on; line 0 with no text when there is none. -/
structure Diagnostic where
  line : Nat
  raw : String
  error : Error
deriving DecidableEq

def Diagnostic.message (d : Diagnostic) : String :=
  "line " ++ toString d.line ++ ": " ++ d.error.message

/-- What can go wrong: a line of the source, or the setting in which it is assembled. -/
inductive Failure where
  | source (d : Diagnostic)
  | setup (e : Error)
deriving DecidableEq

end SuperH
