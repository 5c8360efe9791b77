import SuperH.Layout
import SuperH.Text.Digits
import SuperH.Yaml.Anchors

/-!
# Layout files

A layout is a flat YAML document. Fields that are not given keep their usual values; unknown and
repeated fields are refused.
-/
namespace SuperH.Layout

/-- A 32-bit number: an optional plus sign, then digits after `0x`, `0o` or `0b`, or decimal digits
without leading zeros. -/
def number32? (s : List Char) : Option Nat :=
  let unsigned := match s with
    | '+' :: rest => rest
    | _ => s
  let n := match unsigned with
    | '0' :: 'x' :: digits => Text.natural? 16 digits
    | '0' :: 'o' :: digits => Text.natural? 8 digits
    | '0' :: 'b' :: digits => Text.natural? 2 digits
    | '0' :: _ :: _ => none
    | digits => Text.natural? 10 digits
  n.filter (· < Nat.pow 2 32)

/-- Numbers are plain, whatever their tag says. -/
def number? (value : Yaml.Scalar) : Option Nat :=
  if value.isPlain then number32? value.text else none

def isNull (s : List Char) : Bool :=
  ["~", "null", "Null", "NULL"].contains (String.ofList s)

/-- A number, or none for a plain null or a plain scalar that is not written. A tag tells null from
a number. -/
def numberOrNull? (value : Yaml.Scalar) : Option (Option Nat) :=
  if value.isPlain then
    match value.tag with
    | none => if value.text = [] ∨ isNull value.text then some none else (number? value).map some
    | some tag =>
      if tag = .null then (if isNull value.text then some none else none)
      else (number? value).map some
  else none

def setField? (l : Layout) (name : String) (value : Yaml.Scalar) : Option Layout :=
  match name with
  | "segment_size" => (number? value).map fun n => { l with segmentSize := n }
  | "text_origin" => (number? value).map fun n => { l with textOrigin := n }
  | "data_origin" => (number? value).map fun n => { l with dataOrigin := n }
  | "vectable_entries" => (numberOrNull? value).map fun n => { l with vectableEntries := n }
  | _ => none

def ofFields? : List (String × Yaml.Scalar) → Option Layout
  | [] => some {}
  | (name, value) :: rest =>
    if rest.any (·.1 == name) then none
    else (ofFields? rest).bind (·.setField? name value)

def ofText? (text : String) : Option Layout := do
  let entries ← (← Yaml.Document.parse? text).scalars?
  ofFields? (entries.map fun (key, value) => (String.ofList key.text, value))

end SuperH.Layout
