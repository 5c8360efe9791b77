import SuperH.Yaml.Document

/-!
# Anchors

An alias stands for the scalar of its anchor. Anchors are numbered by how many names are known
when they are met, and of two with one number the later holds for all the aliases of either.
-/
namespace SuperH.Yaml

/-- The numbers of names, and the scalars of numbers. The mapping of the document is no scalar. -/
structure Anchors where
  numbers : List (List Char × Nat) := []
  scalars : List (Nat × Option Scalar) := []

namespace Anchors

def define (anchors : Anchors) (name : Option (List Char)) (scalar : Option Scalar) : Anchors :=
  match name with
  | none => anchors
  | some name =>
    let number := anchors.numbers.length
    { numbers := (name, number) :: anchors.numbers.filter (·.1 != name)
      scalars := (number, scalar) :: anchors.scalars }

abbrev Reference := Scalar ⊕ Nat

def meet? (anchors : Anchors) : Leaf → Option (Reference × Anchors)
  | .scalar scalar => some (.inl scalar, anchors.define scalar.anchor (some scalar))
  | .aliasOf name => (anchors.numbers.lookup name).map fun number => (.inr number, anchors)

def resolve? (anchors : Anchors) : Reference → Option Scalar
  | .inl scalar => some scalar
  | .inr number => (anchors.scalars.lookup number).join

/-- The references of entries, and the anchors after them. -/
def meetAll? (anchors : Anchors) :
    List (Leaf × Leaf) → Option (List (Reference × Reference) × Anchors)
  | [] => some ([], anchors)
  | (key, value) :: rest => do
    let (key, anchors) ← anchors.meet? key
    let (value, anchors) ← anchors.meet? value
    let (rest, anchors) ← anchors.meetAll? rest
    return ((key, value) :: rest, anchors)

end Anchors

/-- The entries of a document, scalars in place of their aliases. -/
def Document.scalars? (document : Document) : Option (List (Scalar × Scalar)) := do
  let (entries, anchors) ← (({} : Anchors).define document.anchor none).meetAll? document.entries
  entries.mapM fun (key, value) => return (← anchors.resolve? key, ← anchors.resolve? value)

end SuperH.Yaml
