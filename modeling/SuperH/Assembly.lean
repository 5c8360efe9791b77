import SuperH.Image

/-!
# Assembling

From a source and a layout to the completed words and the memory image.
-/
namespace SuperH

structure Assembly where
  program : Program
  place : Placement
  words : List Word
  image : Image
deriving DecidableEq

/-- Assemble a source. The layout is checked before the source is read. -/
def assemble (source : String) (l : Layout) : Except Failure Assembly := do
  l.validate.mapError .setup
  let program ← (Program.ofSource source).mapError .source
  let place ← (program.place l).mapError .source
  let words ← (program.link place).mapError .source
  return ⟨program, place, words, Image.build program words place l⟩

end SuperH
