import SuperH.Assembly
import SuperH.Storage

/-!
# Assembling files

A source is read from a file, and its memory image is written to files beside it.
-/
namespace SuperH

/-- The files of an image: a text for either segment, and on demand the bytes of both. -/
def Image.files (image : Image) (base : String) (bin : Bool) : List (String × ByteArray) :=
  [(base ++ "_mem0.txt", (MemoryWord.render image.text).toUTF8),
   (base ++ "_mem1.txt", (MemoryWord.render image.data).toUTF8)] ++
    if bin then [(base ++ ".bin", ⟨image.toBytes.toArray⟩)] else []

variable {m : Type → Type} [Monad m] [Storage m]

/-- Assemble a file, and write its image to files whose names start with `base`. The source is read
before the layout is checked. -/
def assembleFile (input base : String) (l : Layout) (bin : Bool) :
    ExceptT Failure m (Assembly × List String) := do
  let source ← (readText input : ExceptT Error m String).adapt .setup
  let assembly ← ExceptT.mk (pure (assemble source l))
  let files := assembly.image.files base bin
  (writeFiles files : ExceptT Error m Unit).adapt .setup
  return (assembly, files.map Prod.fst)

end SuperH
