import SuperH.Placement

/-!
# Memory images

An image is the contents of both segments as words, each with a note for the reader. It is
written as text, a word to a line in binary digits, or as the bytes from the lower origin to the
end of the upper segment.
-/
namespace SuperH

structure MemoryWord where
  word : Word
  note : Option String
deriving DecidableEq

namespace MemoryWord

def unused (addr : Nat) : MemoryWord :=
  ⟨0, some (Text.address addr ++ " : 0x00")⟩

def text (r : MemoryWord) : String :=
  Text.fixedBinary 16 r.word.toNat ++
    match r.note with
    | some note => "\t; " ++ note
    | none => ""

def render (words : List MemoryWord) : String :=
  String.join (words.map fun w => w.text ++ "\n")

/-- The two bytes of a word, the high one first. -/
def bytes (r : MemoryWord) : List UInt8 :=
  [⟨r.word.extractLsb' 8 8⟩, ⟨r.word.extractLsb' 0 8⟩]

/-- Fill up to `count` words; the first one stands at `origin`. -/
def fill (origin count : Nat) (words : List MemoryWord) : List MemoryWord :=
  words ++ (List.range' words.length (count - words.length)).map
    fun index => unused (origin + 2 * index)

def ofVector (v : VectorLine) : List MemoryWord :=
  [⟨BitVec.ofNat 16 (v.address / Nat.pow 2 16), some v.name⟩, ⟨BitVec.ofNat 16 v.address, none⟩]

def ofCode (addr : Nat) (word : Word) (raw : String) : MemoryWord :=
  ⟨word, some (Text.address addr ++ " : " ++ String.ofList (Text.trimStart raw.toList))⟩

def ofData (addr : Nat) (word : Word) : MemoryWord :=
  let n := word.toNat
  ⟨word, some (Text.address addr ++ s!" : {n / 256},{n % 256} / {n} / 0x" ++ Text.hexLower n)⟩

end MemoryWord

structure Image where
  text : List MemoryWord
  data : List MemoryWord
  textOrigin : Nat
  dataOrigin : Nat
deriving DecidableEq

namespace Image

/-- The vector table, the code and unused words up to the size of the segment. -/
def textWords (p : Program) (words : List Word) (place : Placement) (l : Layout) :
    List MemoryWord :=
  let vectors := MemoryWord.fill place.vectableOrigin (place.vectableSize / 2)
    (p.vectors.flatMap MemoryWord.ofVector)
  let code := (p.code.zip words).zipIdx.map fun ((line, word), index) =>
    MemoryWord.ofCode (place.codeAddress index) word (p.raw line.line)
  MemoryWord.fill l.textOrigin (l.segmentSize / 2) (vectors ++ code)

/-- The data words and unused words up to the size of the segment. -/
def dataWords (p : Program) (place : Placement) (l : Layout) : List MemoryWord :=
  let data := p.data.words.zipIdx.map fun ((word, _), index) =>
    MemoryWord.ofData (place.dataBase + 2 * index) word
  MemoryWord.fill place.dataBase (l.segmentSize / 2) data

def build (p : Program) (words : List Word) (place : Placement) (l : Layout) : Image :=
  { text := textWords p words place l
    data := dataWords p place l
    textOrigin := l.textOrigin
    dataOrigin := l.dataOrigin }

/-- The bytes of two segments in order of address, with zeros between them. -/
def joinSegments (lower upper : Nat × List UInt8) : List UInt8 :=
  lower.2 ++ List.replicate (upper.1 - (lower.1 + lower.2.length)) 0 ++ upper.2

/-- The memory from the lower origin to the end of the upper segment. -/
def toBytes (image : Image) : List UInt8 :=
  let text := (image.textOrigin, image.text.flatMap MemoryWord.bytes)
  let data := (image.dataOrigin, image.data.flatMap MemoryWord.bytes)
  if image.textOrigin ≤ image.dataOrigin then joinSegments text data else joinSegments data text

end Image

end SuperH
