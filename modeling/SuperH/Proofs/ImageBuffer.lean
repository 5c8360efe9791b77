import SuperH.Proofs.Trapping

/-!
# Images with 32-bit addresses

The segments of an image, filled word by word with addresses of 32 bits, and its bytes, stored two
at a time in a buffer of zeros between the lower origin and the upper end. Both come out as the
plain image and its bytes if the words fit into their segments.
-/
namespace SuperH

private theorem length_flatMap_two {α β : Type} {f : α → List β} (hf : ∀ a, (f a).length = 2)
    (xs : List α) : (xs.flatMap f).length = 2 * xs.length := by
  induction xs with
  | nil => rfl
  | cons x xs ih =>
    rw [List.flatMap_cons, List.length_append, hf, ih, List.length_cons]
    omega

namespace MemoryWord

theorem length_fill {count : Nat} {words : List MemoryWord} (h : words.length ≤ count)
    (origin : Nat) : (fill origin count words).length = count := by
  simp [fill]
  omega

theorem length_flatMap_bytes (words : List MemoryWord) :
    (words.flatMap bytes).length = 2 * words.length :=
  length_flatMap_two (fun _ => rfl) words

theorem length_flatMap_ofVector (vectors : List VectorLine) :
    (vectors.flatMap ofVector).length = 2 * vectors.length :=
  length_flatMap_two (fun _ => rfl) vectors

private theorem fill_of_le {count : Nat} {words : List MemoryWord} (h : count ≤ words.length)
    (origin : Nat) : fill origin count words = words := by
  simp [fill, Nat.sub_eq_zero_of_le h]

private theorem fill_append_unused {origin count : Nat} {words : List MemoryWord}
    (h : words.length < count) :
    fill origin count (words ++ [unused (origin + 2 * words.length)]) =
      fill origin count words := by
  obtain ⟨missing, hmissing⟩ : ∃ missing, count - words.length = missing + 1 :=
    ⟨count - words.length - 1, by omega⟩
  have hrest : count - (words.length + 1) = missing := by omega
  simp [fill, hmissing, hrest, List.range'_succ]

end MemoryWord

/-! ## Parts of a segment -/

namespace Image

def vectorWords (p : Program) (place : Placement) : List MemoryWord :=
  MemoryWord.fill place.vectableOrigin (place.vectableSize / 2)
    (p.vectors.flatMap MemoryWord.ofVector)

def codeWords (p : Program) (words : List Word) (place : Placement) : List MemoryWord :=
  (p.code.zip words).zipIdx.map fun x =>
    .ofCode (place.codeAddress x.2) x.1.2 (p.raw x.1.1.line)

def storedWords (p : Program) (place : Placement) : List MemoryWord :=
  p.data.words.zipIdx.map fun x => .ofData (place.dataBase + 2 * x.2) x.1.1

theorem textWords_eq (p : Program) (words : List Word) (place : Placement) (l : Layout) :
    textWords p words place l = MemoryWord.fill l.textOrigin (l.segmentSize / 2)
      (vectorWords p place ++ codeWords p words place) :=
  rfl

theorem dataWords_eq (p : Program) (place : Placement) (l : Layout) :
    dataWords p place l =
      MemoryWord.fill place.dataBase (l.segmentSize / 2) (storedWords p place) :=
  rfl

section Lengths

variable {p : Program} {l : Layout} {place : Placement} (hplace : p.place l = .ok place)

include hplace

theorem length_vectors_le : 4 * p.vectors.length ≤ place.vectableSize := by
  obtain ⟨size, hsize, _, _, _, rfl⟩ := Program.place_eq_ok.mp hplace
  rcases Layout.vectableSize_eq_ok.mp hsize with ⟨n, _, hle, rfl⟩ | ⟨_, rfl⟩ <;>
    dsimp only <;> omega

private theorem length_vectorWords_codeWords {words : List Word}
    (hwords : words.length = p.code.length) :
    (vectorWords p place ++ codeWords p words place).length ≤ l.segmentSize / 2 := by
  have hvectors := length_vectors_le hplace
  have htable := MemoryWord.length_flatMap_ofVector p.vectors
  obtain ⟨size, _, hsize, hcode, _, rfl⟩ := Program.place_eq_ok.mp hplace
  simp only [vectorWords, codeWords, List.length_append, List.length_map, List.length_zipIdx,
    List.length_zip, hwords, Nat.min_self] at hvectors ⊢
  rw [MemoryWord.length_fill (by omega)]
  omega

theorem length_storedWords : (storedWords p place).length ≤ l.segmentSize / 2 := by
  obtain ⟨size, _, _, _, hdata, rfl⟩ := Program.place_eq_ok.mp hplace
  simpa [storedWords] using hdata

theorem length_textWords {words : List Word} (hwords : words.length = p.code.length) :
    (textWords p words place l).length = l.segmentSize / 2 :=
  MemoryWord.length_fill (length_vectorWords_codeWords hplace hwords) _

theorem length_dataWords : (dataWords p place l).length = l.segmentSize / 2 :=
  MemoryWord.length_fill (length_storedWords hplace) _

end Lengths

end Image

namespace Trapping

/-! ## Segments -/

/-- Add unused words until a segment of `size` bytes is full; the first word stands at
`origin`. -/
def fill (origin size : Nat) (words : List MemoryWord) : Option (List MemoryWord) := do
  let reached ← double words.length
  if 2 * words.length < size then
    fill origin size (words ++ [.unused (← add origin reached)])
  else
    return words
termination_by size - 2 * words.length
decreasing_by
  simp
  omega

def codeWords (p : Program) (words : List Word) (place : Placement) : Option (List MemoryWord) :=
  (p.code.zip words).zipIdx.mapM fun x => do
    return .ofCode (← codeAddress place x.2) x.1.2 (p.raw x.1.1.line)

def storedWords (p : Program) (place : Placement) : Option (List MemoryWord) :=
  p.data.words.zipIdx.mapM fun x => do
    return .ofData (← add place.dataBase (← double x.2)) x.1.1

def textWords (p : Program) (words : List Word) (place : Placement) (l : Layout) :
    Option (List MemoryWord) := do
  let vectors ← fill place.vectableOrigin place.vectableSize
    (p.vectors.flatMap MemoryWord.ofVector)
  fill l.textOrigin l.segmentSize (vectors ++ (← codeWords p words place))

def dataWords (p : Program) (place : Placement) (l : Layout) : Option (List MemoryWord) := do
  fill place.dataBase l.segmentSize (← storedWords p place)

def build (p : Program) (words : List Word) (place : Placement) (l : Layout) : Option Image := do
  return ⟨← textWords p words place l, ← dataWords p place l, l.textOrigin, l.dataOrigin⟩

private theorem fill_eq {origin size : Nat} (hsize : size % 2 = 0)
    (horigin : origin + size < 2 ^ 32) {words : List MemoryWord}
    (hwords : 2 * words.length < 2 ^ 32) :
    fill origin size words = some (MemoryWord.fill origin (size / 2) words) := by
  -- On the number of words missing; the last address is below the end of the segment.
  induction hmissing : size / 2 - words.length generalizing words with
  | zero =>
    rw [fill, double_of_lt hwords, MemoryWord.fill_of_le (by omega)]
    simp only [Option.bind_eq_bind, Option.bind_some]
    rw [if_neg (by omega)]
    rfl
  | succ missing ih =>
    have hlonger : fill origin size (words ++ [.unused (origin + 2 * words.length)]) =
        some (MemoryWord.fill origin (size / 2)
          (words ++ [.unused (origin + 2 * words.length)])) := by
      apply ih
      · rw [List.length_append, List.length_singleton]
        omega
      · rw [List.length_append, List.length_singleton]
        omega
    rw [fill, double_of_lt hwords]
    simp only [Option.bind_eq_bind, Option.bind_some]
    rw [if_pos (by omega), add_of_lt (by omega), Option.bind_some, hlonger,
      MemoryWord.fill_append_unused (by omega)]

section Build

variable {p : Program} {l : Layout} {place : Placement} (hl : l.validate = .ok ())
  (hplace : p.place l = .ok place)

include hl hplace

private theorem codeWords_eq (words : List Word) :
    codeWords p words place = some (Image.codeWords p words place) := by
  apply mapM_eq_some
  intro x hx
  have hindex : x.2 < p.code.length := by
    have := List.snd_lt_of_mem_zipIdx hx
    rw [List.length_zip] at this
    omega
  rw [codeAddress_eq (Program.codeAddress_lt hl hplace hindex)]
  rfl

private theorem storedWords_eq : storedWords p place = some (Image.storedWords p place) := by
  apply mapM_eq_some
  intro x hx
  have hindex := List.snd_lt_of_mem_zipIdx hx
  obtain ⟨_, _, _, ⟨_, hdata⟩, _⟩ := Layout.validate_eq_ok.mp hl
  obtain ⟨size, _, _, _, hwords, rfl⟩ := Program.place_eq_ok.mp hplace
  rw [Layout.dataEnd] at hdata
  have haddress : l.dataOrigin + 2 * x.2 < 2 ^ 32 := by omega
  rw [double_of_lt (by omega)]
  simp only [Option.bind_eq_bind, Option.bind_some]
  rw [add_of_lt haddress]
  rfl

theorem textWords_eq {words : List Word} (hwords : words.length = p.code.length) :
    textWords p words place l = some (Image.textWords p words place l) := by
  have hvectors := Image.length_vectors_le hplace
  have htable := MemoryWord.length_flatMap_ofVector p.vectors
  have hlength := Image.length_vectorWords_codeWords hplace hwords
  obtain ⟨⟨_, hseg⟩, _, _, ⟨htext, _⟩, _⟩ := Layout.validate_eq_ok.mp hl
  rw [Layout.textEnd] at htext
  rw [textWords, codeWords_eq hl hplace, Image.textWords_eq]
  obtain ⟨size, hsize, hfit, _, _, rfl⟩ := Program.place_eq_ok.mp hplace
  have heven := Layout.vectableSize_even hsize
  dsimp only at hvectors hlength ⊢
  rw [fill_eq heven (by omega) (by omega)]
  simp only [Option.bind_eq_bind, Option.bind_some]
  exact fill_eq hseg htext (by rw [Image.vectorWords] at hlength; dsimp only at hlength; omega)

theorem dataWords_eq : dataWords p place l = some (Image.dataWords p place l) := by
  have hlength := Image.length_storedWords hplace
  obtain ⟨⟨_, hseg⟩, _, _, ⟨_, hdata⟩, _⟩ := Layout.validate_eq_ok.mp hl
  rw [Layout.dataEnd] at hdata
  rw [dataWords, storedWords_eq hl hplace, Image.dataWords_eq]
  obtain ⟨size, _, _, _, _, rfl⟩ := Program.place_eq_ok.mp hplace
  exact fill_eq hseg hdata (by omega)

theorem build_eq {words : List Word} (hwords : words.length = p.code.length) :
    build p words place l = some (Image.build p words place l) := by
  rw [build, textWords_eq hl hplace hwords, dataWords_eq hl hplace]
  rfl

end Build

/-! ## Bytes -/

def store (buffer : List UInt8) (offset : Nat) (word : MemoryWord) : Option (List UInt8) :=
  if offset + 2 ≤ buffer.length then
    some (buffer.take offset ++ word.bytes ++ buffer.drop (offset + 2))
  else none

def storeFrom (offset : Nat) : List MemoryWord → List UInt8 → Option (List UInt8)
  | [], buffer => some buffer
  | word :: words, buffer => do storeFrom (offset + 2) words (← store buffer offset word)

def toBytes (image : Image) : Option (List UInt8) := do
  let base := min image.textOrigin image.dataOrigin
  let textEnd ← add image.textOrigin (← double image.text.length)
  let dataEnd ← add image.dataOrigin (← double image.data.length)
  let size ← sub (max textEnd dataEnd) base
  let buffer ← storeFrom (← sub image.textOrigin base) image.text (List.replicate size 0)
  storeFrom (← sub image.dataOrigin base) image.data buffer

private theorem storeFrom_eq {offset : Nat} {words : List MemoryWord} {buffer : List UInt8}
    (h : offset + 2 * words.length ≤ buffer.length) :
    storeFrom offset words buffer = some (buffer.take offset ++ words.flatMap MemoryWord.bytes ++
      buffer.drop (offset + 2 * words.length)) := by
  induction words generalizing offset buffer with
  | nil => simp [storeFrom]
  | cons word words ih =>
    rw [List.length_cons] at h
    have hbytes : word.bytes.length = 2 := rfl
    have hfirst : (buffer.take offset ++ word.bytes).length = offset + 2 := by
      rw [List.length_append, List.length_take, hbytes]
      omega
    have htake : (buffer.take offset ++ word.bytes ++ buffer.drop (offset + 2)).take (offset + 2) =
        buffer.take offset ++ word.bytes := List.take_left' hfirst
    have hdrop : (buffer.take offset ++ word.bytes ++ buffer.drop (offset + 2)).drop
        (offset + 2 + 2 * words.length) = buffer.drop (offset + 2 * (words.length + 1)) := by
      rw [← List.drop_drop, List.drop_left' hfirst, List.drop_drop]
      congr 1
      omega
    rw [storeFrom, store, if_pos (by omega), Option.bind_eq_bind, Option.bind_some, ih]
    · rw [htake, hdrop, List.flatMap_cons, List.length_cons, List.append_assoc, List.append_assoc,
        List.append_assoc, List.append_assoc]
    · rw [List.length_append, hfirst, List.length_drop]
      omega

private theorem storeFrom_middle {offset : Nat} {words : List MemoryWord}
    {first middle : List UInt8} (hfirst : first.length = offset)
    (hmiddle : middle.length = 2 * words.length) (rest : List UInt8) :
    storeFrom offset words (first ++ (middle ++ rest)) =
      some (first ++ (words.flatMap MemoryWord.bytes ++ rest)) := by
  have hlength : (first ++ middle).length = offset + 2 * words.length := by
    rw [List.length_append, hfirst, hmiddle]
  rw [storeFrom_eq (by simp only [List.length_append]; omega), List.take_left' hfirst,
    ← List.append_assoc first middle, List.drop_left' hlength, List.append_assoc]

/-- Two blocks fill a buffer of zeros on both sides of a gap, whichever is stored first. -/
theorem storeFrom_both (low high : List MemoryWord) (gap : Nat) :
    let zeros := List.replicate (2 * low.length + gap + 2 * high.length) 0
    let filled := low.flatMap MemoryWord.bytes ++
      (List.replicate gap 0 ++ high.flatMap MemoryWord.bytes)
    (storeFrom 0 low zeros).bind (storeFrom (2 * low.length + gap) high) = some filled ∧
      (storeFrom (2 * low.length + gap) high zeros).bind (storeFrom 0 low) = some filled := by
  have hlow := MemoryWord.length_flatMap_bytes low
  have hzeros : List.replicate (2 * low.length + gap + 2 * high.length) (0 : UInt8) =
      List.replicate (2 * low.length) 0 ++
        (List.replicate gap 0 ++ List.replicate (2 * high.length) 0) := by
    rw [List.replicate_append_replicate, List.replicate_append_replicate, Nat.add_assoc]
  have hstart (rest : List UInt8) : storeFrom 0 low (List.replicate (2 * low.length) 0 ++ rest) =
      some (low.flatMap MemoryWord.bytes ++ rest) :=
    @storeFrom_middle 0 low [] _ rfl List.length_replicate rest
  have hend {first : List UInt8} (hfirst : first.length = 2 * low.length) :
      storeFrom (2 * low.length + gap) high
          (first ++ (List.replicate gap 0 ++ List.replicate (2 * high.length) 0)) =
        some (first ++ (List.replicate gap 0 ++ high.flatMap MemoryWord.bytes)) := by
    have hstored := @storeFrom_middle (2 * low.length + gap) high (first ++ List.replicate gap 0)
      (List.replicate (2 * high.length) 0) (by simp [hfirst]) List.length_replicate []
    simpa using hstored
  dsimp only
  rw [hzeros, hstart, Option.bind_some, hend hlow, hend List.length_replicate, Option.bind_some,
    hstart]
  exact ⟨rfl, rfl⟩

/-- The segments of an image do not overlap, and they end inside the address space. -/
structure Apart (image : Image) : Prop where
  text_lt : image.textOrigin + 2 * image.text.length < 2 ^ 32
  data_lt : image.dataOrigin + 2 * image.data.length < 2 ^ 32
  data_pos : 0 < image.data.length
  apart : image.dataOrigin + 2 * image.data.length ≤ image.textOrigin ∨
    image.textOrigin + 2 * image.text.length ≤ image.dataOrigin

theorem storeFrom_segments {image : Image} (h : Apart image) :
    let base := min image.textOrigin image.dataOrigin
    let zeros := List.replicate (max (image.textOrigin + 2 * image.text.length)
      (image.dataOrigin + 2 * image.data.length) - base) 0
    (storeFrom (image.textOrigin - base) image.text zeros).bind
        (storeFrom (image.dataOrigin - base) image.data) = some image.toBytes ∧
      (storeFrom (image.dataOrigin - base) image.data zeros).bind
        (storeFrom (image.textOrigin - base) image.text) = some image.toBytes := by
  obtain ⟨_, _, hpos, happart⟩ := h
  have htextBytes := MemoryWord.length_flatMap_bytes image.text
  have hdataBytes := MemoryWord.length_flatMap_bytes image.data
  dsimp only
  rcases happart with hbelow | habove
  · obtain ⟨gap, hgap⟩ := Nat.exists_eq_add_of_le hbelow
    have hsize : image.textOrigin + 2 * image.text.length - image.dataOrigin =
        2 * image.data.length + gap + 2 * image.text.length := by omega
    have hoffset : image.textOrigin - image.dataOrigin = 2 * image.data.length + gap := by omega
    have hrest : image.textOrigin - (image.dataOrigin + 2 * image.data.length) = gap := by omega
    rw [Nat.min_eq_right (by omega), Nat.max_eq_left (by omega), Image.toBytes, if_neg (by omega),
      Image.joinSegments]
    simp only [hsize, hoffset, hdataBytes, hrest, Nat.sub_self, List.append_assoc]
    exact (storeFrom_both image.data image.text gap).symm
  · obtain ⟨gap, hgap⟩ := Nat.exists_eq_add_of_le habove
    have hsize : image.dataOrigin + 2 * image.data.length - image.textOrigin =
        2 * image.text.length + gap + 2 * image.data.length := by omega
    have hoffset : image.dataOrigin - image.textOrigin = 2 * image.text.length + gap := by omega
    have hrest : image.dataOrigin - (image.textOrigin + 2 * image.text.length) = gap := by omega
    rw [Nat.min_eq_left (by omega), Nat.max_eq_right (by omega), Image.toBytes, if_pos (by omega),
      Image.joinSegments]
    simp only [hsize, hoffset, htextBytes, hrest, Nat.sub_self, List.append_assoc]
    exact storeFrom_both image.text image.data gap

theorem toBytes_eq {image : Image} (h : Apart image) : toBytes image = some image.toBytes := by
  obtain ⟨htext, hdata, _, _⟩ := id h
  rw [toBytes, double_of_lt (by omega), double_of_lt (by omega)]
  simp only [Option.bind_eq_bind, Option.bind_some, add_of_lt htext, add_of_lt hdata]
  rw [sub_of_le (by omega), sub_of_le (by omega), sub_of_le (by omega)]
  exact (storeFrom_segments h).1

end Trapping

end SuperH
