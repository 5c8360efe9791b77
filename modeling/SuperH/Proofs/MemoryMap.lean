import SuperH.Proofs.Contents

/-!
# The raw bytes of an image

The bytes of an image, read from the lower origin on, are a map of memory: each address of a segment
has its byte of the word that stands there, and the addresses between the segments are zero. The two
segments have no address in common, so either can be stored first.
-/
namespace SuperH

namespace Layout

def base (l : Layout) : Nat :=
  min l.textOrigin l.dataOrigin

def InText (l : Layout) (addr : Nat) : Prop :=
  l.textOrigin ≤ addr ∧ addr < l.textEnd

def InData (l : Layout) (addr : Nat) : Prop :=
  l.dataOrigin ≤ addr ∧ addr < l.dataEnd

end Layout

/-- The byte of a word at an even or an odd address, as words are big-endian. -/
def Word.byteAt (word : Word) (addr : Nat) : Nat :=
  if addr % 2 = 0 then word.toNat / 256 else word.toNat % 256

private theorem MemoryWord.getElem?_bytes (w : MemoryWord) (k : Nat) :
    ∃ b, w.bytes[k % 2]? = some b ∧ b.toNat = Word.byteAt w.word k := by
  have hlt := w.word.isLt
  rcases Nat.mod_two_eq_zero_or_one k with hk | hk
  · refine ⟨⟨w.word.extractLsb' 8 8⟩, by rw [hk]; rfl, ?_⟩
    simp only [Word.byteAt, hk, if_true, UInt8.toNat, BitVec.extractLsb'_toNat,
      Nat.shiftRight_eq_div_pow]
    omega
  · refine ⟨⟨w.word.extractLsb' 0 8⟩, by rw [hk]; rfl, ?_⟩
    simp [Word.byteAt, hk, UInt8.toNat, BitVec.extractLsb'_toNat]

private theorem MemoryWord.byte?_inside {origin addr : Nat} {words : List MemoryWord}
    (heven : origin % 2 = 0) (hlow : origin ≤ addr) (hhigh : addr < origin + 2 * words.length) :
    ∃ w b, words[(addr - origin) / 2]? = some w ∧ byte? origin words addr = some b ∧
      b.toNat = Word.byteAt w.word addr := by
  have hindex : (addr - origin) / 2 < words.length := by omega
  have hword := List.getElem?_eq_getElem hindex
  have hparity : (addr - origin) % 2 = addr % 2 := by omega
  obtain ⟨b, hb, hvalue⟩ := (words[(addr - origin) / 2]).getElem?_bytes addr
  refine ⟨_, b, hword, ?_, hvalue⟩
  rw [byte?, if_pos hlow, hword, Option.bind_some, hparity, hb]

namespace Image

private theorem getElem?_joinSegments {low high : Nat} {xs : List UInt8}
    (h : low + xs.length ≤ high) (ys : List UInt8) (i : Nat) :
    (joinSegments (low, xs) (high, ys))[i]? =
      if i < xs.length then xs[i]?
      else if i < high - low then some 0
      else ys[i - (high - low)]? := by
  have hgap : (xs ++ List.replicate (high - (low + xs.length)) (0 : UInt8)).length =
      high - low := by
    rw [List.length_append, List.length_replicate]
    omega
  simp only [joinSegments]
  by_cases hlow : i < xs.length
  · rw [if_pos hlow, List.append_assoc, List.getElem?_append_left hlow]
  · rw [if_neg hlow]
    by_cases hhigh : i < high - low
    · rw [if_pos hhigh, List.getElem?_append_left (by omega),
        List.getElem?_append_right (by omega), List.getElem?_replicate_of_lt (by omega)]
    · rw [if_neg hhigh, List.getElem?_append_right (by omega), hgap]

private theorem length_joinSegments {low high : Nat} {xs : List UInt8} (h : low + xs.length ≤ high)
    (ys : List UInt8) : (joinSegments (low, xs) (high, ys)).length = high - low + ys.length := by
  simp only [joinSegments, List.length_append, List.length_replicate]
  omega

/-- Two segments in order of address: each byte is that of its segment, and zero in between. -/
theorem getElem?_segments {low high : Nat} {xs ys : List MemoryWord}
    (h : low + 2 * xs.length ≤ high) {addr : Nat} (hlow : low ≤ addr)
    (hhigh : addr < high + 2 * ys.length) :
    (joinSegments (low, xs.flatMap MemoryWord.bytes)
        (high, ys.flatMap MemoryWord.bytes))[addr - low]? =
      some (((MemoryWord.byte? low xs addr).or (MemoryWord.byte? high ys addr)).getD 0) := by
  have hxs := MemoryWord.length_flatMap_bytes xs
  have hys := MemoryWord.length_flatMap_bytes ys
  obtain ⟨k, rfl⟩ := Nat.exists_eq_add_of_le hlow
  rw [getElem?_joinSegments (by omega), Nat.add_sub_cancel_left]
  by_cases hk : k < (xs.flatMap MemoryWord.bytes).length
  · rw [if_pos hk, MemoryWord.byte?_add, List.getElem?_eq_getElem hk]
    rfl
  · rw [if_neg hk, MemoryWord.byte?_outside (by omega), Option.none_or]
    by_cases hgap : k < high - low
    · rw [if_pos hgap, MemoryWord.byte?_outside (by omega)]
      rfl
    · have haddr : low + k = high + (k - (high - low)) := by omega
      have hindex : k - (high - low) < (ys.flatMap MemoryWord.bytes).length := by omega
      rw [if_neg hgap, haddr, MemoryWord.byte?_add, List.getElem?_eq_getElem hindex]
      rfl

private theorem byte?_comm {image : Image} (h : Trapping.Apart image) (addr : Nat) :
    (MemoryWord.byte? image.dataOrigin image.data addr).or
      (MemoryWord.byte? image.textOrigin image.text addr) = image.byte? addr := by
  have happart := h.apart
  unfold byte?
  by_cases htext : image.textOrigin ≤ addr ∧ addr < image.textOrigin + 2 * image.text.length
  · rw [@MemoryWord.byte?_outside image.dataOrigin addr image.data (by omega), Option.none_or,
      Option.or_none]
  · rw [@MemoryWord.byte?_outside image.textOrigin addr image.text (by omega), Option.none_or,
      Option.or_none]

theorem length_toBytes {image : Image} (h : Trapping.Apart image) :
    min image.textOrigin image.dataOrigin + image.toBytes.length =
      max (image.textOrigin + 2 * image.text.length)
        (image.dataOrigin + 2 * image.data.length) := by
  have htext := MemoryWord.length_flatMap_bytes image.text
  have hdata := MemoryWord.length_flatMap_bytes image.data
  have hpos := h.data_pos
  have happart := h.apart
  unfold toBytes
  by_cases horder : image.textOrigin ≤ image.dataOrigin
  · rw [if_pos horder, length_joinSegments (by omega)]
    omega
  · rw [if_neg horder, length_joinSegments (by omega)]
    omega

theorem getElem?_toBytes {image : Image} (h : Trapping.Apart image) {addr : Nat}
    (hlow : min image.textOrigin image.dataOrigin ≤ addr)
    (hhigh : addr < max (image.textOrigin + 2 * image.text.length)
      (image.dataOrigin + 2 * image.data.length)) :
    image.toBytes[addr - min image.textOrigin image.dataOrigin]? =
      some ((image.byte? addr).getD 0) := by
  have hpos := h.data_pos
  have happart := h.apart
  unfold toBytes
  by_cases horder : image.textOrigin ≤ image.dataOrigin
  · rw [if_pos horder, Nat.min_eq_left horder, getElem?_segments (by omega) (by omega) (by omega)]
    rfl
  · rw [if_neg horder, Nat.min_eq_right (by omega),
      getElem?_segments (by omega) (by omega) (by omega), byte?_comm h]

private theorem toBytes_of_text {image : Image} (h : Trapping.Apart image)
    (heven : image.textOrigin % 2 = 0) {addr : Nat} (hlow : image.textOrigin ≤ addr)
    (hhigh : addr < image.textOrigin + 2 * image.text.length) :
    ∃ w b, image.text[(addr - image.textOrigin) / 2]? = some w ∧
      image.toBytes[addr - min image.textOrigin image.dataOrigin]? = some b ∧
      b.toNat = Word.byteAt w.word addr := by
  obtain ⟨w, b, hw, hb, hvalue⟩ := MemoryWord.byte?_inside heven hlow hhigh
  refine ⟨w, b, hw, ?_, hvalue⟩
  rw [getElem?_toBytes h (by omega) (by omega), byte?, hb]
  rfl

private theorem toBytes_of_data {image : Image} (h : Trapping.Apart image)
    (heven : image.dataOrigin % 2 = 0) {addr : Nat} (hlow : image.dataOrigin ≤ addr)
    (hhigh : addr < image.dataOrigin + 2 * image.data.length) :
    ∃ w b, image.data[(addr - image.dataOrigin) / 2]? = some w ∧
      image.toBytes[addr - min image.textOrigin image.dataOrigin]? = some b ∧
      b.toNat = Word.byteAt w.word addr := by
  obtain ⟨w, b, hw, hb, hvalue⟩ := MemoryWord.byte?_inside heven hlow hhigh
  refine ⟨w, b, hw, ?_, hvalue⟩
  rw [getElem?_toBytes h (by omega) (by omega), ← byte?_comm h, hb]
  rfl

private theorem toBytes_of_outside {image : Image} (h : Trapping.Apart image) {addr : Nat}
    (hlow : min image.textOrigin image.dataOrigin ≤ addr)
    (hhigh : addr < min image.textOrigin image.dataOrigin + image.toBytes.length)
    (htext : ¬ (image.textOrigin ≤ addr ∧ addr < image.textOrigin + 2 * image.text.length))
    (hdata : ¬ (image.dataOrigin ≤ addr ∧ addr < image.dataOrigin + 2 * image.data.length)) :
    image.toBytes[addr - min image.textOrigin image.dataOrigin]? = some 0 := by
  rw [length_toBytes h] at hhigh
  rw [getElem?_toBytes h hlow hhigh, byte?, MemoryWord.byte?_outside (by omega),
    MemoryWord.byte?_outside (by omega)]
  rfl

/-- The bytes of an image map the memory of a layout, from its lower origin to the end of the upper
segment. -/
structure MapsMemory (image : Image) (l : Layout) : Prop where
  length : image.toBytes.length = max l.textOrigin l.dataOrigin + l.segmentSize - l.base
  /-- At an address of the text stands a byte of the text's word there. -/
  text : ∀ addr, l.InText addr → ∃ w b, image.text[(addr - l.textOrigin) / 2]? = some w ∧
    image.toBytes[addr - l.base]? = some b ∧ b.toNat = Word.byteAt w.word addr
  /-- At an address of the data stands a byte of the data's word there. -/
  data : ∀ addr, l.InData addr → ∃ w b, image.data[(addr - l.dataOrigin) / 2]? = some w ∧
    image.toBytes[addr - l.base]? = some b ∧ b.toNat = Word.byteAt w.word addr
  gap : ∀ addr, l.base ≤ addr → addr < l.base + image.toBytes.length →
    ¬ l.InText addr → ¬ l.InData addr → image.toBytes[addr - l.base]? = some 0
  apart : ∀ addr, ¬ (l.InText addr ∧ l.InData addr)
  /-- Storing the segments word by word into a buffer of zeros stays in the buffer and gives these
  bytes. -/
  stored : Trapping.toBytes image = some image.toBytes
  /-- It does so in either order: no byte of the first segment is stored over by the second. -/
  stored_either_first :
    let zeros := List.replicate image.toBytes.length 0
    (Trapping.storeFrom (l.textOrigin - l.base) image.text zeros).bind
        (Trapping.storeFrom (l.dataOrigin - l.base) image.data) = some image.toBytes ∧
      (Trapping.storeFrom (l.dataOrigin - l.base) image.data zeros).bind
        (Trapping.storeFrom (l.textOrigin - l.base) image.text) = some image.toBytes

end Image

private theorem assemble_segments {source : String} {l : Layout} {a : Assembly}
    (h : assemble source l = .ok a) :
    Trapping.Apart a.image ∧ a.image.textOrigin = l.textOrigin ∧
      a.image.dataOrigin = l.dataOrigin ∧ 2 * a.image.text.length = l.segmentSize ∧
      2 * a.image.data.length = l.segmentSize := by
  obtain ⟨hl, _, hplace, hlink, himage⟩ := assemble_eq_ok.mp h
  obtain ⟨⟨_, heven⟩, _⟩ := Layout.validate_eq_ok.mp hl
  have hwords := Program.length_link hlink
  have htext := Image.length_textWords hplace hwords
  have hdata := Image.length_dataWords hplace
  have hsize : 2 * (l.segmentSize / 2) = l.segmentSize := by omega
  rw [himage]
  refine ⟨Image.apart_build hl hplace hwords, rfl, rfl, ?_, ?_⟩
  · exact htext ▸ hsize
  · exact hdata ▸ hsize

/-- Each address of an assembled image has the byte of the word that stands there, text or data, and
zero between the segments; neither segment is stored over the other. -/
theorem assemble_mapsMemory {source : String} {l : Layout} {a : Assembly}
    (h : assemble source l = .ok a) : a.image.MapsMemory l := by
  obtain ⟨_, ⟨htextEven, hdataEven⟩, _, _, happart⟩ :=
    Layout.validate_eq_ok.mp (assemble_eq_ok.mp h).1
  obtain ⟨hbuilt, htextOrigin, hdataOrigin, htext, hdata⟩ := assemble_segments h
  -- What holds of any image whose segments are apart, in terms of the layout.
  have hlength := Image.length_toBytes hbuilt
  have hbyteText := @Image.toBytes_of_text a.image hbuilt
  have hbyteData := @Image.toBytes_of_data a.image hbuilt
  have houtside := @Image.toBytes_of_outside a.image hbuilt
  have hstored := Trapping.storeFrom_segments hbuilt
  simp only [htextOrigin, hdataOrigin, htext, hdata]
    at hlength hbyteText hbyteData houtside hstored
  have hzeros : max (l.textOrigin + l.segmentSize) (l.dataOrigin + l.segmentSize) -
      min l.textOrigin l.dataOrigin = a.image.toBytes.length := by omega
  rw [hzeros] at hstored
  have hnone (addr : Nat) : ¬ (l.InText addr ∧ l.InData addr) := by
    simp only [Layout.InText, Layout.InData]
    omega
  exact {
    length := by rw [Layout.base]; omega
    text := fun addr hin => hbyteText htextEven hin.1 hin.2
    data := fun addr hin => hbyteData hdataEven hin.1 hin.2
    gap := fun addr => houtside
    apart := hnone
    stored := Trapping.toBytes_eq hbuilt
    stored_either_first := hstored }

/-- Data below the text, with a gap of two bytes, and segments that touch at the top of the address
space. -/
theorem assemble_mapsMemory_gap :
    (∃ a, assemble ".text\nnop\n.data\n.byte 1, 2, 3\n" ⟨4, 6, 0, none⟩ = .ok a ∧
      a.image.MapsMemory ⟨4, 6, 0, none⟩ ∧ a.image.toBytes = [1, 2, 3, 0, 0, 0, 0, 9, 0, 0]) ∧
    ∃ a, assemble ".text\nnop\n.data\n.byte 1, 2, 3\n" ⟨4, 4294967286, 4294967290, none⟩ = .ok a ∧
      a.image.MapsMemory ⟨4, 4294967286, 4294967290, none⟩ ∧
      a.image.toBytes = [0, 9, 0, 0, 1, 2, 3, 0] := by
  have hbelow : (assemble ".text\nnop\n.data\n.byte 1, 2, 3\n" ⟨4, 6, 0, none⟩).toOption.map
      (fun a => a.image.toBytes) = some [1, 2, 3, 0, 0, 0, 0, 9, 0, 0] := by
    set_option maxRecDepth 4000 in
    decide
  have htop : (assemble ".text\nnop\n.data\n.byte 1, 2, 3\n"
      ⟨4, 4294967286, 4294967290, none⟩).toOption.map (fun a => a.image.toBytes) =
        some [0, 9, 0, 0, 1, 2, 3, 0] := by
    set_option maxRecDepth 4000 in
    decide
  obtain ⟨a, ha, hbytes⟩ := Option.map_eq_some_iff.mp hbelow
  obtain ⟨a', ha', hbytes'⟩ := Option.map_eq_some_iff.mp htop
  have ha := toOption_eq_some.mp ha
  have ha' := toOption_eq_some.mp ha'
  exact ⟨⟨a, ha, assemble_mapsMemory ha, hbytes⟩, a', ha', assemble_mapsMemory ha', hbytes'⟩

end SuperH
