import Mathlib.Data.List.GetD
import SuperH.Proofs.AddressSpace
import SuperH.Proofs.Digits
import SuperH.Proofs.Weaving

/-!
# What memory holds

An assembled image is the program and nothing else: the vectors and the code stand in the text
segment, the data stands in its own, and every other word is zero. Words stand at the addresses that
labels and branches count on, and the notes beside them give these addresses.
-/
namespace SuperH

/-! ## Words of the text segment -/

/-- The two halves of a 32-bit address, the high one first. -/
def halves (address : Nat) : List Word :=
  [(BitVec.ofNat 32 address).extractLsb' 16 16, (BitVec.ofNat 32 address).extractLsb' 0 16]

private theorem MemoryWord.map_word_ofVector (v : VectorLine) :
    (ofVector v).map (·.word) = halves v.address := by
  have hhigh : BitVec.ofNat 16 (v.address / 2 ^ 16) =
      (BitVec.ofNat 32 v.address).extractLsb' 16 16 := by
    apply BitVec.eq_of_toNat_eq
    simp [Nat.shiftRight_eq_div_pow]
    omega
  have hlow : BitVec.ofNat 16 v.address = (BitVec.ofNat 32 v.address).extractLsb' 0 16 := by
    apply BitVec.eq_of_toNat_eq
    simp
  simp only [ofVector, List.map_cons, List.map_nil, halves, ← hhigh, ← hlow]
  rfl

namespace Image

private theorem map_word_vectorWords (p : Program) (place : Placement) :
    (vectorWords p place).map (·.word) = p.vectors.flatMap (fun v => halves v.address) ++
      List.replicate (place.vectableSize / 2 - 2 * p.vectors.length) 0 := by
  rw [vectorWords, MemoryWord.map_word_fill, MemoryWord.length_flatMap_ofVector, List.map_flatMap]
  simp only [MemoryWord.map_word_ofVector]

private theorem map_word_codeWords {p : Program} {words : List Word}
    (hwords : words.length = p.code.length) (place : Placement) :
    (codeWords p words place).map (·.word) = words := by
  have hword : (·.word) ∘ (fun x : (CodeLine × Word) × Nat => MemoryWord.ofCode
      (place.codeAddress x.2) x.1.2 (p.raw x.1.1.line)) = Prod.snd ∘ Prod.fst := rfl
  rw [codeWords, List.map_map, hword, ← List.map_map, List.zipIdx_map_fst,
    List.map_snd_zip hwords.le]

private theorem length_vectorWords {p : Program} {l : Layout} {place : Placement}
    (hplace : p.place l = .ok place) : (vectorWords p place).length = place.vectableSize / 2 := by
  have hvectors := length_vectors_le hplace
  apply MemoryWord.length_fill
  rw [MemoryWord.length_flatMap_ofVector]
  omega

private theorem length_codeWords {p : Program} {words : List Word}
    (hwords : words.length = p.code.length)
    (place : Placement) : (codeWords p words place).length = words.length := by
  rw [← List.length_map (·.word), map_word_codeWords hwords]

private theorem map_word_textWords {p : Program} {l : Layout} {place : Placement}
    {words : List Word} (hplace : p.place l = .ok place) (hwords : words.length = p.code.length) :
    (textWords p words place l).map (·.word) =
      (p.vectors.flatMap (fun v => halves v.address) ++
        List.replicate (place.vectableSize / 2 - 2 * p.vectors.length) 0) ++ words ++
      List.replicate (l.segmentSize / 2 - (place.vectableSize / 2 + words.length)) 0 := by
  rw [textWords_eq, MemoryWord.map_word_fill, List.map_append, map_word_vectorWords,
    map_word_codeWords hwords, List.length_append, length_vectorWords hplace,
    length_codeWords hwords]

private theorem word_textWords {p : Program} {l : Layout} {place : Placement} {words : List Word}
    (hplace : p.place l = .ok place) (hwords : words.length = p.code.length) {i : Nat}
    (hi : i < words.length) :
    ((textWords p words place l)[(place.codeAddress i - l.textOrigin) / 2]?).map (·.word) =
      words[i]? := by
  have hvectors := length_vectorWords hplace
  rw [← List.length_map (·.word), map_word_vectorWords] at hvectors
  have hindex : (place.codeAddress i - l.textOrigin) / 2 = place.vectableSize / 2 + i := by
    obtain ⟨size, hsize, _, _, _, rfl⟩ := Program.place_eq_ok.mp hplace
    have heven := Layout.vectableSize_even hsize
    simp only [Placement.codeAddress]
    omega
  rw [← List.getElem?_map, map_word_textWords hplace hwords, List.append_assoc,
    List.getElem?_append_right (by omega), hvectors, hindex, Nat.add_sub_cancel_left,
    List.getElem?_append_left hi]

end Image

/-! ## Words of the data segment -/

/-- The big-endian word of index `k` in a stream of bytes, with zeros after the last byte. -/
def wordAt (bytes : List UInt8) (k : Nat) : Word :=
  (bytes.getD (2 * k) 0).toBitVec ++ (bytes.getD (2 * k + 1) 0).toBitVec

private theorem wordAt_of_le {bytes : List UInt8} {k : Nat} (h : bytes.length ≤ 2 * k) :
    wordAt bytes k = 0 := by
  rw [wordAt, List.getD_eq_default _ _ h, List.getD_eq_default _ _ (by omega)]
  rfl

theorem DataSection.map_fst_pairUp (bytes : List SourceByte) :
    (pairUp bytes).map Prod.fst =
      (List.range ((bytes.length + 1) / 2)).map (wordAt (bytes.map (·.value))) := by
  induction bytes using pairUp.induct with
  | case1 => rfl
  | case2 high => simp [pairUp, wordAt, wordOfBytes]
  | case3 high low rest ih =>
    have hcount : ((high :: low :: rest).length + 1) / 2 = (rest.length + 1) / 2 + 1 := by
      simp only [List.length_cons]
      omega
    have hlater (k : Nat) : wordAt ((high :: low :: rest).map (·.value)) (k + 1) =
        wordAt (rest.map (·.value)) k := rfl
    rw [hcount, List.range_succ_eq_map, List.map_cons, List.map_map, pairUp, List.map_cons, ih]
    simp only [Function.comp_def, Nat.succ_eq_add_one, hlater]
    rfl

private theorem Image.map_word_dataWords {p : Program} {l : Layout} {place : Placement}
    (hplace : p.place l = .ok place) :
    (dataWords p place l).map (·.word) =
      (List.range (l.segmentSize / 2)).map (wordAt (p.data.bytes.map (·.value))) := by
  have hlength := length_storedWords hplace
  have hstored : (storedWords p place).map (·.word) =
      (List.range (storedWords p place).length).map (wordAt (p.data.bytes.map (·.value))) := by
    have hword : (·.word) ∘ (fun x : (Word × Nat) × Nat => MemoryWord.ofData
        (place.dataBase + 2 * x.2) x.1.1) = Prod.fst ∘ Prod.fst := rfl
    have hcount : (storedWords p place).length = (p.data.bytes.length + 1) / 2 := by
      rw [storedWords, List.length_map, List.length_zipIdx, DataSection.length_words,
        DataSection.offset]
    rw [hcount, storedWords, List.map_map, hword, ← List.map_map, List.zipIdx_map_fst,
      DataSection.words, DataSection.map_fst_pairUp]
  obtain ⟨rest, hrest⟩ := Nat.exists_eq_add_of_le hlength
  have hzeros : ∀ k ∈ List.range rest, wordAt (p.data.bytes.map (·.value))
      ((storedWords p place).length + k) = 0 := by
    intro k _
    apply wordAt_of_le
    rw [storedWords, List.length_map, List.length_map, List.length_zipIdx,
      DataSection.length_words, DataSection.offset]
    omega
  rw [dataWords_eq, MemoryWord.map_word_fill, hstored, hrest, Nat.add_sub_cancel_left,
    List.range_add, List.map_append, List.map_map]
  congr 1
  rw [List.map_congr_left (g := fun _ => 0) (by simpa using hzeros)]
  simp

/-! ## Bytes -/

theorem MemoryWord.bytes_of_word {w : MemoryWord} {high low : UInt8}
    (h : w.word = high.toBitVec ++ low.toBitVec) : w.bytes = [high, low] := by
  have hhigh : (high.toBitVec ++ low.toBitVec).extractLsb' 8 8 = high.toBitVec :=
    BitVec.extractLsb'_append_eq_left
  have hlow : (high.toBitVec ++ low.toBitVec).extractLsb' 0 8 = low.toBitVec :=
    BitVec.extractLsb'_append_eq_right
  simp only [bytes, h, hhigh, hlow]

private theorem getElem?_flatMap_two {α β : Type} {f : α → List β} (hf : ∀ a, (f a).length = 2)
    (xs : List α) (k : Nat) :
    (xs.flatMap f)[k]? = (xs[k / 2]?).bind fun a => (f a)[k % 2]? := by
  induction xs generalizing k with
  | nil => simp
  | cons x xs ih =>
    rw [List.flatMap_cons]
    by_cases hk : k < 2
    · have hdiv : k / 2 = 0 := by omega
      have hmod : k % 2 = k := by omega
      rw [List.getElem?_append_left (by simpa [hf] using hk), hdiv, hmod]
      simp
    · obtain ⟨m, rfl⟩ : ∃ m, k = m + 2 := ⟨k - 2, by omega⟩
      have hdiv : (m + 2) / 2 = m / 2 + 1 := by omega
      have hmod : (m + 2) % 2 = m % 2 := by omega
      rw [List.getElem?_append_right (by simp [hf]), hf, Nat.add_sub_cancel, ih, hdiv, hmod]
      simp

theorem MemoryWord.flatMap_bytes_of_wordAt {words : List MemoryWord} {bytes : List UInt8} {n : Nat}
    (h : words.map (·.word) = (List.range n).map (wordAt bytes)) (hn : bytes.length ≤ 2 * n) :
    words.flatMap MemoryWord.bytes = bytes ++ List.replicate (2 * n - bytes.length) 0 := by
  have hlength : words.length = n := by simpa using congrArg List.length h
  apply List.ext_getElem?
  intro k
  by_cases hk : k < 2 * n
  · have hindex : k / 2 < words.length := by omega
    have hword : (words[k / 2]).word = wordAt bytes (k / 2) := by
      have hget := congrArg (·[k / 2]?) h
      simpa [List.getElem?_eq_getElem hindex, hlength ▸ hindex] using hget
    have hbyte : (words.flatMap MemoryWord.bytes)[k]? = some (bytes.getD k 0) := by
      rw [getElem?_flatMap_two (fun _ => rfl), List.getElem?_eq_getElem hindex, Option.bind_some,
        bytes_of_word hword]
      rcases Nat.mod_two_eq_zero_or_one k with hmod | hmod
      · rw [hmod, show 2 * (k / 2) = k by omega]
        rfl
      · rw [hmod, show 2 * (k / 2) + 1 = k by omega]
        rfl
    rw [hbyte, List.getElem?_append]
    split
    · rw [List.getD_eq_getElem _ _ ‹_›, List.getElem?_eq_getElem]
    · rw [List.getD_eq_default _ _ (by omega), List.getElem?_replicate_of_lt (by omega)]
  · rw [List.getElem?_eq_none, List.getElem?_eq_none]
    · simp
      omega
    · rw [length_flatMap_bytes]
      omega

theorem Image.flatMap_bytes_dataWords {p : Program} {l : Layout} {place : Placement}
    (hl : l.validate = .ok ()) (hplace : p.place l = .ok place) :
    (dataWords p place l).flatMap MemoryWord.bytes = p.data.bytes.map (·.value) ++
      List.replicate (l.segmentSize - p.data.bytes.length) 0 := by
  obtain ⟨⟨_, heven⟩, _⟩ := Layout.validate_eq_ok.mp hl
  have hsize : 2 * (l.segmentSize / 2) = l.segmentSize := by omega
  have hfits : (p.data.bytes.map (·.value)).length ≤ 2 * (l.segmentSize / 2) := by
    obtain ⟨_, _, _, _, hdata, _⟩ := Program.place_eq_ok.mp hplace
    rw [DataSection.length_words, DataSection.offset] at hdata
    rw [List.length_map]
    omega
  rw [MemoryWord.flatMap_bytes_of_wordAt (map_word_dataWords hplace) hfits, hsize, List.length_map]

def MemoryWord.byte? (origin : Nat) (words : List MemoryWord) (addr : Nat) : Option UInt8 :=
  if origin ≤ addr then
    (words[(addr - origin) / 2]?).bind fun w => w.bytes[(addr - origin) % 2]?
  else none

/-- The byte that memory holds at an address of either segment. -/
def Image.byte? (image : Image) (addr : Nat) : Option UInt8 :=
  (MemoryWord.byte? image.textOrigin image.text addr).or
    (MemoryWord.byte? image.dataOrigin image.data addr)

theorem MemoryWord.byte?_add (origin : Nat) (words : List MemoryWord) (k : Nat) :
    byte? origin words (origin + k) = (words.flatMap bytes)[k]? := by
  rw [byte?, if_pos (Nat.le_add_right origin k), Nat.add_sub_cancel_left,
    getElem?_flatMap_two (fun _ => rfl)]

theorem MemoryWord.byte?_outside {origin addr : Nat} {words : List MemoryWord}
    (h : addr < origin ∨ origin + 2 * words.length ≤ addr) : byte? origin words addr = none := by
  unfold byte?
  split
  · rw [List.getElem?_eq_none (by omega), Option.bind_none]
  · rfl

private theorem Image.byte?_data {p : Program} {l : Layout} {place : Placement} {words : List Word}
    (hl : l.validate = .ok ()) (hplace : p.place l = .ok place)
    (hwords : words.length = p.code.length) {k : Nat} {b : SourceByte}
    (hb : p.data.bytes[k]? = some b) :
    (build p words place l).byte? (place.dataBase + k) = some b.value := by
  have hbase : place.dataBase = l.dataOrigin := by
    obtain ⟨_, _, _, _, _, rfl⟩ := Program.place_eq_ok.mp hplace
    rfl
  have hk : k < p.data.bytes.length := (List.getElem?_eq_some_iff.mp hb).1
  have hdata : (dataWords p place l).length = l.segmentSize / 2 := length_dataWords hplace
  have htext : (textWords p words place l).length = l.segmentSize / 2 :=
    length_textWords hplace hwords
  have houtside : MemoryWord.byte? l.textOrigin (textWords p words place l)
      (l.dataOrigin + k) = none := by
    apply MemoryWord.byte?_outside
    obtain ⟨⟨_, heven⟩, _, _, _, happart⟩ := Layout.validate_eq_ok.mp hl
    obtain ⟨_, _, _, _, hfits, _⟩ := Program.place_eq_ok.mp hplace
    rw [DataSection.length_words, DataSection.offset] at hfits
    simp only [Layout.textEnd, Layout.dataEnd] at happart
    omega
  rw [hbase]
  change (MemoryWord.byte? l.textOrigin (textWords p words place l) (l.dataOrigin + k)).or
    (MemoryWord.byte? l.dataOrigin (dataWords p place l) (l.dataOrigin + k)) = some b.value
  rw [houtside, Option.none_or, MemoryWord.byte?_add, flatMap_bytes_dataWords hl hplace,
    List.getElem?_append_left (by simpa using hk), List.getElem?_map, hb, Option.map_some]

/-! ## Notes -/

theorem Text.toList_address_append (addr : Nat) (rest : String) :
    (address addr ++ rest).toList = '0' :: 'x' :: (fixedDigits 16 8 addr ++ rest.toList) := by
  simp [address, fixedHex]

private theorem Text.address_append_inj {a b : Nat} (ha : a < 2 ^ 32) (hb : b < 2 ^ 32)
    {s t : String} (h : address a ++ s = address b ++ t) : a = b := by
  have hrange : 2 ^ 32 = 16 ^ 8 := rfl
  have hlists := congrArg String.toList h
  rw [toList_address_append, toList_address_append] at hlists
  simp only [List.cons.injEq, true_and] at hlists
  rw [hrange] at ha hb
  exact eq_of_fixedDigits_append (by decide) (by decide) (by decide) ha hb hlists

namespace MemoryWord

/-- The note of a word starts with an address. -/
def NotedAt (addr : Nat) (w : MemoryWord) : Prop :=
  ∃ rest, w.note = some (Text.address addr ++ (" : " ++ rest))

private theorem notedAt_unused (addr : Nat) : NotedAt addr (unused addr) :=
  ⟨"0x00", by simp [unused]⟩

private theorem notedAt_ofCode (addr : Nat) (word : Word) (raw : String) :
    NotedAt addr (ofCode addr word raw) :=
  ⟨_, by rw [ofCode, String.append_assoc]⟩

private theorem notedAt_ofData (addr : Nat) (word : Word) : NotedAt addr (ofData addr word) := by
  refine ⟨toString (word.toNat / 256) ++ "," ++ toString (word.toNat % 256) ++ " / " ++
    toString word.toNat ++ " / 0x" ++ Text.hexLower word.toNat, ?_⟩
  simp only [ofData, String.append_assoc]
  rfl

private theorem NotedAt.eq_of_note {addr : Nat} {w : MemoryWord} (h : NotedAt addr w)
    (haddr : addr < 2 ^ 32) {other : Nat} (hother : other < 2 ^ 32) {rest : String}
    (hnote : w.note = some (Text.address other ++ rest)) : other = addr := by
  obtain ⟨_, h⟩ := h
  rw [h, Option.some.injEq] at hnote
  exact (Text.address_append_inj haddr hother hnote).symm

/-- Words of a segment from `origin` on, whose notes start with their addresses from the word of
index `first` on. -/
def NotedFrom (origin first : Nat) (words : List MemoryWord) : Prop :=
  ∀ i w, words[i]? = some w → first ≤ i → NotedAt (origin + 2 * i) w

theorem NotedFrom.append {origin first : Nat} {words others : List MemoryWord}
    (h : NotedFrom origin first words) (hothers : NotedFrom (origin + 2 * words.length) 0 others) :
    NotedFrom origin first (words ++ others) := by
  intro i w hw hi
  by_cases hlt : i < words.length
  · rw [List.getElem?_append_left hlt] at hw
    exact h i w hw hi
  · rw [List.getElem?_append_right (by omega)] at hw
    have hnoted := hothers (i - words.length) w hw (Nat.zero_le _)
    have haddr : origin + 2 * words.length + 2 * (i - words.length) = origin + 2 * i := by omega
    rwa [haddr] at hnoted

theorem NotedFrom.fill {origin first : Nat} {words : List MemoryWord}
    (h : NotedFrom origin first words) (count : Nat) :
    NotedFrom origin first (fill origin count words) := by
  apply h.append
  intro i w hw _
  rw [List.getElem?_map] at hw
  obtain ⟨index, hindex, rfl⟩ := Option.map_eq_some_iff.mp hw
  obtain ⟨hlt, hindex⟩ := List.getElem?_eq_some_iff.mp hindex
  rw [List.getElem_range'] at hindex
  have haddr : origin + 2 * words.length + 2 * i = origin + 2 * index := by omega
  rw [haddr]
  exact notedAt_unused _

end MemoryWord

namespace Image

private theorem notedFrom_codeWords (p : Program) (words : List Word) (place : Placement) :
    MemoryWord.NotedFrom place.textBase 0 (codeWords p words place) := by
  intro i w hw _
  rw [codeWords, List.getElem?_map, List.getElem?_zipIdx] at hw
  simp only [Option.map_map, Option.map_eq_some_iff] at hw
  obtain ⟨x, _, rfl⟩ := hw
  simp only [Function.comp_apply, Nat.zero_add]
  exact MemoryWord.notedAt_ofCode _ _ _

private theorem notedFrom_textWords {p : Program} {l : Layout} {place : Placement}
    (hplace : p.place l = .ok place) (words : List Word) :
    MemoryWord.NotedFrom l.textOrigin (2 * p.vectors.length) (textWords p words place l) := by
  have htable : MemoryWord.NotedFrom place.vectableOrigin (2 * p.vectors.length)
      (vectorWords p place) := by
    apply MemoryWord.NotedFrom.fill
    intro i w hw hi
    rw [← MemoryWord.length_flatMap_ofVector] at hi
    rw [List.getElem?_eq_none hi] at hw
    cases hw
  have horigin : place.vectableOrigin = l.textOrigin ∧
      place.textBase = l.textOrigin + 2 * (vectorWords p place).length := by
    rw [length_vectorWords hplace]
    obtain ⟨size, hsize, _, _, _, rfl⟩ := Program.place_eq_ok.mp hplace
    have heven := Layout.vectableSize_even hsize
    exact ⟨rfl, by dsimp only; omega⟩
  rw [horigin.1] at htable
  rw [textWords_eq]
  apply MemoryWord.NotedFrom.fill
  apply htable.append
  rw [← horigin.2]
  exact notedFrom_codeWords p words place

private theorem notedFrom_dataWords {p : Program} {l : Layout} {place : Placement}
    (hplace : p.place l = .ok place) :
    MemoryWord.NotedFrom l.dataOrigin 0 (dataWords p place l) := by
  have hbase : place.dataBase = l.dataOrigin := by
    obtain ⟨_, _, _, _, _, rfl⟩ := Program.place_eq_ok.mp hplace
    rfl
  rw [dataWords_eq, hbase]
  apply MemoryWord.NotedFrom.fill
  intro i w hw _
  rw [storedWords, List.getElem?_map, List.getElem?_zipIdx] at hw
  simp only [Option.map_map, Option.map_eq_some_iff] at hw
  obtain ⟨x, _, rfl⟩ := hw
  simp only [Function.comp_apply, Nat.zero_add, hbase]
  exact MemoryWord.notedAt_ofData _ _

end Image

/-! ## Vectors -/

theorem Program.isName_of_mem_vectors {source : String} {p : Program}
    (h : Program.ofSource source = .ok p) {v : VectorLine} (hv : v ∈ p.vectors) :
    IsName v.name ∧ v.address < 2 ^ 32 := by
  obtain ⟨ss, hss, rfl⟩ := ofSource_eq_ok.mp h
  obtain ⟨s, hs, hvector⟩ := List.mem_filterMap.mp hv
  obtain ⟨_, raw, _, hread⟩ := standsIn_of_mem hss hs
  unfold SourceStatement.vector? at hvector
  split at hvector
  · rename_i line name address
    cases hvector
    obtain ⟨written, hwritten, hread⟩ := bind_eq_ok.mp hread
    cases hread
    obtain ⟨⟨rest, htake⟩, haddress⟩ := WrittenVector.parse_eq_ok hwritten
    exact ⟨isName_of_takeLabel htake, haddress⟩
  · cases hvector

private theorem IsName.ne_address {name : String} (h : IsName name) (addr : Nat) (rest : String) :
    name ≠ Text.address addr ++ rest := by
  rintro rfl
  have hidentifier := h.identifier
  rw [isIdentifier, Text.toList_address_append, isIdentifierText] at hidentifier
  simp [startsIdentifier] at hidentifier

/-- The first words of the text segment are those of the vectors, without addresses. -/
theorem Image.note_of_vector {p : Program} {l : Layout} {place : Placement} {words : List Word}
    {i : Nat} {w : MemoryWord} (hw : (textWords p words place l)[i]? = some w)
    (hi : i < 2 * p.vectors.length) : w.note = none ∨ ∃ v ∈ p.vectors, w.note = some v.name := by
  have hlt : i < (p.vectors.flatMap MemoryWord.ofVector).length := by
    rwa [MemoryWord.length_flatMap_ofVector]
  rw [textWords_eq, MemoryWord.fill, vectorWords, MemoryWord.fill, List.append_assoc,
    List.append_assoc, List.getElem?_append_left hlt] at hw
  obtain ⟨v, hv, hmem⟩ := List.mem_flatMap.mp (List.mem_of_getElem? hw)
  simp only [MemoryWord.ofVector, List.mem_cons, List.not_mem_nil, or_false] at hmem
  rcases hmem with rfl | rfl
  · exact .inr ⟨v, hv, rfl⟩
  · exact .inl rfl

/-! ## Assembled images -/

/-- Memory is the program, with zeros elsewhere, and notes that give an address give that of their
word. -/
structure Assembly.HoldsProgram (a : Assembly) (l : Layout) : Prop where
  origins : a.image.textOrigin = l.textOrigin ∧ a.image.dataOrigin = l.dataOrigin
  length_text : a.image.text.length = l.segmentSize / 2
  length_data : a.image.data.length = l.segmentSize / 2
  vectors_fit : 4 * a.program.vectors.length ≤ a.place.vectableSize
  code_fits : a.place.vectableSize + 2 * a.words.length ≤ l.segmentSize
  address_lt : ∀ v ∈ a.program.vectors, v.address < 2 ^ 32
  text_words : a.image.text.map (·.word) =
    (a.program.vectors.flatMap (fun v => halves v.address) ++
      List.replicate (a.place.vectableSize / 2 - 2 * a.program.vectors.length) 0) ++ a.words ++
    List.replicate (l.segmentSize / 2 - (a.place.vectableSize / 2 + a.words.length)) 0
  data_words : a.image.data.map (·.word) =
    (List.range (l.segmentSize / 2)).map (wordAt (a.program.data.bytes.map (·.value)))
  code_at : ∀ i < a.words.length,
    (a.image.text[(a.place.codeAddress i - l.textOrigin) / 2]?).map (·.word) = a.words[i]?
  data_at : ∀ k b, a.program.data.bytes[k]? = some b →
    a.image.byte? (a.place.dataBase + k) = some b.value
  text_noted : MemoryWord.NotedFrom l.textOrigin (2 * a.program.vectors.length) a.image.text
  data_noted : MemoryWord.NotedFrom l.dataOrigin 0 a.image.data
  text_address : ∀ i w addr rest, a.image.text[i]? = some w → addr < 2 ^ 32 →
    w.note = some (Text.address addr ++ rest) → addr = l.textOrigin + 2 * i
  data_address : ∀ i w addr rest, a.image.data[i]? = some w → addr < 2 ^ 32 →
    w.note = some (Text.address addr ++ rest) → addr = l.dataOrigin + 2 * i

/-- Vectors, code and data stand at their addresses, all else is zero, and no note gives a wrong
address. -/
theorem assemble_holdsProgram {source : String} {l : Layout} {a : Assembly}
    (h : assemble source l = .ok a) : a.HoldsProgram l := by
  obtain ⟨hl, hp, hplace, hlink, himage⟩ := assemble_eq_ok.mp h
  have hwords := Program.length_link hlink
  have htext : a.image.text = Image.textWords a.program a.words a.place l := by rw [himage]; rfl
  have hdata : a.image.data = Image.dataWords a.program a.place l := by rw [himage]; rfl
  have hlengthText : a.image.text.length = l.segmentSize / 2 := by
    rw [htext, Image.length_textWords hplace hwords]
  have hlengthData : a.image.data.length = l.segmentSize / 2 := by
    rw [hdata, Image.length_dataWords hplace]
  have htextNoted : MemoryWord.NotedFrom l.textOrigin (2 * a.program.vectors.length)
      a.image.text := by
    rw [htext]
    exact Image.notedFrom_textWords hplace a.words
  have hdataNoted : MemoryWord.NotedFrom l.dataOrigin 0 a.image.data := by
    rw [hdata]
    exact Image.notedFrom_dataWords hplace
  obtain ⟨_, _, _, ⟨htextEnd, hdataEnd⟩, _⟩ := Layout.validate_eq_ok.mp hl
  rw [Layout.textEnd] at htextEnd
  rw [Layout.dataEnd] at hdataEnd
  refine {
    origins := by rw [himage]; exact ⟨rfl, rfl⟩
    length_text := hlengthText
    length_data := hlengthData
    vectors_fit := Image.length_vectors_le hplace
    code_fits := ?_
    address_lt := fun v hv => (Program.isName_of_mem_vectors hp hv).2
    text_words := by rw [htext, Image.map_word_textWords hplace hwords]
    data_words := by rw [hdata, Image.map_word_dataWords hplace]
    code_at := fun i hi => by rw [htext, Image.word_textWords hplace hwords hi]
    data_at := fun k b hb => by rw [himage, Image.byte?_data hl hplace hwords hb]
    text_noted := htextNoted
    data_noted := hdataNoted
    text_address := ?_
    data_address := ?_ }
  · obtain ⟨size, _, _, hcode, _, hplaced⟩ := Program.place_eq_ok.mp hplace
    simp only [hplaced]
    omega
  · intro i w addr rest hw haddr hnote
    have hi := (List.getElem?_eq_some_iff.mp hw).1
    by_cases hvector : i < 2 * a.program.vectors.length
    · rw [htext] at hw
      rcases Image.note_of_vector hw hvector with hnone | ⟨v, hv, hname⟩
      · rw [hnone] at hnote
        cases hnote
      · rw [hname, Option.some.injEq] at hnote
        exact absurd hnote ((Program.isName_of_mem_vectors hp hv).1.ne_address addr rest)
    · exact (htextNoted i w hw (Nat.le_of_not_lt hvector)).eq_of_note (by omega) haddr hnote
  · intro i w addr rest hw haddr hnote
    have hi := (List.getElem?_eq_some_iff.mp hw).1
    exact (hdataNoted i w hw (Nat.zero_le i)).eq_of_note (by omega) haddr hnote

/-- A table with room for one more vector, code above it, and three bytes of data below both. -/
theorem assemble_holdsProgram_gap :
    ∃ a, assemble ".vectable\nstart: 0x12345678\n.text\n go: bra go\n.data\n.byte 1, 2, 3\n"
        ⟨12, 32, 16, some 2⟩ = .ok a ∧ a.HoldsProgram ⟨12, 32, 16, some 2⟩ ∧
      a.image.text.map (·.word) = [0x1234, 0x5678, 0, 0, 0xA000, 0] ∧
      a.image.data.map (·.word) = [0x0102, 0x0300, 0, 0, 0, 0] ∧
      a.image.text.map (·.note) = [some "START", none, some "0x00000024 : 0x00",
        some "0x00000026 : 0x00", some "0x00000028 : go: bra go", some "0x0000002A : 0x00"] := by
  have hrun : (assemble
      ".vectable\nstart: 0x12345678\n.text\n go: bra go\n.data\n.byte 1, 2, 3\n"
        ⟨12, 32, 16, some 2⟩).toOption.map (fun a => (a.image.text.map (·.word),
          a.image.data.map (·.word), a.image.text.map (·.note))) =
      some ([0x1234, 0x5678, 0, 0, 0xA000, 0], [0x0102, 0x0300, 0, 0, 0, 0],
        [some "START", none, some "0x00000024 : 0x00", some "0x00000026 : 0x00",
          some "0x00000028 : go: bra go", some "0x0000002A : 0x00"]) := by
    decide +kernel
  obtain ⟨a, ha, hparts⟩ := Option.map_eq_some_iff.mp hrun
  have ha := toOption_eq_some.mp ha
  simp only [Prod.mk.injEq] at hparts
  exact ⟨a, ha, assemble_holdsProgram ha, hparts⟩

end SuperH
