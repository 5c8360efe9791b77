import SuperH.Comparison
import SuperH.Proofs.Contents
import SuperH.Proofs.Lexing

/-!
# Dumps read back

A segment is written as a line of sixteen binary digits for each word, with the note as a comment.
Whatever the notes say, as long as each is a single line, the dump is read back as the bytes of the
words. For an assembled image, these are the bytes of the segment as they stand in memory.
-/
namespace SuperH

/-! ## Lines of a dump -/

/-- Nothing of a line counts from a comment on, if no quote is open before it. -/
theorem beforeComment_append {s : List Char} (h : ∀ c ∈ s, c ≠ ';' ∧ c ≠ '"') (before : Char)
    (rest : List Char) : beforeComment false before (s ++ ';' :: rest) = s := by
  rw [beforeComment_of_no_marks h, beforeComment, if_pos (by simp), List.append_nil]

namespace MemoryWord

/-- The note of a word does not end its line. -/
def OneLine (w : MemoryWord) : Prop :=
  ∀ note, w.note = some note → '\n' ∉ note.toList

def digits (w : MemoryWord) : List Char :=
  Text.fixedDigits 2 16 w.word.toNat

private theorem of_mem_digits {p : Char → Bool} (h : "0123456789ABCDEF".toList.all p = true)
    {w : MemoryWord} {c : Char} (hc : c ∈ w.digits) : p c = true :=
  Text.of_mem_fixedDigits h (by decide) (by decide) hc

def comment (w : MemoryWord) : List Char :=
  match w.note with
  | some note => '\t' :: ';' :: ' ' :: note.toList
  | none => []

private theorem toList_text (w : MemoryWord) : w.text.toList = w.digits ++ w.comment := by
  unfold text comment
  cases w.note <;> simp [Text.fixedBinary, digits]

theorem OneLine.newline_not_mem {w : MemoryWord} (h : w.OneLine) : '\n' ∉ w.text.toList := by
  rw [toList_text, List.mem_append, not_or]
  constructor
  · intro hmem
    exact absurd (of_mem_digits (p := (· != '\n')) (by decide) hmem) (by decide)
  · unfold comment
    cases hnote : w.note with
    | none => simp
    | some note => simpa using h note hnote

private theorem digits_ne_nil (w : MemoryWord) : w.digits ≠ [] := by
  rw [← List.length_pos_iff, digits, Text.length_fixedDigits]
  decide

/-- The code of a word's line is its digits, whether or not the line loses a carriage return that
its note ends in. -/
theorem lineCode_text (w : MemoryWord) :
    lineCode (String.ofList (Text.withoutReturn w.text.toList)) = String.ofList w.digits := by
  have hsolid : ∀ c ∈ w.digits, Text.isBlank c = false := by
    intro c hc
    simpa using of_mem_digits (p := (!Text.isBlank ·)) (by decide) hc
  have htrimmed := Text.trimmed_of_solid hsolid
  have hplain : Text.Plain w.digits := by
    intro c hc
    simpa [and_assoc] using of_mem_digits (p := fun c => c != ';' && c != '\n' && c != '\r')
      (by decide) hc
  have hopen : ∀ c ∈ w.digits ++ ['\t'], c ≠ ';' ∧ c ≠ '"' := by
    intro c hc
    rcases List.mem_append.mp hc with hc | hc
    · simpa using of_mem_digits (p := fun c => c != ';' && c != '"') (by decide) hc
    · rw [List.mem_singleton.mp hc]
      decide
  rw [toList_text, comment, lineCode, String.toList_ofList]
  cases w.note with
  | none =>
    dsimp only
    rw [List.append_nil, hplain.withoutReturn_eq, beforeComment_eq_self hplain,
      htrimmed.trim_eq_self]
  | some note =>
    have hline : w.digits ++ '\t' :: ';' :: ' ' :: note.toList =
        (w.digits ++ ['\t', ';']) ++ ' ' :: note.toList := by simp
    have hcut (rest : List Char) :
        (w.digits ++ ['\t', ';']) ++ rest = (w.digits ++ ['\t']) ++ ';' :: rest := by simp
    dsimp only
    rw [hline, Text.withoutReturn_append _ (List.cons_ne_nil ' ' note.toList), hcut,
      beforeComment_append hopen,
      htrimmed.trim_append w.digits_ne_nil (List.forall_mem_singleton.mpr (by decide))]

end MemoryWord

theorem utf8ByteSize_of_ascii {s : List Char} (h : ∀ c ∈ s, c.utf8Size = 1) :
    (String.ofList s).utf8ByteSize = s.length := by
  induction s with
  | nil => rfl
  | cons c s ih =>
    obtain ⟨hc, hs⟩ := List.forall_mem_cons.mp h
    rw [String.ofList_cons, String.utf8ByteSize_append, String.utf8ByteSize_singleton, ih hs, hc,
      List.length_cons, Nat.add_comm]

private theorem MemoryWord.lineBytes_digits (w : MemoryWord) :
    Dump.lineBytes (String.ofList w.digits) = .ok w.bytes := by
  have hsize : (String.ofList w.digits).utf8ByteSize = 16 := by
    rw [utf8ByteSize_of_ascii, digits, Text.length_fixedDigits]
    intro c hc
    simpa using of_mem_digits (p := (·.utf8Size == 1)) (by decide) hc
  have hhead : w.digits.head? ≠ some '+' := by
    intro hplus
    exact absurd (of_mem_digits (p := (· != '+')) (by decide) (List.mem_of_head? hplus)) (by decide)
  have hvalue : Text.unsigned? 2 (Nat.pow 2 16) w.digits = some w.word.toNat := by
    have hlt : w.word.toNat < 2 ^ 16 := w.word.isLt
    rw [Text.unsigned?_of_head hhead, digits,
      Text.natural?_fixedDigits (by decide) (by decide) (by decide), Nat.mod_eq_of_lt hlt]
    simpa using hlt
  have hhigh : UInt8.ofNat (w.word.toNat / 256) = ⟨w.word.extractLsb' 8 8⟩ := by
    apply UInt8.toNat_inj.mp
    simp [Nat.shiftRight_eq_div_pow]
  have hlow : UInt8.ofNat w.word.toNat = ⟨w.word.extractLsb' 0 8⟩ := by
    apply UInt8.toNat_inj.mp
    simp
  simp only [Dump.lineBytes, String.toList_ofList, hvalue, hsize, if_true, hhigh, hlow, bytes]

/-! ## Whole dumps -/

theorem SourceLine.mapM_numbered {α β : Type} {raw : α → String} {f : String → Except Error β}
    {g : α → β} {xs : List α}
    (h : ∀ x ∈ xs, lineCode (raw x) ≠ "" ∧ f (lineCode (raw x)) = .ok (g x)) (number : Nat) :
    (numbered number (xs.map raw)).mapM (fun l => l.diagnose (f l.code)) = .ok (xs.map g) := by
  induction xs generalizing number with
  | nil => rfl
  | cons x xs ih =>
    obtain ⟨⟨hcode, hread⟩, hxs⟩ := List.forall_mem_cons.mp h
    simp only [List.map_cons, numbered, hcode, if_false, List.mapM_cons, diagnose, hread]
    have hrest := ih hxs (number + 1)
    simp only [diagnose] at hrest
    rw [hrest]
    rfl

theorem MemoryWord.parse_render {words : List MemoryWord} (h : ∀ w ∈ words, w.OneLine) :
    Dump.parse (render words) = .ok (words.flatMap MemoryWord.bytes) := by
  have hrender : render words = String.join ((words.map MemoryWord.text).map (· ++ "\n")) := by
    rw [render, List.map_map]
    rfl
  have hlines : textLines (render words) =
      words.map fun w => String.ofList (Text.withoutReturn w.text.toList) := by
    rw [hrender, textLines_join, List.map_map]
    · rfl
    · intro l hl
      obtain ⟨w, hw, rfl⟩ := List.mem_map.mp hl
      exact (h w hw).newline_not_mem
  have hcode : ∀ w ∈ words,
      lineCode (String.ofList (Text.withoutReturn w.text.toList)) ≠ "" ∧
        Dump.lineBytes (lineCode (String.ofList (Text.withoutReturn w.text.toList))) =
          .ok w.bytes := by
    intro w _
    rw [w.lineCode_text]
    exact ⟨by simp [w.digits_ne_nil], w.lineBytes_digits⟩
  rw [Dump.parse, SourceLine.ofText, hlines, SourceLine.mapM_numbered hcode, List.flatMap_def]
  rfl

/-! ## Notes of an image -/

theorem newline_not_mem_of_mem_textLines {source raw : String} (h : raw ∈ textLines source) :
    '\n' ∉ raw.toList := by
  obtain ⟨cs, hcs, rfl⟩ := List.mem_map.mp h
  rw [String.toList_ofList]
  exact (Text.of_mem_lines hcs).2

private theorem Program.newline_not_mem_raw {source : String} {p : Program}
    (hp : Program.ofSource source = .ok p) (n : Nat) : '\n' ∉ (p.raw n).toList := by
  obtain ⟨ss, _, rfl⟩ := Program.ofSource_eq_ok.mp hp
  rw [raw, ofStatements]
  cases n with
  | zero => simp [lineText]
  | succ m =>
    by_cases hm : m < (textLines source).length
    · simpa [lineText, hm] using newline_not_mem_of_mem_textLines (List.getElem_mem hm)
    · simp [lineText, hm]

theorem IsName.newline_not_mem {name : String} (h : IsName name) : '\n' ∉ name.toList := by
  intro hmem
  exact absurd (continuesIdentifier_of_mem h.identifier hmem) (by decide)

theorem newline_not_mem_fixedHex (width n : Nat) : '\n' ∉ (Text.fixedHex width n).toList := by
  rw [Text.fixedHex, String.toList_ofList]
  intro hmem
  exact absurd (Text.of_mem_fixedDigits (p := (· != '\n')) (by decide) (by decide) (by decide)
    hmem) (by decide)

theorem newline_not_mem_toDigits (radix n : Nat) (hone : 1 < radix) (hradix : radix ≤ 16) :
    '\n' ∉ Nat.toDigits radix n := by
  intro hmem
  exact absurd (Text.of_mem_toDigits (p := (· != '\n')) (by decide) hone hradix hmem) (by decide)

namespace MemoryWord

theorem newline_not_mem_address (addr : Nat) : '\n' ∉ (Text.address addr).toList := by
  simpa [Text.address] using newline_not_mem_fixedHex 8 addr

private theorem oneLine_unused (addr : Nat) : (unused addr).OneLine := by
  rintro _ ⟨rfl⟩
  simp [newline_not_mem_address]

private theorem oneLine_ofCode (addr : Nat) (word : Word) {raw : String} (h : '\n' ∉ raw.toList) :
    (ofCode addr word raw).OneLine := by
  have hstart : '\n' ∉ Text.trimStart raw.toList := fun hmem =>
    h ((List.dropWhile_sublist Text.isBlank).mem hmem)
  rintro _ ⟨rfl⟩
  simp [newline_not_mem_address, hstart]

private theorem oneLine_ofData (addr : Nat) (word : Word) : (ofData addr word).OneLine := by
  have htext (s : String) : toString s = s := rfl
  rintro _ ⟨rfl⟩
  simp [newline_not_mem_address, htext, Text.hexLower, newline_not_mem_toDigits]

private theorem oneLine_fill {words : List MemoryWord} (h : ∀ w ∈ words, w.OneLine)
    (origin count : Nat) : ∀ w ∈ fill origin count words, w.OneLine := by
  intro w hw
  rcases List.mem_append.mp hw with hw | hw
  · exact h w hw
  · obtain ⟨index, _, rfl⟩ := List.mem_map.mp hw
    exact oneLine_unused _

end MemoryWord

private theorem Image.oneLine_textWords {source : String} {p : Program}
    (hp : Program.ofSource source = .ok p) (words : List Word) (place : Placement) (l : Layout) :
    ∀ w ∈ textWords p words place l, w.OneLine := by
  have hvectors : ∀ w ∈ vectorWords p place, w.OneLine := by
    apply MemoryWord.oneLine_fill
    intro w hw
    obtain ⟨v, hv, hmem⟩ := List.mem_flatMap.mp hw
    simp only [MemoryWord.ofVector, List.mem_cons, List.not_mem_nil, or_false] at hmem
    rcases hmem with rfl | rfl
    · rintro _ ⟨rfl⟩
      exact (Program.isName_of_mem_vectors hp hv).1.newline_not_mem
    · rintro _ ⟨⟩
  rw [textWords_eq]
  apply MemoryWord.oneLine_fill
  intro w hw
  rcases List.mem_append.mp hw with hw | hw
  · exact hvectors w hw
  · obtain ⟨x, _, rfl⟩ := List.mem_map.mp hw
    exact MemoryWord.oneLine_ofCode _ _ (Program.newline_not_mem_raw hp _)

theorem Image.oneLine_dataWords (p : Program) (place : Placement) (l : Layout) :
    ∀ w ∈ dataWords p place l, w.OneLine := by
  rw [dataWords_eq]
  apply MemoryWord.oneLine_fill
  intro w hw
  obtain ⟨x, _, rfl⟩ := List.mem_map.mp hw
  exact MemoryWord.oneLine_ofData _ _

/-! ## Segments in memory -/

namespace Image

private theorem joinSegments_ranges {low high : Nat} {xs : List UInt8} (h : low + xs.length ≤ high)
    (ys : List UInt8) :
    (joinSegments (low, xs) (high, ys)).take xs.length = xs ∧
      (joinSegments (low, xs) (high, ys)).drop (high - low) = ys := by
  have hoffset : high - low =
      (xs ++ List.replicate (high - (low + xs.length)) (0 : UInt8)).length := by
    rw [List.length_append, List.length_replicate]
    omega
  constructor
  · rw [joinSegments, List.append_assoc, List.take_left]
  · rw [joinSegments, hoffset, List.drop_left]

/-- The bytes from `addr` on, out of memory that starts at the lower origin. -/
def memoryRange (image : Image) (addr size : Nat) : List UInt8 :=
  (image.toBytes.drop (addr - min image.textOrigin image.dataOrigin)).take size

theorem memoryRange_segments {image : Image} (h : Trapping.Apart image) :
    image.memoryRange image.textOrigin (2 * image.text.length) =
        image.text.flatMap MemoryWord.bytes ∧
      image.memoryRange image.dataOrigin (2 * image.data.length) =
        image.data.flatMap MemoryWord.bytes := by
  have htextLength := MemoryWord.length_flatMap_bytes image.text
  have hdataLength := MemoryWord.length_flatMap_bytes image.data
  have happart := h.apart
  have hpos := h.data_pos
  unfold memoryRange toBytes
  rw [← htextLength, ← hdataLength]
  by_cases horder : image.textOrigin ≤ image.dataOrigin
  · have hlower : image.textOrigin + (image.text.flatMap MemoryWord.bytes).length ≤
        image.dataOrigin := by omega
    obtain ⟨htext, hdata⟩ := joinSegments_ranges hlower (image.data.flatMap MemoryWord.bytes)
    rw [if_pos horder, Nat.min_eq_left horder, Nat.sub_self, List.drop_zero, htext, hdata,
      List.take_length]
    exact ⟨rfl, rfl⟩
  · have hlower : image.dataOrigin + (image.data.flatMap MemoryWord.bytes).length ≤
        image.textOrigin := by omega
    obtain ⟨hdata, htext⟩ := joinSegments_ranges hlower (image.text.flatMap MemoryWord.bytes)
    rw [if_neg horder, Nat.min_eq_right (by omega), Nat.sub_self, List.drop_zero, htext, hdata,
      List.take_length]
    exact ⟨rfl, rfl⟩

end Image

/-- Words are read back as their bytes, whatever their notes say on one line. So the segments of an
assembled image, dumped and read back, have their full size and are the parts of memory from their
origins on. -/
theorem Dump.parse_undoes_render :
    (∀ words : List MemoryWord, (∀ w ∈ words, w.OneLine) →
      Dump.parse (MemoryWord.render words) = .ok (words.flatMap MemoryWord.bytes)) ∧
    ∀ source l a, assemble source l = .ok a → ∃ text data,
      Dump.parse (MemoryWord.render a.image.text) = .ok text ∧
      Dump.parse (MemoryWord.render a.image.data) = .ok data ∧
      text.length = l.segmentSize ∧ data.length = l.segmentSize ∧
      text = a.image.memoryRange l.textOrigin l.segmentSize ∧
      data = a.image.memoryRange l.dataOrigin l.segmentSize := by
  refine ⟨fun words hwords => MemoryWord.parse_render hwords, ?_⟩
  intro source l a h
  obtain ⟨hl, hp, hplace, hlink, himage⟩ := assemble_eq_ok.mp h
  have hwords := Program.length_link hlink
  obtain ⟨⟨_, heven⟩, _⟩ := Layout.validate_eq_ok.mp hl
  have hsize : 2 * (l.segmentSize / 2) = l.segmentSize := by omega
  have htextLength : a.image.text.length = l.segmentSize / 2 := by
    rw [himage]
    exact Image.length_textWords hplace hwords
  have hdataLength : a.image.data.length = l.segmentSize / 2 := by
    rw [himage]
    exact Image.length_dataWords hplace
  obtain ⟨htext, hdata⟩ := Image.memoryRange_segments (himage ▸ Image.apart_build hl hplace hwords)
  have horigins : a.image.textOrigin = l.textOrigin ∧ a.image.dataOrigin = l.dataOrigin := by
    rw [himage]
    exact ⟨rfl, rfl⟩
  rw [horigins.1, htextLength, hsize] at htext
  rw [horigins.2, hdataLength, hsize] at hdata
  refine ⟨_, _, MemoryWord.parse_render ?_, MemoryWord.parse_render ?_, ?_, ?_, htext.symm,
    hdata.symm⟩
  · rw [himage]
    exact Image.oneLine_textWords hp a.words a.place l
  · rw [himage]
    exact Image.oneLine_dataWords a.program a.place l
  · rw [MemoryWord.length_flatMap_bytes, htextLength, hsize]
  · rw [MemoryWord.length_flatMap_bytes, hdataLength, hsize]

/-- A note that looks like code with a quote left open, and a line of source that ends in one. -/
theorem Dump.parse_undoes_render_quotes :
    (∀ w ∈ [MemoryWord.mk 0x8001 (some "\"; 1010\\\r"), ⟨0x00FF, none⟩], w.OneLine) ∧
    Dump.parse (MemoryWord.render [⟨0x8001, some "\"; 1010\\\r"⟩, ⟨0x00FF, none⟩]) =
      .ok [0x80, 0x01, 0x00, 0xFF] ∧
    ∃ a, assemble ".text\nnop ; \"1010\\\r\r\n.data\n.byte 1, -2, 3" ⟨4, 10, 0, none⟩ = .ok a ∧
      Dump.parse (MemoryWord.render a.image.text) = .ok [0x00, 0x09, 0x00, 0x00] ∧
      Dump.parse (MemoryWord.render a.image.data) = .ok [0x01, 0xFE, 0x03, 0x00] := by
  have hnotes : ∀ w ∈ [MemoryWord.mk 0x8001 (some "\"; 1010\\\r"), ⟨0x00FF, none⟩],
      w.OneLine := by
    intro w hw note hnote
    simp only [List.mem_cons, List.not_mem_nil, or_false] at hw
    rcases hw with rfl | rfl
    · cases hnote
      decide
    · cases hnote
  have hrun : (assemble ".text\nnop ; \"1010\\\r\r\n.data\n.byte 1, -2, 3"
      ⟨4, 10, 0, none⟩).toOption.map
        (fun a => (a.image.memoryRange 10 4, a.image.memoryRange 0 4)) =
      some ([0x00, 0x09, 0x00, 0x00], [0x01, 0xFE, 0x03, 0x00]) := by
    decide +kernel
  obtain ⟨a, ha, hranges⟩ := Option.map_eq_some_iff.mp hrun
  have ha := toOption_eq_some.mp ha
  simp only [Prod.mk.injEq] at hranges
  obtain ⟨text, data, htext, hdata, _, _, rfl, rfl⟩ := Dump.parse_undoes_render.2 _ _ a ha
  exact ⟨hnotes, Dump.parse_undoes_render.1 _ hnotes, a, ha, hranges.1 ▸ htext, hranges.2 ▸ hdata⟩

end SuperH
