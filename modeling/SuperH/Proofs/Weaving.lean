import SuperH.Proofs.Linking
import SuperH.Proofs.Placing
import SuperH.Proofs.Streams

/-!
# Sections in any order

Two sources with the same streams give programs that differ in their line numbers alone, and line
numbers leave no trace in the words, the addresses and the contents of memory. Labels need one
condition: which definition of a name counts depends on the order of the sections if both the code
and the data define it.
-/
namespace SuperH

namespace Program

/-- Programs that differ in nothing but the lines their parts stand on. -/
structure Alike (p q : Program) : Prop where
  code : p.code.map (·.inst) = q.code.map (·.inst)
  data : p.data.bytes.map (·.value) = q.data.bytes.map (·.value)
  vectors : p.vectors.map (·.address) = q.vectors.map (·.address)
  spots : ∀ name, (p.symbols.get? name).map Symbol.spot = (q.symbols.get? name).map Symbol.spot

variable {p q : Program}

private theorem Alike.map_address (h : Alike p q) (place : Placement) (name : String) :
    (p.symbols.get? name).map place.address = (q.symbols.get? name).map place.address := by
  have haddress : place.address = (fun spot => place.address ⟨spot.1, spot.2, 0⟩) ∘ Symbol.spot :=
    rfl
  rw [haddress, ← Option.map_map, ← Option.map_map, h.spots name]

theorem Alike.place (h : Alike p q) {l : Layout} {place : Placement}
    (hp : p.place l = .ok place) : q.place l = .ok place := by
  obtain ⟨size, hsize, hfit, hcode, hwords, rfl⟩ := place_eq_ok.mp hp
  have hlength : p.code.length = q.code.length := by simpa using congrArg List.length h.code
  have hbytes : p.data.offset = q.data.offset := by
    simpa [DataSection.offset] using congrArg List.length h.data
  have hcount : p.vectors.length = q.vectors.length := by
    simpa using congrArg List.length h.vectors
  rw [DataSection.length_words] at hwords
  refine place_eq_ok.mpr ⟨size, hcount ▸ hsize, hfit, hlength ▸ hcode, ?_, rfl⟩
  rw [DataSection.length_words, ← hbytes]
  exact hwords

private theorem linkWord_congr {s t : SymbolTable} {place : Placement}
    (h : ∀ name, (s.get? name).map place.address = (t.get? name).map place.address)
    (here : Nat) (inst : Instruction) :
    linkWord s place here inst = linkWord t place here inst := by
  unfold linkWord
  cases inst.target? with
  | none => rfl
  | some name =>
    have hname := h name
    cases hs : s.get? name with
    | none =>
      rw [hs, Option.map_none, eq_comm, Option.map_eq_none_iff] at hname
      simp only [SymbolTable.resolve, hs, hname]
    | some symbol =>
      rw [hs, Option.map_some, eq_comm, Option.map_eq_some_iff] at hname
      obtain ⟨symbol', ht, haddress⟩ := hname
      simp only [SymbolTable.resolve, hs, ht, bind, Except.bind, haddress]

theorem Alike.link (h : Alike p q) {place : Placement} {words : List Word}
    (hp : p.link place = .ok words) : q.link place = .ok words := by
  rw [link_eq_ok] at hp ⊢
  simpa only [h.code, linkWord_congr (h.map_address place)] using hp

end Program

/-! ## Contents of memory -/

theorem MemoryWord.map_word_fill (origin count : Nat) (words : List MemoryWord) :
    (fill origin count words).map (·.word) =
      words.map (·.word) ++ List.replicate (count - words.length) 0 := by
  rw [fill, List.map_append, List.map_map, List.append_cancel_left_eq, List.eq_replicate_iff]
  refine ⟨by simp, ?_⟩
  intro word hword
  obtain ⟨index, _, rfl⟩ := List.mem_map.mp hword
  rfl

private theorem MemoryWord.map_word_fill_congr {origin count : Nat} {words words' : List MemoryWord}
    (h : words.map (·.word) = words'.map (·.word)) :
    (fill origin count words).map (·.word) = (fill origin count words').map (·.word) := by
  have hlength : words.length = words'.length := by simpa using congrArg List.length h
  rw [map_word_fill, map_word_fill, h, hlength]

private theorem DataSection.map_fst_pairUp_congr {bytes bytes' : List SourceByte}
    (h : bytes.map (·.value) = bytes'.map (·.value)) :
    (pairUp bytes).map Prod.fst = (pairUp bytes').map Prod.fst := by
  induction bytes using pairUp.induct generalizing bytes' with
  | case1 =>
    rw [List.map_nil, eq_comm, List.map_eq_nil_iff] at h
    rw [h]
  | case2 high =>
    obtain ⟨high', rfl, hhigh⟩ := List.map_eq_singleton_iff.mp h.symm
    simp only [pairUp, List.map_cons, List.map_nil, hhigh]
  | case3 high low rest ih =>
    obtain ⟨high', tail', rfl, hhigh, htail⟩ := List.map_eq_cons_iff.mp h.symm
    obtain ⟨low', rest', rfl, hlow, hrest⟩ := List.map_eq_cons_iff.mp htail
    simp only [pairUp, List.map_cons, hhigh, hlow, ih hrest.symm]

private theorem map_word_zipIdx {α : Type} {f : α × Nat → MemoryWord} {g : α → Word}
    (h : ∀ a index, (f (a, index)).word = g a) (xs : List α) :
    (xs.zipIdx.map f).map (·.word) = xs.map g := by
  have hfst : (·.word) ∘ f = g ∘ Prod.fst := funext fun x => h x.1 x.2
  rw [List.map_map, hfst, ← List.map_map, List.zipIdx_map_fst]

theorem Program.Alike.textWords {p q : Program} (h : p.Alike q) (words : List Word)
    (place : Placement) (l : Layout) :
    (Image.textWords p words place l).map (·.word) =
      (Image.textWords q words place l).map (·.word) := by
  have hvectors (p : Program) : (p.vectors.flatMap MemoryWord.ofVector).map (·.word) =
      (p.vectors.map (·.address)).flatMap fun a => [BitVec.ofNat 16 (a / 2 ^ 16), .ofNat 16 a] := by
    rw [List.map_flatMap, List.flatMap_map]
    rfl
  have hcode (p : Program) : (p.code.zip words).map Prod.snd =
      ((p.code.map (·.inst)).zip words).map Prod.snd := by
    rw [List.zip_map_left, List.map_map]
    rfl
  refine MemoryWord.map_word_fill_congr ?_
  rw [List.map_append, List.map_append, map_word_zipIdx (g := Prod.snd) fun _ _ => rfl,
    map_word_zipIdx (g := Prod.snd) fun _ _ => rfl, hcode p, hcode q, h.code]
  congr 1
  exact MemoryWord.map_word_fill_congr (by rw [hvectors p, hvectors q, h.vectors])

theorem Program.Alike.dataWords {p q : Program} (h : p.Alike q) (place : Placement)
    (l : Layout) :
    (Image.dataWords p place l).map (·.word) = (Image.dataWords q place l).map (·.word) := by
  refine MemoryWord.map_word_fill_congr ?_
  rw [map_word_zipIdx fun _ _ => rfl, map_word_zipIdx fun _ _ => rfl]
  exact DataSection.map_fst_pairUp_congr h.data

/-! ## Programs from the same streams -/

/-- If no name is defined in both segments, the definitions of a name are those in the text or
those in the data, and the order of the two segments does not matter. -/
theorem filter_name_labelSpots {spots : List (String × Segment × Nat)}
    (h : ∀ x ∈ spots.filter (·.2.1 = .text), ∀ y ∈ spots.filter (·.2.1 = .data), x.1 ≠ y.1)
    (name : String) :
    spots.filter (·.1 = name) = (spots.filter (·.2.1 = .text)).filter (·.1 = name) ++
      (spots.filter (·.2.1 = .data)).filter (·.1 = name) := by
  -- One of the two lists on the right is empty, and the other one holds every definition.
  by_cases htext : ∃ x ∈ spots.filter (·.2.1 = .text), x.1 = name
  · obtain ⟨x, hx, hname⟩ := htext
    have hdata : (spots.filter (·.2.1 = .data)).filter (·.1 = name) = [] := by
      rw [List.filter_eq_nil_iff]
      intro y hy hy'
      exact h x hx y hy (hname.trans (of_decide_eq_true hy').symm)
    rw [hdata, List.append_nil, List.filter_filter]
    apply List.filter_congr
    intro y hy
    by_cases hy' : y.1 = name
    · have hsegment : y.2.1 = .text := by
        cases hsegment : y.2.1 with
        | text => rfl
        | data =>
          have hmem : y ∈ spots.filter (·.2.1 = .data) := by simp [hy, hsegment]
          exact absurd (hname.trans hy'.symm) (h x hx y hmem)
      simp [hy', hsegment]
    · simp [hy']
  · have hnil : (spots.filter (·.2.1 = .text)).filter (·.1 = name) = [] := by
      rw [List.filter_eq_nil_iff]
      intro x hx hx'
      exact htext ⟨x, hx, of_decide_eq_true hx'⟩
    rw [hnil, List.nil_append, List.filter_filter]
    apply List.filter_congr
    intro y hy
    by_cases hy' : y.1 = name
    · have hsegment : y.2.1 = .data := by
        cases hsegment : y.2.1 with
        | data => rfl
        | text => exact absurd ⟨y, by simp [hy, hsegment], hy'⟩ htext
      simp [hy', hsegment]
    · simp [hy']

private theorem map_spot_get?_stream {ss : List SourceStatement}
    (h : ∀ x ∈ labelSpots 0 0 (stream .text ss),
      ∀ y ∈ labelSpots 0 0 (stream .data ss), x.1 ≠ y.1) (lines : Array String) (name : String) :
    ((Program.ofStatements lines ss).symbols.get? name).map Symbol.spot =
      ((labelSpots 0 0 (stream .text ss)).filter (·.1 = Text.upcase name) ++
        (labelSpots 0 0 (stream .data ss)).filter (·.1 = Text.upcase name)).getLast?.map
          Prod.snd := by
  rw [← labelSpots_text 0 0 0, ← labelSpots_data 0 0 0] at h ⊢
  rw [map_spot_get?, filter_name_labelSpots h]

private theorem Program.alike_ofStatements {ss tt : List SourceStatement}
    (h : ∀ sec, stream sec ss = stream sec tt)
    (hdisjoint : ∀ x ∈ labelSpots 0 0 (stream .text ss),
      ∀ y ∈ labelSpots 0 0 (stream .data ss), x.1 ≠ y.1) (lines lines' : Array String) :
    (ofStatements lines ss).Alike (ofStatements lines' tt) where
  code := by
    simp only [ofStatements]
    rw [map_inst_stream ss, map_inst_stream tt, h]
  data := by
    simp only [ofStatements]
    rw [map_value_stream 0 ss, map_value_stream 0 tt, h]
  vectors := by
    simp only [ofStatements]
    rw [map_address_stream ss, map_address_stream tt, h]
  spots name := by
    -- The condition on the labels is one on the streams, so it passes to the other source.
    rw [map_spot_get?_stream hdisjoint]
    rw [h, h] at hdisjoint ⊢
    rw [map_spot_get?_stream hdisjoint]

theorem Program.exists_alike {source other : String}
    (h : ∀ sec, sectionCode sec source = sectionCode sec other)
    (hdisjoint : ∀ a ∈ definedLabels .text source, ∀ b ∈ definedLabels .data source,
      Text.upcase a ≠ Text.upcase b)
    {p : Program} (hp : Program.ofSource source = .ok p) :
    ∃ q, Program.ofSource other = .ok q ∧ p.Alike q := by
  obtain ⟨ss, hss, rfl⟩ := Program.ofSource_eq_ok.mp hp
  have hother : ∃ tt, readLines none (SourceLine.ofText other) = .ok tt := by
    rw [exists_readLines_eq_ok]
    intro sec
    rw [← h sec]
    exact exists_readLines_eq_ok.mp ⟨ss, hss⟩ sec
  obtain ⟨tt, htt⟩ := hother
  refine ⟨_, Program.ofSource_eq_ok.mpr ⟨tt, htt, rfl⟩, Program.alike_ofStatements ?_ ?_ _ _⟩
  · exact fun sec => stream_eq_of_sectionCode_eq hss htt (h sec)
  · intro x hx y hy
    obtain ⟨s, hs, a, ha, hxa⟩ := exists_label_of_mem_labelSpots hx
    obtain ⟨t, ht, b, hb, hyb⟩ := exists_label_of_mem_labelSpots hy
    rw [hxa, hyb]
    exact hdisjoint a (mem_definedLabels hss hs ha) b (mem_definedLabels hss ht hb)

/-- What two assemblies share when they differ in nothing but the lines of their sources. -/
structure Assembly.SameOutput (a b : Assembly) : Prop where
  words : a.words = b.words
  place : a.place = b.place
  text : a.image.text.map (·.word) = b.image.text.map (·.word)
  data : a.image.data.map (·.word) = b.image.data.map (·.word)
  addresses : ∀ name, (a.program.symbols.get? name).map a.place.address =
    (b.program.symbols.get? name).map b.place.address

theorem Program.Alike.assemble {source other : String} {l : Layout} {a : Assembly} {q : Program}
    (h : a.program.Alike q) (ha : SuperH.assemble source l = .ok a)
    (hq : Program.ofSource other = .ok q) :
    ∃ b, SuperH.assemble other l = .ok b ∧ a.SameOutput b := by
  obtain ⟨hl, _, hplace, hlink, himage⟩ := assemble_eq_ok.mp ha
  refine ⟨_, assemble_of_link hl hq (h.place hplace) (h.link hlink), rfl, rfl, ?_, ?_, ?_⟩
  · rw [himage]
    exact h.textWords a.words a.place l
  · rw [himage]
    exact h.dataWords a.place l
  · exact h.map_address a.place

/-- Only the order of the lines within each section matters: sources with the same code in every
section either both assemble or both fail, and they assemble to the same output. -/
theorem assemble_sections_commute (source other : String)
    (h : ∀ sec, sectionCode sec source = sectionCode sec other)
    (hdisjoint : ∀ a ∈ definedLabels .text source, ∀ b ∈ definedLabels .data source,
      Text.upcase a ≠ Text.upcase b) (l : Layout) :
    ((∃ a, assemble source l = .ok a) ↔ ∃ b, assemble other l = .ok b) ∧
      ∀ a b, assemble source l = .ok a → assemble other l = .ok b → a.SameOutput b := by
  have hdisjoint' : ∀ a ∈ definedLabels .text other, ∀ b ∈ definedLabels .data other,
      Text.upcase a ≠ Text.upcase b := by
    simpa only [definedLabels, h] using hdisjoint
  have hforward (a : Assembly) (ha : assemble source l = .ok a) :
      ∃ b, assemble other l = .ok b ∧ a.SameOutput b := by
    obtain ⟨q, hq, halike⟩ := Program.exists_alike h hdisjoint (assemble_eq_ok.mp ha).2.1
    exact halike.assemble ha hq
  refine ⟨⟨?_, ?_⟩, ?_⟩
  · rintro ⟨a, ha⟩
    obtain ⟨b, hb, _⟩ := hforward a ha
    exact ⟨b, hb⟩
  · rintro ⟨b, hb⟩
    obtain ⟨p, hp, halike⟩ :=
      Program.exists_alike (fun sec => (h sec).symm) hdisjoint' (assemble_eq_ok.mp hb).2.1
    obtain ⟨a, ha, _⟩ := halike.assemble hb hp
    exact ⟨a, ha⟩
  · intro a b ha hb
    obtain ⟨b', hb', hsame⟩ := hforward a ha
    rw [hb, Except.ok.injEq] at hb'
    rwa [hb']

/-- A source in three blocks, and its statements woven together with the vector first. -/
theorem assemble_sections_commute_woven :
    ∃ a b, assemble ".text\nBRA Far\nNOP\n.data\nA: .byte 1\nFar: .word 7\n.vectable\nV: 4\n"
        { segmentSize := 64, dataOrigin := 64 } = .ok a ∧
      assemble ("x\n.vectable\nV: 4\n.data\nA: .byte 1\n.TEXT\n\tBRA Far ;x\n" ++
          ".data\nFar: .word 7\n.text\nNOP\n")
        { segmentSize := 64, dataOrigin := 64 } = .ok b ∧
      a.words = [0xA01F, 0x0009] ∧ a.SameOutput b := by
  have hcommute := assemble_sections_commute
    ".text\nBRA Far\nNOP\n.data\nA: .byte 1\nFar: .word 7\n.vectable\nV: 4\n"
    ("x\n.vectable\nV: 4\n.data\nA: .byte 1\n.TEXT\n\tBRA Far ;x\n" ++
      ".data\nFar: .word 7\n.text\nNOP\n")
    (fun sec => by cases sec <;> decide +kernel) (by decide +kernel)
    { segmentSize := 64, dataOrigin := 64 }
  have hrun : (assemble ".text\nBRA Far\nNOP\n.data\nA: .byte 1\nFar: .word 7\n.vectable\nV: 4\n"
      { segmentSize := 64, dataOrigin := 64 }).toOption.map (·.words) =
        some [0xA01F, 0x0009] := by
    decide +kernel
  obtain ⟨a, ha, hwords⟩ := Option.map_eq_some_iff.mp hrun
  have ha := toOption_eq_some.mp ha
  obtain ⟨b, hb⟩ := hcommute.1.mp ⟨a, ha⟩
  exact ⟨a, b, ha, hb, hwords, hcommute.2 a b ha hb⟩

end SuperH
