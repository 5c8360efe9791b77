import SuperH.Proofs.Trapping

/-!
# Room for a program

A program has a place exactly if its vectors fit their table and its code and data fit their
segments. If not, the line of the first item that ends beyond its segment is reported: a vector
before an instruction, and an instruction before a word of data.
-/
namespace SuperH

/-- Of items that follow each other from `start` on, the one of index `i` is the first that ends
beyond `capacity`. -/
def IsFirstBeyond (start width capacity i : Nat) : Prop :=
  capacity < start + width * (i + 1) ∧ ∀ j < i, start + width * (j + 1) ≤ capacity

theorem isFirstBeyond_iff {start width capacity i : Nat} (hwidth : 0 < width)
    (hstart : start ≤ capacity) :
    IsFirstBeyond start width capacity i ↔ i = (capacity - start) / width := by
  constructor
  · intro ⟨hbeyond, hbefore⟩
    have hupper : capacity - start < width * (i + 1) := by omega
    have hlower : width * i ≤ capacity - start := by
      cases i with
      | zero => simp
      | succ j =>
        have hfits := hbefore j (Nat.lt_succ_self j)
        omega
    rw [Nat.mul_comm] at hlower hupper
    exact (Nat.div_eq_of_lt_le hlower hupper).symm
  · intro hi
    subst hi
    have hupper := Nat.lt_mul_div_succ (capacity - start) hwidth
    refine ⟨by omega, ?_⟩
    intro j hj
    have hmono : width * (j + 1) ≤ width * ((capacity - start) / width) :=
      Nat.mul_le_mul_left width hj
    have hlower := Nat.mul_div_le (capacity - start) width
    omega

/-- Bytes of the vector table: fixed by the layout, or as many as the vectors need. -/
def Layout.tableSize (l : Layout) (vectors : Nat) : Nat :=
  4 * l.vectableEntries.getD vectors

def Layout.TakesVectors (l : Layout) (vectors : Nat) : Prop :=
  ∀ n, l.vectableEntries = some n → vectors ≤ n

private theorem Layout.vectableSize_of_takes {l : Layout} {found : Nat} (h : l.TakesVectors found) :
    l.vectableSize found = .ok (l.tableSize found) := by
  unfold vectableSize tableSize
  cases hn : l.vectableEntries with
  | none => rfl
  | some n => simp [Nat.not_lt.mpr (h n hn)]

private theorem Layout.vectableSize_of_lt {l : Layout} {n found : Nat}
    (hn : l.vectableEntries = some n) (h : n < found) :
    l.vectableSize found = .error (.segmentOverflow .vectable (4 * found) (4 * n)) := by
  simp [vectableSize, hn, h]

private theorem Layout.tableSize_of_large {l : Layout} (hl : l.validate = .ok ()) {found : Nat}
    (h : l.segmentSize < l.tableSize found) : l.tableSize found = 4 * found := by
  obtain ⟨_, _, hentries, _⟩ := validate_eq_ok.mp hl
  unfold tableSize at h ⊢
  cases hn : l.vectableEntries with
  | none => rfl
  | some n =>
    have hfits := hentries n hn
    rw [hn, Option.getD_some] at h
    omega

private theorem DataSection.map_snd_words (s : DataSection) (k : Nat) :
    (s.words[k]?).map Prod.snd = (s.bytes[2 * k]?).map (·.line) := by
  have hpairs (bytes : List SourceByte) (k : Nat) :
      ((pairUp bytes)[k]?).map Prod.snd = (bytes[2 * k]?).map (·.line) := by
    induction bytes using pairUp.induct generalizing k with
    | case1 => simp [pairUp]
    | case2 high =>
      cases k with
      | zero => simp [pairUp]
      | succ k => simp [pairUp, Nat.mul_succ]
    | case3 high low rest ih =>
      cases k with
      | zero => simp [pairUp]
      | succ k => simp [pairUp, Nat.mul_succ, ih]
  exact hpairs s.bytes k

namespace Program

def HasRoom (p : Program) (l : Layout) : Prop :=
  l.TakesVectors p.vectors.length ∧
  l.tableSize p.vectors.length + 2 * p.code.length ≤ l.segmentSize ∧
  p.data.bytes.length ≤ l.segmentSize

/-- The line of the first item for which there is no room, and the error that says so. -/
inductive Overflows (p : Program) (l : Layout) : Nat → Error → Prop where
  /-- The first vector beyond a table of fixed size. -/
  | table {n : Nat} {v : VectorLine} (fixed : l.vectableEntries = some n)
      (item : p.vectors[n]? = some v) :
      Overflows p l v.line (.segmentOverflow .vectable (4 * p.vectors.length) (4 * n))
  | vector {i : Nat} {v : VectorLine} (takes : l.TakesVectors p.vectors.length)
      (first : IsFirstBeyond 0 4 l.segmentSize i) (item : p.vectors[i]? = some v) :
      Overflows p l v.line
        (.segmentOverflow .text (l.tableSize p.vectors.length) l.segmentSize)
  | code {i : Nat} {c : CodeLine} (takes : l.TakesVectors p.vectors.length)
      (fits : l.tableSize p.vectors.length ≤ l.segmentSize)
      (first : IsFirstBeyond (l.tableSize p.vectors.length) 2 l.segmentSize i)
      (item : p.code[i]? = some c) :
      Overflows p l c.line (.segmentOverflow .text
        (l.tableSize p.vectors.length + 2 * p.code.length) l.segmentSize)
  /-- A word of data, by its high byte. -/
  | data {k : Nat} {b : SourceByte} (takes : l.TakesVectors p.vectors.length)
      (fits : l.tableSize p.vectors.length + 2 * p.code.length ≤ l.segmentSize)
      (first : IsFirstBeyond 0 2 l.segmentSize k) (item : p.data.bytes[2 * k]? = some b) :
      Overflows p l b.line
        (.segmentOverflow .data (2 * ((p.data.bytes.length + 1) / 2)) l.segmentSize)

variable {p : Program} {l : Layout}

theorem place_eq_ok_iff (hl : l.validate = .ok ()) {place : Placement} :
    p.place l = .ok place ↔ p.HasRoom l ∧
      place = ⟨l.textOrigin, l.tableSize p.vectors.length,
        l.textOrigin + l.tableSize p.vectors.length, l.dataOrigin⟩ := by
  obtain ⟨⟨_, heven⟩, _⟩ := Layout.validate_eq_ok.mp hl
  rw [place_eq_ok, DataSection.length_words, DataSection.offset]
  by_cases htakes : l.TakesVectors p.vectors.length
  · simp only [Layout.vectableSize_of_takes htakes, HasRoom, htakes, true_and, Except.ok.injEq,
      exists_eq_left']
    constructor
    · rintro ⟨hsize, hcode, hdata, hplace⟩
      exact ⟨⟨by omega, by omega⟩, hplace⟩
    · rintro ⟨⟨htext, hdata⟩, hplace⟩
      exact ⟨by omega, by omega, by omega, hplace⟩
  · simp only [HasRoom, htakes, false_and, iff_false]
    rintro ⟨size, hsize, _⟩
    apply htakes
    intro n hn
    rcases Layout.vectableSize_eq_ok.mp hsize with ⟨m, hm, hle, _⟩ | ⟨hnone, _⟩
    · rw [hn, Option.some.injEq] at hm
      omega
    · rw [hn] at hnone
      cases hnone

/-! ## Each item in its turn -/

theorem vectorLine_of_getElem? {i : Nat} {v : VectorLine} (h : p.vectors[i]? = some v) :
    p.vectorLine i = v.line := by
  rw [vectorLine, h]

theorem place_of_table {n : Nat} {v : VectorLine} (hn : l.vectableEntries = some n)
    (hv : p.vectors[n]? = some v) :
    p.place l = .error (p.diagnose v.line
      (.segmentOverflow .vectable (4 * p.vectors.length) (4 * n))) := by
  obtain ⟨hlt, _⟩ := List.getElem?_eq_some_iff.mp hv
  rw [place_eq, Layout.vectableSize_of_lt hn hlt, hn, Option.getD_some, vectorLine_of_getElem? hv]

theorem place_of_vector {v : VectorLine} (hl : l.validate = .ok ())
    (htakes : l.TakesVectors p.vectors.length) (hv : p.vectors[l.segmentSize / 4]? = some v) :
    p.place l = .error (p.diagnose v.line
      (.segmentOverflow .text (l.tableSize p.vectors.length) l.segmentSize)) := by
  obtain ⟨_, _, hentries, _⟩ := Layout.validate_eq_ok.mp hl
  obtain ⟨hlt, _⟩ := List.getElem?_eq_some_iff.mp hv
  have hlarge : l.segmentSize < l.tableSize p.vectors.length := by
    unfold Layout.tableSize
    cases hn : l.vectableEntries with
    | none =>
      rw [Option.getD_none]
      omega
    | some n =>
      -- A fixed table lies in the segment, and so would the vectors that it takes.
      have hle := htakes n hn
      have hfits := hentries n hn
      omega
  rw [place_eq, Layout.vectableSize_of_takes htakes]
  simp only [hlarge, if_true, vectorLine_of_getElem? hv]

theorem place_of_code {c : CodeLine} (htakes : l.TakesVectors p.vectors.length)
    (hfits : l.tableSize p.vectors.length ≤ l.segmentSize)
    (hc : p.code[(l.segmentSize - l.tableSize p.vectors.length) / 2]? = some c) :
    p.place l = .error (p.diagnose c.line (.segmentOverflow .text
      (l.tableSize p.vectors.length + 2 * p.code.length) l.segmentSize)) := by
  rw [place_eq, Layout.vectableSize_of_takes htakes]
  simp only [Nat.not_lt.mpr hfits, if_false, hc]

theorem place_of_data {b : SourceByte} (htakes : l.TakesVectors p.vectors.length)
    (hfits : l.tableSize p.vectors.length + 2 * p.code.length ≤ l.segmentSize)
    (hb : p.data.bytes[2 * (l.segmentSize / 2)]? = some b) :
    p.place l = .error (p.diagnose b.line
      (.segmentOverflow .data (2 * ((p.data.bytes.length + 1) / 2)) l.segmentSize)) := by
  have htable : ¬ l.segmentSize < l.tableSize p.vectors.length := by omega
  have hcode : p.code[(l.segmentSize - l.tableSize p.vectors.length) / 2]? = none :=
    List.getElem?_eq_none (by omega)
  have hline := p.data.map_snd_words (l.segmentSize / 2)
  rw [hb, Option.map_some, Option.map_eq_some_iff] at hline
  obtain ⟨⟨word, line⟩, hword, rfl⟩ := hline
  rw [place_eq, Layout.vectableSize_of_takes htakes]
  simp only [htable, if_false, hcode, hword, DataSection.length_words, DataSection.offset]

private theorem place_of_overflows (hl : l.validate = .ok ()) {line : Nat} {e : Error}
    (h : p.Overflows l line e) : p.place l = .error (p.diagnose line e) := by
  cases h with
  | table hn hv => exact place_of_table hn hv
  | vector htakes hfirst hv =>
    rw [isFirstBeyond_iff (by decide) (Nat.zero_le _)] at hfirst
    exact place_of_vector hl htakes (hfirst ▸ hv)
  | code htakes hfits hfirst hc =>
    rw [isFirstBeyond_iff (by decide) hfits] at hfirst
    exact place_of_code htakes hfits (hfirst ▸ hc)
  | data htakes hfits hfirst hb =>
    rw [isFirstBeyond_iff (by decide) (Nat.zero_le _)] at hfirst
    exact place_of_data htakes hfits (hfirst ▸ hb)

theorem exists_overflows (hl : l.validate = .ok ()) (h : ¬ p.HasRoom l) :
    ∃ line e, p.Overflows l line e := by
  obtain ⟨⟨_, heven⟩, _⟩ := Layout.validate_eq_ok.mp hl
  by_cases htakes : l.TakesVectors p.vectors.length
  · by_cases hsize : l.tableSize p.vectors.length ≤ l.segmentSize
    · by_cases hcode : l.tableSize p.vectors.length + 2 * p.code.length ≤ l.segmentSize
      · have hdata : 2 * (l.segmentSize / 2) < p.data.bytes.length := by
          simp only [HasRoom, htakes, hcode, true_and] at h
          omega
        exact ⟨_, _, .data htakes hcode ((isFirstBeyond_iff (by decide) (Nat.zero_le _)).mpr rfl)
          (List.getElem?_eq_getElem hdata)⟩
      · have hindex : (l.segmentSize - l.tableSize p.vectors.length) / 2 < p.code.length := by
          omega
        exact ⟨_, _, .code htakes hsize ((isFirstBeyond_iff (by decide) hsize).mpr rfl)
          (List.getElem?_eq_getElem hindex)⟩
    · have htable := Layout.tableSize_of_large hl (Nat.lt_of_not_le hsize)
      have hindex : (l.segmentSize - 0) / 4 < p.vectors.length := by omega
      exact ⟨_, _, .vector htakes ((isFirstBeyond_iff (by decide) (Nat.zero_le _)).mpr rfl)
        (List.getElem?_eq_getElem hindex)⟩
  · simp only [Layout.TakesVectors, not_forall, Nat.not_le] at htakes
    obtain ⟨n, hn, hlt⟩ := htakes
    exact ⟨_, _, .table hn (List.getElem?_eq_getElem hlt)⟩

/-- A program that is read has a place, also in 32-bit arithmetic, if and only if its parts fit into
the layout. If they do not, the first item for which there is no room is reported. -/
theorem place_exact {source : String} (hl : l.validate = .ok ())
    (hsource : source.utf8ByteSize < 2 ^ 30) (hp : ofSource source = .ok p) :
    Trapping.place p l = some (p.place l) ∧
    (∀ place, p.place l = .ok place ↔ p.HasRoom l ∧
      place = ⟨l.textOrigin, l.tableSize p.vectors.length,
        l.textOrigin + l.tableSize p.vectors.length, l.dataOrigin⟩) ∧
    ∀ d, p.place l = .error d ↔ ∃ line e, p.Overflows l line e ∧ d = p.diagnose line e := by
  refine ⟨?_, fun place => place_eq_ok_iff hl, ?_⟩
  · obtain ⟨hcode, hvectors, hdata⟩ := lengths_le hp
    have hlength := length_le_utf8ByteSize source
    exact Trapping.place_eq hl (by omega) (by omega) (by omega)
  · intro d
    constructor
    · intro h
      have hroom : ¬ p.HasRoom l := by
        intro hroom
        rw [(place_eq_ok_iff hl).mpr ⟨hroom, rfl⟩] at h
        cases h
      obtain ⟨line, e, hoverflows⟩ := exists_overflows hl hroom
      rw [place_of_overflows hl hoverflows, Except.error.injEq] at h
      exact ⟨line, e, hoverflows, h.symm⟩
    · intro ⟨line, e, hoverflows, hd⟩
      rw [hd, place_of_overflows hl hoverflows]

/-- Segments of six bytes: full ones, and one in which the second vector starts but does not end. -/
theorem place_exact_full :
    (∃ p, ofSource ".vectable\nA: 1\n.text\nNOP\n.data\n.byte 1, 2, 3, 4, 5\n" = .ok p ∧
      p.HasRoom ⟨6, 0, 6, none⟩) ∧
    ∃ p, ofSource ".vectable\nA: 1\nB: 2\n" = .ok p ∧
      ∃ line e, p.Overflows ⟨6, 0, 6, none⟩ line e ∧
        p.diagnose line e = ⟨3, "B: 2", .segmentOverflow .text 8 6⟩ := by
  have hfull : (ofSource ".vectable\nA: 1\n.text\nNOP\n.data\n.byte 1, 2, 3, 4, 5\n").toOption.map
      (fun p => p.place ⟨6, 0, 6, none⟩) = some (.ok ⟨0, 4, 4, 6⟩) := by
    set_option maxRecDepth 4000 in
    decide
  have hover : (ofSource ".vectable\nA: 1\nB: 2\n").toOption.map
      (fun p => p.place ⟨6, 0, 6, none⟩) =
        some (.error ⟨3, "B: 2", .segmentOverflow .text 8 6⟩) := by
    set_option maxRecDepth 4000 in
    decide
  obtain ⟨p, hp, hplace⟩ := Option.map_eq_some_iff.mp hfull
  obtain ⟨q, hq, herror⟩ := Option.map_eq_some_iff.mp hover
  have hp := toOption_eq_some.mp hp
  have hq := toOption_eq_some.mp hq
  obtain ⟨line, e, hoverflows, hd⟩ := ((place_exact rfl (by decide) hq).2.2 _).mp herror
  exact ⟨⟨p, hp, (((place_exact rfl (by decide) hp).2.1 _).mp hplace).1⟩,
    q, hq, line, e, hoverflows, hd.symm⟩

end Program

end SuperH
