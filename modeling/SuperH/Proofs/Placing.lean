import Mathlib.Algebra.Group.Nat.Defs
import SuperH.Assembly
import SuperH.Proofs.Sections
import SuperH.Proofs.Symbols

/-!
# Places in memory

What a layout that is accepted promises, when a program fits into it, and where its labels and
instructions then lie: inside the two segments, and so below the end of the address space.
-/
namespace SuperH

theorem Layout.validate_eq_ok {l : Layout} :
    l.validate = .ok () ↔ (l.segmentSize ≠ 0 ∧ l.segmentSize % 2 = 0) ∧
      (l.textOrigin % 2 = 0 ∧ l.dataOrigin % 2 = 0) ∧
      (∀ n, l.vectableEntries = some n → 4 * n ≤ l.segmentSize) ∧
      (l.textEnd < 2 ^ 32 ∧ l.dataEnd < 2 ^ 32) ∧
      (l.dataEnd ≤ l.textOrigin ∨ l.textEnd ≤ l.dataOrigin) := by
  have hfault : l.validate = .ok () ↔ l.fault? = none := by
    unfold validate
    cases l.fault? <;> simp
  have hvectable : l.vectableFault? = none ↔
      ∀ n, l.vectableEntries = some n → 4 * n ≤ l.segmentSize := by
    unfold vectableFault?
    cases l.vectableEntries with
    | none => simp
    | some n => by_cases h : l.segmentSize < 4 * n <;> simp [h]; omega
  rw [hfault, ← hvectable, fault?, Nat.pow_eq]
  split
  · simp; omega
  · split
    · simp; omega
    · rw [Option.or_eq_none_iff]
      split
      · simp; omega
      · split
        · simp; omega
        · rw [eq_self_iff_true, and_true]
          constructor
          · intro h
            exact ⟨by omega, by omega, h, by omega, by omega⟩
          · exact fun h => h.2.2.1

theorem Layout.vectableSize_eq_ok {l : Layout} {found size : Nat} :
    l.vectableSize found = .ok size ↔
      (∃ n, l.vectableEntries = some n ∧ found ≤ n ∧ 4 * n = size) ∨
        l.vectableEntries = none ∧ 4 * found = size := by
  unfold vectableSize
  cases l.vectableEntries with
  | none => simp
  | some n =>
    have hor : (∃ m, some n = some m ∧ found ≤ m ∧ 4 * m = size) ∨
        some n = none ∧ 4 * found = size ↔ found ≤ n ∧ 4 * n = size := by simp
    rw [hor]
    dsimp only
    split
    · simp only [reduceCtorEq, false_iff]
      omega
    · rw [Except.ok.injEq]
      omega

theorem Layout.vectableSize_eq_error {l : Layout} {found : Nat} {e : Error}
    (h : l.vectableSize found = .error e) : ∃ n, l.vectableEntries = some n ∧ n < found := by
  unfold vectableSize at h
  cases hn : l.vectableEntries with
  | none =>
    rw [hn] at h
    cases h
  | some n =>
    simp only [hn] at h
    split at h
    · exact ⟨n, rfl, ‹_›⟩
    · cases h

theorem Layout.vectableSize_even {l : Layout} {found size : Nat}
    (h : l.vectableSize found = .ok size) : size % 2 = 0 := by
  rcases vectableSize_eq_ok.mp h with ⟨n, _, _, rfl⟩ | ⟨_, rfl⟩ <;> omega

theorem DataSection.length_words (s : DataSection) : s.words.length = (s.offset + 1) / 2 := by
  have hpairs (bytes : List SourceByte) : (pairUp bytes).length = (bytes.length + 1) / 2 := by
    induction bytes using pairUp.induct with
    | case1 => rfl
    | case2 high => simp [pairUp]
    | case3 high low rest ih =>
      simp only [pairUp, List.length_cons, ih]
      omega
  exact hpairs s.bytes

theorem Program.place_eq (p : Program) (l : Layout) :
    p.place l =
      match l.vectableSize p.vectors.length with
      | .error e => .error (p.diagnose (p.vectorLine (l.vectableEntries.getD 0)) e)
      | .ok size =>
        if l.segmentSize < size then
          .error (p.diagnose (p.vectorLine (l.segmentSize / 4))
            (.segmentOverflow .text size l.segmentSize))
        else match p.code[(l.segmentSize - size) / 2]? with
          | some first => .error (p.diagnose first.line
              (.segmentOverflow .text (size + 2 * p.code.length) l.segmentSize))
          | none =>
            match p.data.words[l.segmentSize / 2]? with
            | some (_, line) => .error (p.diagnose line
                (.segmentOverflow .data (2 * p.data.words.length) l.segmentSize))
            | none => .ok ⟨l.textOrigin, size, l.textOrigin + size, l.dataOrigin⟩ := by
  unfold Program.place
  cases l.vectableSize p.vectors.length with
  | error e => rfl
  | ok size =>
    by_cases hfit : l.segmentSize < size
    · simp [hfit, bind, Except.bind, pure, Except.pure, throw, throwThe, MonadExceptOf.throw]
    · cases hcode : p.code[(l.segmentSize - size) / 2]? with
      | some first =>
        simp [hfit, hcode, bind, Except.bind, pure, Except.pure, throw, throwThe,
          MonadExceptOf.throw]
      | none =>
        cases p.data.words[l.segmentSize / 2]? <;>
          simp [hfit, hcode, bind, Except.bind, pure, Except.pure, throw, throwThe,
            MonadExceptOf.throw]

theorem Program.place_eq_ok {p : Program} {l : Layout} {place : Placement} :
    p.place l = .ok place ↔ ∃ size, l.vectableSize p.vectors.length = .ok size ∧
      size ≤ l.segmentSize ∧ p.code.length ≤ (l.segmentSize - size) / 2 ∧
      p.data.words.length ≤ l.segmentSize / 2 ∧
      place = ⟨l.textOrigin, size, l.textOrigin + size, l.dataOrigin⟩ := by
  rw [Program.place_eq]
  cases l.vectableSize p.vectors.length with
  | error e => simp
  | ok size =>
    simp only [Except.ok.injEq, exists_eq_left']
    by_cases hfit : l.segmentSize < size
    · have hover : ¬ size ≤ l.segmentSize := Nat.not_le.mpr hfit
      simp [hfit, hover]
    · rw [if_neg hfit]
      cases hcode : p.code[(l.segmentSize - size) / 2]? with
      | some first =>
        obtain ⟨hlt, _⟩ := List.getElem?_eq_some_iff.mp hcode
        simp only [reduceCtorEq, false_iff]
        omega
      | none =>
        cases hdata : p.data.words[l.segmentSize / 2]? with
        | some word =>
          obtain ⟨hlt, _⟩ := List.getElem?_eq_some_iff.mp hdata
          simp only [reduceCtorEq, false_iff]
          omega
        | none =>
          rw [List.getElem?_eq_none_iff] at hcode hdata
          simp only [Except.ok.injEq, Nat.le_of_not_lt hfit, hcode, hdata, true_and]
          exact eq_comm

theorem Program.codeAddress_mem {p : Program} {l : Layout} {place : Placement}
    (hplace : p.place l = .ok place) {i : Nat} (hi : i < p.code.length) :
    place.textBase ≤ place.codeAddress i ∧ place.codeAddress i ≤ l.textEnd - 2 := by
  obtain ⟨size, _, hsize, hcode, _, rfl⟩ := Program.place_eq_ok.mp hplace
  simp only [Layout.textEnd, Placement.codeAddress]
  omega

theorem Program.codeAddress_lt {p : Program} {l : Layout} {place : Placement}
    (hl : l.validate = .ok ()) (h : p.place l = .ok place) {i : Nat} (hi : i < p.code.length) :
    place.codeAddress i < 2 ^ 32 := by
  obtain ⟨_, _, _, ⟨htext, _⟩, _⟩ := Layout.validate_eq_ok.mp hl
  have hmem := Program.codeAddress_mem h hi
  omega

theorem Program.codeAddress_even {p : Program} {l : Layout} {place : Placement}
    (hl : l.validate = .ok ()) (h : p.place l = .ok place) (i : Nat) :
    place.codeAddress i % 2 = 0 := by
  obtain ⟨_, ⟨htext, _⟩, _⟩ := Layout.validate_eq_ok.mp hl
  obtain ⟨size, hsize, _, _, _, rfl⟩ := Program.place_eq_ok.mp h
  have heven := Layout.vectableSize_even hsize
  simp only [Placement.codeAddress]
  omega

theorem Program.inBounds_of_mem_entries {source : String} {p : Program}
    (hp : Program.ofSource source = .ok p) {x : String × Symbol} (hx : x ∈ p.symbols.entries) :
    x.2.InBounds p.code.length p.data.offset := by
  obtain ⟨ss, _, rfl⟩ := Program.ofSource_eq_ok.mp hp
  obtain ⟨name, hmem, _⟩ := exists_defined_of_mem_entries hx
  simpa [ofStatements, DataSection.offset] using inBounds_of_mem_ofStatements hmem

theorem Program.inBounds_of_get? {source : String} {p : Program}
    (hp : Program.ofSource source = .ok p) {name : String} {symbol : Symbol}
    (h : p.symbols.get? name = some symbol) :
    symbol.InBounds p.code.length p.data.offset :=
  Program.inBounds_of_mem_entries hp (SymbolTable.mem_entries_of_get? h)

/-- Labels lie in their segments; one after the last instruction may lie at the very end. -/
theorem Program.address_mem {p : Program} {l : Layout} {place : Placement}
    (hl : l.validate = .ok ()) (hplace : p.place l = .ok place) {symbol : Symbol}
    (hsymbol : symbol.InBounds p.code.length p.data.offset) :
    (symbol.segment = .text →
      place.textBase ≤ place.address symbol ∧ place.address symbol ≤ l.textEnd) ∧
    (symbol.segment = .data →
      l.dataOrigin ≤ place.address symbol ∧ place.address symbol ≤ l.dataEnd) := by
  obtain ⟨⟨_, heven⟩, _⟩ := Layout.validate_eq_ok.mp hl
  obtain ⟨size, _, hsize, hcode, hwords, rfl⟩ := Program.place_eq_ok.mp hplace
  rw [DataSection.length_words] at hwords
  simp only [Layout.textEnd, Layout.dataEnd, Placement.address]
  unfold Symbol.InBounds at hsymbol
  constructor
  · intro hsegment
    simp only [hsegment] at hsymbol ⊢
    omega
  · intro hsegment
    simp only [hsegment] at hsymbol ⊢
    omega

theorem Program.address_lt {p : Program} {l : Layout} {place : Placement}
    (hl : l.validate = .ok ()) (h : p.place l = .ok place) {symbol : Symbol}
    (hsymbol : symbol.InBounds p.code.length p.data.offset) :
    place.address symbol < 2 ^ 32 := by
  obtain ⟨_, _, _, ⟨htext, hdata⟩, _⟩ := Layout.validate_eq_ok.mp hl
  obtain ⟨htextMem, hdataMem⟩ := Program.address_mem hl h hsymbol
  cases hsegment : symbol.segment with
  | text => exact Nat.lt_of_le_of_lt (htextMem hsegment).2 htext
  | data => exact Nat.lt_of_le_of_lt (hdataMem hsegment).2 hdata

theorem assemble_eq_ok {source : String} {l : Layout} {out : Assembly} :
    assemble source l = .ok out ↔ l.validate = .ok () ∧
      Program.ofSource source = .ok out.program ∧ out.program.place l = .ok out.place ∧
      out.program.link out.place = .ok out.words ∧
      out.image = Image.build out.program out.words out.place l := by
  unfold assemble
  simp only [bind_eq_ok, mapError_eq_ok]
  constructor
  · rintro ⟨_, hl, program, hp, place, hplace, words, hwords, h⟩
    cases h
    exact ⟨hl, hp, hplace, hwords, rfl⟩
  · rintro ⟨hl, hp, hplace, hwords, himage⟩
    refine ⟨(), hl, _, hp, _, hplace, _, hwords, ?_⟩
    rw [← himage]
    rfl

theorem assemble_of_link {source : String} {l : Layout} {p : Program} {place : Placement}
    {words : List Word} (hl : l.validate = .ok ()) (hp : Program.ofSource source = .ok p)
    (hplace : p.place l = .ok place) (hlink : p.link place = .ok words) :
    assemble source l = .ok ⟨p, place, words, Image.build p words place l⟩ :=
  assemble_eq_ok.mpr ⟨hl, hp, hplace, hlink, rfl⟩

end SuperH
