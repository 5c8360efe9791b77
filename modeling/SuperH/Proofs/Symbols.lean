import Mathlib.Data.List.Induction
import SuperH.Program

/-!
# What a label stands for

A name stands for what its last definition gives it. Definitions place a label at the code or the
data that follows it, so no label lies beyond the end of its segment.
-/
namespace SuperH

private theorem lookup_overwrite (entries : List (String × Symbol)) (key k : String)
    (symbol : Symbol) :
    (entries.map fun entry => if entry.1 = key then (key, symbol) else entry).lookup k =
      if k = key then (entries.lookup k).map fun _ => symbol else entries.lookup k := by
  induction entries with
  | nil => simp
  | cons entry rest ih =>
    rw [List.map_cons, List.lookup_cons, List.lookup_cons, ih]
    by_cases hentry : entry.1 = key
    · by_cases hk : k = key
      · simp [hentry, hk]
      · simp [hentry, hk, beq_eq_false_iff_ne.mpr hk]
    · by_cases hk : k = key
      · subst hk
        simp [hentry, beq_eq_false_iff_ne.mpr (Ne.symm hentry)]
      · simp [hentry, hk]

theorem SymbolTable.get?_define (t : SymbolTable) (name other : String) (symbol : Symbol) :
    (t.define name symbol).get? other =
      if Text.upcase other = Text.upcase name then some symbol else t.get? other := by
  cases hkey : t.entries.lookup (Text.upcase name) with
  | none =>
    simp only [define, get?, hkey, List.lookup_append, List.lookup_cons, List.lookup_nil]
    by_cases h : Text.upcase other = Text.upcase name
    · simp [h, hkey]
    · simp [h, beq_eq_false_iff_ne.mpr h]
  | some previous =>
    simp only [define, get?, hkey, lookup_overwrite]
    by_cases h : Text.upcase other = Text.upcase name
    · simp [h, hkey]
    · simp [h]

def Event.definition? : Event → Option (String × Symbol)
  | .defined name symbol => some (Text.upcase name, symbol)
  | .ignored _ => none

theorem get?_foldl_apply (events : List Event) (name : String) :
    (events.foldl Event.apply .empty).get? name =
      (((events.filterMap Event.definition?).filter
        (·.1 = Text.upcase name)).getLast?).map Prod.snd := by
  induction events using List.reverseRecOn with
  | nil => rfl
  | append_singleton events e ih =>
    rw [List.foldl_append, List.foldl_cons, List.foldl_nil, List.filterMap_append,
      List.filter_append]
    cases e with
    | ignored line =>
      rw [Event.apply, ih, show [Event.ignored line].filterMap Event.definition? = [] from rfl]
      simp only [List.filter_nil, List.append_nil]
    | defined other symbol =>
      rw [Event.apply, SymbolTable.get?_define, ih]
      by_cases h : Text.upcase name = Text.upcase other
      · simp [Event.definition?, h]
      · have h' : ¬ Text.upcase other = Text.upcase name := fun h' => h h'.symm
        simp [Event.definition?, h, h']

namespace SymbolTable

private theorem mem_entries_define {t : SymbolTable} {name : String} {symbol : Symbol}
    {x : String × Symbol} (h : x ∈ (t.define name symbol).entries) :
    x ∈ t.entries ∨ x = (Text.upcase name, symbol) := by
  simp only [define] at h
  split at h
  · simpa using h
  · obtain ⟨entry, hentry, rfl⟩ := List.mem_map.mp h
    split
    · exact .inr rfl
    · exact .inl hentry

theorem mem_entries_of_get? {t : SymbolTable} {name : String} {symbol : Symbol}
    (h : t.get? name = some symbol) : (Text.upcase name, symbol) ∈ t.entries := by
  obtain ⟨before, after, hentries, _⟩ := List.lookup_eq_some_iff.mp h
  simp [hentries]

end SymbolTable

theorem exists_defined_of_mem_entries {events : List Event} {x : String × Symbol}
    (h : x ∈ (events.foldl Event.apply .empty).entries) :
    ∃ name, Event.defined name x.2 ∈ events ∧ x.1 = Text.upcase name := by
  induction events using List.reverseRecOn with
  | nil => cases h
  | append_singleton events e ih =>
    rw [List.foldl_append, List.foldl_cons, List.foldl_nil] at h
    have hearlier (h : x ∈ (events.foldl Event.apply .empty).entries) :
        ∃ name, Event.defined name x.2 ∈ events ++ [e] ∧ x.1 = Text.upcase name := by
      obtain ⟨name, hmem, hname⟩ := ih h
      exact ⟨name, List.mem_append_left _ hmem, hname⟩
    cases e with
    | ignored line => exact hearlier h
    | defined name symbol =>
      rcases SymbolTable.mem_entries_define h with h | rfl
      · exact hearlier h
      · exact ⟨name, by simp, rfl⟩

/-! ## Statements that define -/

theorem length_code_cons (s : SourceStatement) (ss : List SourceStatement) :
    ((s :: ss).filterMap SourceStatement.code?).length =
      s.code?.toList.length + (ss.filterMap SourceStatement.code?).length := by
  cases hs : s.code? <;> simp [hs, Nat.add_comm]

theorem dataFrom_append (offset : Nat) (ss tt : List SourceStatement) :
    dataFrom offset (ss ++ tt) =
      dataFrom offset ss ++ dataFrom (offset + (dataFrom offset ss).length) tt := by
  induction ss generalizing offset with
  | nil => rfl
  | cons s ss ih =>
    simp only [List.cons_append, dataFrom, ih, List.append_assoc, List.length_append,
      Nat.add_assoc]

theorem Event.ofStatements_append (words bytes : Nat) (ss tt : List SourceStatement) :
    ofStatements words bytes (ss ++ tt) = ofStatements words bytes ss ++
      ofStatements (words + (ss.filterMap SourceStatement.code?).length)
        (bytes + (dataFrom bytes ss).length) tt := by
  induction ss generalizing words bytes with
  | nil => rfl
  | cons s ss ih =>
    rw [List.cons_append, ofStatements, ofStatements, ih, length_code_cons, dataFrom,
      List.length_append, List.append_assoc, Nat.add_assoc words, Nat.add_assoc bytes]

/-- An event comes from a statement after those that fill the sections before it. -/
theorem exists_split_of_mem_ofStatements {words bytes : Nat} {ss : List SourceStatement}
    {e : Event} (h : e ∈ Event.ofStatements words bytes ss) :
    ∃ before s after, ss = before ++ s :: after ∧
      e ∈ Event.ofStatement (words + (before.filterMap SourceStatement.code?).length)
        (bytes + (dataFrom bytes before).length) s := by
  induction ss generalizing words bytes with
  | nil => cases h
  | cons s ss ih =>
    rcases List.mem_append.mp h with h | h
    · exact ⟨[], s, ss, rfl, h⟩
    · obtain ⟨before, t, after, rfl, ht⟩ := ih h
      refine ⟨s :: before, t, after, rfl, ?_⟩
      rw [length_code_cons, dataFrom, List.length_append, ← Nat.add_assoc, ← Nat.add_assoc]
      exact ht

theorem defined_mem_ofStatement {words bytes : Nat} {s : SourceStatement} {name : String}
    {symbol : Symbol} (h : Event.defined name symbol ∈ Event.ofStatement words bytes s) :
    (∃ inst, s = ⟨symbol.line, .code (some name) inst⟩ ∧ symbol.segment = .text ∧
      symbol.offset = 2 * words) ∨
    ∃ directive payload, s = ⟨symbol.line, .data (some name) directive payload⟩ ∧
      symbol.segment = .data ∧ symbol.offset = directive.startAt bytes := by
  match s with
  | ⟨line, .code (some label) inst⟩ =>
    cases List.mem_singleton.mp h
    exact .inl ⟨inst, rfl, rfl, rfl⟩
  | ⟨line, .data (some label) directive payload⟩ =>
    cases List.mem_singleton.mp h
    exact .inr ⟨directive, payload, rfl, rfl, rfl⟩
  | ⟨line, .code none inst⟩ => cases h
  | ⟨line, .data none directive payload⟩ => cases h
  | ⟨line, .vector vector address⟩ => cases h
  | ⟨line, .stray⟩ => cases List.mem_singleton.mp h

/-! ## Offsets stay inside the segments -/

theorem Directive.le_startAt (d : Directive) (offset : Nat) : offset ≤ d.startAt offset := by
  unfold startAt
  split <;> omega

theorem Directive.startAt_le (d : Directive) (offset : Nat) (payload : List UInt8) (line : Nat) :
    d.startAt offset ≤ offset + (d.bytesAt offset payload line).length := by
  rw [bytesAt, List.length_append, List.length_replicate]
  unfold startAt
  split <;> omega

/-- A label of the text is at most at the end of the code, one of the data at most at its end. -/
def Symbol.InBounds (words bytes : Nat) (symbol : Symbol) : Prop :=
  match symbol.segment with
  | .text => symbol.offset ≤ 2 * words
  | .data => symbol.offset ≤ bytes

theorem inBounds_of_mem_ofStatements {words bytes : Nat} {ss : List SourceStatement}
    {name : String} {symbol : Symbol}
    (h : Event.defined name symbol ∈ Event.ofStatements words bytes ss) :
    symbol.InBounds (words + (ss.filterMap SourceStatement.code?).length)
      (bytes + (dataFrom bytes ss).length) := by
  obtain ⟨before, s, after, rfl, hs⟩ := exists_split_of_mem_ofStatements h
  rw [List.filterMap_append, List.length_append, dataFrom_append, dataFrom, List.length_append,
    List.length_append]
  unfold Symbol.InBounds
  rcases defined_mem_ofStatement hs with ⟨inst, rfl, hsegment, hoffset⟩ |
    ⟨directive, payload, rfl, hsegment, hoffset⟩
  · simp only [hsegment]
    omega
  · have hle := directive.startAt_le (bytes + (dataFrom bytes before).length) payload symbol.line
    simp only [hsegment, SourceStatement.bytesAt]
    omega

end SuperH
