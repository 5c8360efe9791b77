import SuperH.Proofs.Sections
import SuperH.Proofs.Symbols

/-!
# The streams of a source

The statements of a source belong to three streams, one for each section. The parts of a program
follow from these streams: the code and its labels from one, the data and its labels from another
and the vectors from the third, however the streams are woven together.
-/
namespace SuperH

/-- The statements of a section as the source writes them. -/
def sectionCode (sec : Section) (source : String) : List String :=
  ((inSections none (SourceLine.ofText source)).filter (·.1 = some sec)).map (·.2.code)

def Statement.label? : Statement → Option String
  | .code label _ => label
  | .data label _ _ => label
  | _ => none

def definedLabels (sec : Section) (source : String) : List String :=
  (sectionCode sec source).filterMap fun code =>
    (Statement.read (some sec) code).toOption.bind Statement.label?

/-- The statements of a section, cut loose from their lines. -/
def stream (sec : Section) (ss : List SourceStatement) : List SourceStatement :=
  (ss.filter (·.statement.section? = some sec)).map fun s => ⟨0, s.statement⟩

private theorem stream_cons_of_eq {sec : Section} {s : SourceStatement}
    (h : s.statement.section? = some sec) (ss : List SourceStatement) :
    stream sec (s :: ss) = ⟨0, s.statement⟩ :: stream sec ss := by
  simp [stream, h]

private theorem stream_cons_of_ne {sec : Section} {s : SourceStatement}
    (h : s.statement.section? ≠ some sec) (ss : List SourceStatement) :
    stream sec (s :: ss) = stream sec ss := by
  simp [stream, h]

/-! ## Reading a stream -/

theorem exists_readLines_eq_ok {source : String} :
    (∃ ss, readLines none (SourceLine.ofText source) = .ok ss) ↔
      ∀ sec, ∀ code ∈ sectionCode sec source, ∃ st, Statement.read (some sec) code = .ok st := by
  rw [readLines_eq_mapM, exists_mapM_eq_ok]
  simp only [readLine_eq_ok]
  constructor
  · intro hall sec code hcode
    obtain ⟨x, hx, rfl⟩ := List.mem_map.mp hcode
    obtain ⟨hx, hsec⟩ := List.mem_filter.mp hx
    obtain ⟨s, _, hread⟩ := hall x hx
    rw [of_decide_eq_true hsec] at hread
    exact ⟨s.statement, hread⟩
  · rintro hall ⟨current, l⟩ hx
    cases current with
    | none => exact ⟨⟨l.number, .stray⟩, rfl, rfl⟩
    | some sec =>
      have hmem : l.code ∈ sectionCode sec source :=
        List.mem_map.mpr ⟨(some sec, l), List.mem_filter.mpr ⟨hx, by simp⟩, rfl⟩
      obtain ⟨st, hst⟩ := hall sec l.code hmem
      exact ⟨⟨l.number, st⟩, rfl, hst⟩

private theorem mapM_read_sectionCode {source : String} {ss : List SourceStatement}
    (h : readLines none (SourceLine.ofText source) = .ok ss) (sec : Section) :
    (sectionCode sec source).mapM (Statement.read (some sec)) =
      .ok ((stream sec ss).map (·.statement)) := by
  rw [readLines_eq_mapM, mapM_eq_ok] at h
  rw [mapM_eq_ok, sectionCode]
  generalize inSections none (SourceLine.ofText source) = xs at h ⊢
  induction h with
  | nil => exact .nil
  | @cons x s xs ss hread _ ih =>
    have hsection := Statement.section?_of_read (readLine_eq_ok.mp hread).2
    by_cases hsec : x.1 = some sec
    · rw [List.filter_cons_of_pos (by simp [hsec]), stream_cons_of_eq (by rw [hsection, hsec])]
      exact .cons (by rw [← hsec]; exact (readLine_eq_ok.mp hread).2) ih
    · rw [List.filter_cons_of_neg (by simp [hsec]),
        stream_cons_of_ne (by rw [hsection]; exact hsec)]
      exact ih

theorem stream_eq_of_sectionCode_eq {source other : String} {ss tt : List SourceStatement}
    (hs : readLines none (SourceLine.ofText source) = .ok ss)
    (ht : readLines none (SourceLine.ofText other) = .ok tt) {sec : Section}
    (h : sectionCode sec source = sectionCode sec other) : stream sec ss = stream sec tt := by
  have hunnumbered (ss : List SourceStatement) :
      stream sec ss = ((stream sec ss).map (·.statement)).map (⟨0, ·⟩) := by
    simp [stream, Function.comp_def]
  have hread := mapM_read_sectionCode ht sec
  rw [← h, mapM_read_sectionCode hs sec, Except.ok.injEq] at hread
  rw [hunnumbered ss, hread, ← hunnumbered tt]

theorem mem_definedLabels {source : String} {ss : List SourceStatement}
    (h : readLines none (SourceLine.ofText source) = .ok ss) {sec : Section}
    {s : SourceStatement} (hs : s ∈ stream sec ss) {name : String}
    (hname : s.statement.label? = some name) : name ∈ definedLabels sec source := by
  have hmem : s.statement ∈ (stream sec ss).map (·.statement) := List.mem_map_of_mem hs
  obtain ⟨code, hcode, hread⟩ := exists_of_mem_mapM (mapM_read_sectionCode h sec) hmem
  refine List.mem_filterMap.mpr ⟨code, hcode, ?_⟩
  rw [toOption_eq_some.mpr hread, Option.bind_some, hname]

/-! ## The parts of a program -/

theorem map_inst_stream (ss : List SourceStatement) :
    (ss.filterMap SourceStatement.code?).map (·.inst) =
      ((stream .text ss).filterMap SourceStatement.code?).map (·.inst) := by
  induction ss with
  | nil => rfl
  | cons s ss ih =>
    match s with
    | ⟨line, .code label (some inst)⟩ =>
      rw [stream_cons_of_eq rfl]
      exact congrArg (inst :: ·) ih
    | ⟨line, .code label none⟩ =>
      rw [stream_cons_of_eq rfl]
      exact ih
    | ⟨line, .data label directive payload⟩ => exact ih
    | ⟨line, .vector name address⟩ => exact ih
    | ⟨line, .stray⟩ => exact ih

theorem map_address_stream (ss : List SourceStatement) :
    (ss.filterMap SourceStatement.vector?).map (·.address) =
      ((stream .vectable ss).filterMap SourceStatement.vector?).map (·.address) := by
  induction ss with
  | nil => rfl
  | cons s ss ih =>
    match s with
    | ⟨line, .code label inst⟩ => exact ih
    | ⟨line, .data label directive payload⟩ => exact ih
    | ⟨line, .vector name address⟩ =>
      rw [stream_cons_of_eq rfl]
      exact congrArg (address :: ·) ih
    | ⟨line, .stray⟩ => exact ih

theorem Directive.map_value_bytesAt (d : Directive) (offset : Nat) (payload : List UInt8)
    (line : Nat) :
    (d.bytesAt offset payload line).map (·.value) =
      List.replicate (d.startAt offset - offset) 0 ++ payload := by
  simp [bytesAt, Function.comp_def]

theorem Directive.length_bytesAt (d : Directive) (offset : Nat) (payload : List UInt8)
    (line : Nat) :
    (d.bytesAt offset payload line).length = d.startAt offset - offset + payload.length := by
  simp [bytesAt]

theorem map_value_stream (offset : Nat) (ss : List SourceStatement) :
    (dataFrom offset ss).map (·.value) =
      (dataFrom offset (stream .data ss)).map (·.value) := by
  induction ss generalizing offset with
  | nil => rfl
  | cons s ss ih =>
    match s with
    | ⟨line, .code label inst⟩ => exact ih offset
    | ⟨line, .data label directive payload⟩ =>
      rw [stream_cons_of_eq rfl, dataFrom, dataFrom]
      simp only [SourceStatement.bytesAt, List.map_append, Directive.map_value_bytesAt,
        Directive.length_bytesAt, ih]
    | ⟨line, .vector name address⟩ => exact ih offset
    | ⟨line, .stray⟩ => exact ih offset

/-! ## Labels -/

/-- Where a symbol stands, whatever line defines it. -/
def Symbol.spot (symbol : Symbol) : Segment × Nat :=
  (symbol.segment, symbol.offset)

/-- The labels that statements define, with their spots in order of definition. -/
def labelSpots (words bytes : Nat) (ss : List SourceStatement) : List (String × Segment × Nat) :=
  ((Event.ofStatements words bytes ss).filterMap Event.definition?).map
    fun d => (d.1, d.2.spot)

def Statement.labelSpot? (words bytes : Nat) : Statement → Option (String × Segment × Nat)
  | .code (some name) _ => some (Text.upcase name, .text, 2 * words)
  | .data (some name) directive _ => some (Text.upcase name, .data, directive.startAt bytes)
  | _ => none

theorem labelSpots_cons (words bytes : Nat) (s : SourceStatement) (ss : List SourceStatement) :
    labelSpots words bytes (s :: ss) = (s.statement.labelSpot? words bytes).toList ++
      labelSpots (words + s.code?.toList.length) (bytes + (s.bytesAt bytes).length) ss := by
  rw [labelSpots, Event.ofStatements, List.filterMap_append, List.map_append]
  congr 1
  rcases s with ⟨line, ⟨_ | name, inst⟩ | ⟨_ | name, directive, payload⟩ | _ | _⟩ <;> rfl

theorem map_spot_get? (lines : Array String) (ss : List SourceStatement) (name : String) :
    ((Program.ofStatements lines ss).symbols.get? name).map Symbol.spot =
      ((labelSpots 0 0 ss).filter (·.1 = Text.upcase name)).getLast?.map Prod.snd := by
  rw [Program.ofStatements, get?_foldl_apply, labelSpots, List.filter_map, List.getLast?_map,
    Option.map_map, Option.map_map]
  rfl

/-- The labels of the code do not depend on the data before them. -/
theorem labelSpots_text (words bytes bytes' : Nat) (ss : List SourceStatement) :
    (labelSpots words bytes ss).filter (·.2.1 = .text) =
      labelSpots words bytes' (stream .text ss) := by
  induction ss generalizing words bytes with
  | nil => rfl
  | cons s ss ih =>
    rw [labelSpots_cons, List.filter_append, ih]
    match s with
    | ⟨line, .code label inst⟩ =>
      rw [stream_cons_of_eq rfl, labelSpots_cons]
      cases label <;> cases inst <;> rfl
    | ⟨line, .data label directive payload⟩ =>
      rw [stream_cons_of_ne (by simp [Statement.section?])]
      cases label <;> rfl
    | ⟨line, .vector name address⟩ => rfl
    | ⟨line, .stray⟩ => rfl

theorem labelSpots_data (words words' bytes : Nat) (ss : List SourceStatement) :
    (labelSpots words bytes ss).filter (·.2.1 = .data) =
      labelSpots words' bytes (stream .data ss) := by
  induction ss generalizing words bytes with
  | nil => rfl
  | cons s ss ih =>
    rw [labelSpots_cons, List.filter_append, ih]
    match s with
    | ⟨line, .code label inst⟩ =>
      rw [stream_cons_of_ne (by simp [Statement.section?])]
      cases label <;> rfl
    | ⟨line, .data label directive payload⟩ =>
      rw [stream_cons_of_eq rfl, labelSpots_cons]
      simp only [SourceStatement.bytesAt, Directive.length_bytesAt]
      cases label <;> rfl
    | ⟨line, .vector name address⟩ => rfl
    | ⟨line, .stray⟩ => rfl

theorem exists_label_of_mem_labelSpots {words bytes : Nat} {ss : List SourceStatement}
    {x : String × Segment × Nat} (h : x ∈ labelSpots words bytes ss) :
    ∃ s ∈ ss, ∃ name, s.statement.label? = some name ∧ x.1 = Text.upcase name := by
  induction ss generalizing words bytes with
  | nil => cases h
  | cons s ss ih =>
    rw [labelSpots_cons, List.mem_append] at h
    rcases h with h | h
    · refine ⟨s, List.mem_cons_self, ?_⟩
      match s, h with
      | ⟨line, .code (some name) inst⟩, h => exact ⟨name, rfl, by rw [List.mem_singleton.mp h]⟩
      | ⟨line, .data (some name) directive payload⟩, h =>
        exact ⟨name, rfl, by rw [List.mem_singleton.mp h]⟩
    · obtain ⟨t, ht, hname⟩ := ih h
      exact ⟨t, List.mem_cons_of_mem _ ht, hname⟩

end SuperH
