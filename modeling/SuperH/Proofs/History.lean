import SuperH.Proofs.CaseFolding
import SuperH.Proofs.Definitions

/-!
# The history of definitions

The definitions of a source, one after the other, are its history. The symbol table lists each name
of it once, where it was first defined, with what it was last defined as. And the notices tell of
each line before the first section and of each name that is defined again, with the definition just
before.
-/
namespace SuperH

/-! ## Lists in order -/

/-- The elements of a list, each with those before it. -/
def withBefore {α : Type} (xs : List α) : List (List α × α) :=
  xs.zipIdx.map fun x => (xs.take x.2, x.1)

private theorem withBefore_concat {α : Type} (xs : List α) (x : α) :
    withBefore (xs ++ [x]) = withBefore xs ++ [(xs, x)] := by
  have hearlier : ∀ y ∈ xs.zipIdx, ((xs ++ [x]).take y.2, y.1) = (xs.take y.2, y.1) := by
    intro y hy
    have hlt := List.snd_lt_of_mem_zipIdx hy
    rw [List.take_append_of_le_length (by omega)]
  rw [withBefore, List.zipIdx_append, List.map_append, List.map_congr_left hearlier]
  simp [withBefore]

private theorem eraseDups_concat (xs : List String) (x : String) :
    (xs ++ [x]).eraseDups = if x ∈ xs then xs.eraseDups else xs.eraseDups ++ [x] := by
  rw [List.eraseDups_append]
  split
  · simp [List.removeAll, *]
  · simp [List.removeAll, List.eraseDups_cons, *]

/-! ## The history of a source -/

def SourceStatement.definition? (before : List SourceStatement) :
    SourceStatement → Option (String × Symbol)
  | ⟨line, .code (some name) _⟩ =>
      some (name, ⟨.text, 2 * (before.filterMap SourceStatement.code?).length, line⟩)
  | ⟨line, .data (some name) directive _⟩ =>
      some (name, ⟨.data, directive.startAt (dataFrom 0 before).length, line⟩)
  | _ => none

def definitions (ss : List SourceStatement) : List (String × Symbol) :=
  (withBefore ss).filterMap fun x => x.2.definition? x.1

def lastDefinition (ds : List (String × Symbol)) (name : String) : Option Symbol :=
  (ds.filter (·.1 = name)).getLast?.map Prod.snd

/-- The notices of a definition: none if it is the first of its name, else a warning on its line,
which names it, and a note on the line of the definition before. -/
def redefined (raw : Nat → String) (d : String × Symbol) : Option Symbol → List Notice
  | none => []
  | some previous =>
      [⟨.redefined d.1, d.2.line, raw d.2.line⟩, ⟨.overridden, previous.line, raw previous.line⟩]

def redefinitions (raw : Nat → String) (ds : List (String × Symbol)) : List Notice :=
  (withBefore ds).flatMap fun x => redefined raw x.2 (lastDefinition x.1 x.2.1)

/-- The lines with code before the first that opens a section. -/
def strayLines (source : String) : List SourceLine :=
  (SourceLine.ofText source).takeWhile fun l => (Section.parse? l.code).isNone

private theorem mem_of_lastDefinition {ds : List (String × Symbol)} {name : String}
    {symbol : Symbol} (h : lastDefinition ds name = some symbol) : (name, symbol) ∈ ds := by
  obtain ⟨⟨other, _⟩, hlast, rfl⟩ := Option.map_eq_some_iff.mp h
  obtain ⟨hmem, hname⟩ := List.mem_filter.mp (List.mem_of_getLast? hlast)
  cases of_decide_eq_true hname
  exact hmem

theorem lastDefinition_eq_none {ds : List (String × Symbol)} {name : String} :
    lastDefinition ds name = none ↔ name ∉ ds.map Prod.fst := by
  rw [lastDefinition, Option.map_eq_none_iff, List.getLast?_eq_none_iff, List.filter_eq_nil_iff,
    List.mem_map]
  simp only [decide_eq_true_eq, not_exists, not_and]

private theorem redefinitions_concat (raw : Nat → String) (ds : List (String × Symbol))
    (d : String × Symbol) :
    redefinitions raw (ds ++ [d]) =
      redefinitions raw ds ++ redefined raw d (lastDefinition ds d.1) := by
  rw [redefinitions, withBefore_concat, List.flatMap_append, ← redefinitions,
    List.flatMap_singleton]

/-- Each name is defined once without a notice. -/
theorem length_redefinitions (raw : Nat → String) (ds : List (String × Symbol)) :
    (redefinitions raw ds).length + 2 * (ds.map Prod.fst).eraseDups.length = 2 * ds.length := by
  induction ds using List.reverseRecOn with
  | nil => rfl
  | append_singleton ds d ih =>
    rw [redefinitions_concat, List.map_append, List.map_singleton, eraseDups_concat]
    cases hlast : lastDefinition ds d.1 with
    | none =>
      rw [if_neg (lastDefinition_eq_none.mp hlast), redefined]
      simp only [List.length_append, List.length_nil, List.length_singleton]
      omega
    | some previous =>
      have hmem : d.1 ∈ ds.map Prod.fst :=
        List.mem_map.mpr ⟨_, mem_of_lastDefinition hlast, rfl⟩
      rw [if_pos hmem, redefined]
      simp only [List.length_append, List.length_cons, List.length_nil]
      omega

private theorem of_mem_redefinitions {raw : Nat → String} {ds : List (String × Symbol)} {n : Notice}
    (h : n ∈ redefinitions raw ds) : n.raw = raw n.line ∧ ∃ d ∈ ds, n.line = d.2.line := by
  induction ds using List.reverseRecOn with
  | nil => cases h
  | append_singleton ds d ih =>
    rw [redefinitions_concat, List.mem_append] at h
    rcases h with h | h
    · obtain ⟨hraw, other, hother, hline⟩ := ih h
      exact ⟨hraw, other, List.mem_append_left _ hother, hline⟩
    · cases hlast : lastDefinition ds d.1 with
      | none =>
        rw [hlast] at h
        cases h
      | some previous =>
        simp only [hlast, redefined, List.mem_cons, List.not_mem_nil, or_false] at h
        rcases h with rfl | rfl
        · exact ⟨rfl, d, by simp, rfl⟩
        · exact ⟨rfl, _, List.mem_append_left _ (mem_of_lastDefinition hlast), rfl⟩

/-! ## Events of definitions -/

theorem lookup_of_mem {entries : List (String × Symbol)} (h : (entries.map Prod.fst).Nodup)
    {e : String × Symbol} (he : e ∈ entries) : entries.lookup e.1 = some e.2 := by
  induction entries with
  | nil => cases he
  | cons first entries ih =>
    obtain ⟨hfirst, hentries⟩ := List.nodup_cons.mp h
    rw [List.lookup_cons]
    rcases List.mem_cons.mp he with rfl | he
    · simp
    · have hne : e.1 ≠ first.1 := fun heq => hfirst (heq ▸ List.mem_map_of_mem he)
      rw [beq_eq_false_iff_ne.mpr hne]
      exact ih hentries he

namespace Event

def ofDefinition (d : String × Symbol) : Event :=
  .defined d.1 d.2

theorem allNotices_append (raw : Nat → String) (symbols : SymbolTable) (events later : List Event) :
    allNotices raw symbols (events ++ later) =
      allNotices raw symbols events ++ allNotices raw (events.foldl apply symbols) later := by
  induction events generalizing symbols with
  | nil => rfl
  | cons e events ih =>
    rw [List.cons_append, allNotices, ih, allNotices, List.append_assoc, List.foldl_cons]

private theorem allNotices_ignored (raw : Nat → String) (symbols : SymbolTable) (lines : List Nat) :
    allNotices raw symbols (lines.map .ignored) = lines.map fun n => ⟨.stray, n, raw n⟩ := by
  induction lines with
  | nil => rfl
  | cons n lines ih =>
    rw [List.map_cons, allNotices, apply, ih]
    rfl

private theorem foldl_apply_ignored (symbols : SymbolTable) (lines : List Nat) :
    (lines.map Event.ignored).foldl apply symbols = symbols := by
  induction lines with
  | nil => rfl
  | cons n lines ih => exact ih

variable {ds : List (String × Symbol)}

private theorem definitions_of_map (h : ∀ d ∈ ds, Text.upcase d.1 = d.1) :
    (ds.map ofDefinition).filterMap definition? = ds := by
  have hsame : ∀ d ∈ ds, (definition? ∘ ofDefinition) d = some d := by
    intro d hd
    rw [Function.comp_apply, ofDefinition, definition?, h d hd]
  rw [List.filterMap_map, List.filterMap_congr hsame, List.filterMap_some]

/-- The names of the table are those of the definitions, in order and without repetition. -/
theorem map_fst_foldl_apply (h : ∀ d ∈ ds, Text.upcase d.1 = d.1) :
    ((ds.map ofDefinition).foldl apply .empty).entries.map Prod.fst =
      (ds.map Prod.fst).eraseDups := by
  induction ds using List.reverseRecOn with
  | nil => rfl
  | append_singleton ds d ih =>
    obtain ⟨hds, hd⟩ := List.forall_mem_append.mp h
    rw [List.map_append, List.foldl_append, List.map_singleton, List.foldl_cons, List.foldl_nil,
      ofDefinition, apply, SymbolTable.map_fst_define, hd d List.mem_cons_self, ih hds,
      List.map_append, List.map_singleton, eraseDups_concat]
    simp only [List.mem_eraseDups]

private theorem get?_ofDefinitions (h : ∀ d ∈ ds, Text.upcase d.1 = d.1) (name : String) :
    ((ds.map ofDefinition).foldl apply .empty).get? name =
      lastDefinition ds (Text.upcase name) := by
  rw [get?_foldl_apply, definitions_of_map h]
  rfl

private theorem lastDefinition_of_mem_entries (h : ∀ d ∈ ds, Text.upcase d.1 = d.1)
    {e : String × Symbol} (he : e ∈ ((ds.map ofDefinition).foldl apply .empty).entries) :
    lastDefinition ds e.1 = some e.2 := by
  have hkey : e.1 ∈ (ds.map Prod.fst).eraseDups := by
    rw [← map_fst_foldl_apply h]
    exact List.mem_map_of_mem he
  obtain ⟨d, hd, hkey⟩ := List.mem_map.mp (List.mem_eraseDups.mp hkey)
  have hupcase : Text.upcase e.1 = e.1 := hkey ▸ h d hd
  have hentry := get?_ofDefinitions h e.1
  rw [SymbolTable.get?, hupcase, lookup_of_mem (nodup_keys _) he] at hentry
  exact hentry.symm

private theorem allNotices_ofDefinitions (raw : Nat → String)
    (h : ∀ d ∈ ds, Text.upcase d.1 = d.1) :
    allNotices raw .empty (ds.map ofDefinition) = redefinitions raw ds := by
  induction ds using List.reverseRecOn with
  | nil => rfl
  | append_singleton ds d ih =>
    obtain ⟨hds, hd⟩ := List.forall_mem_append.mp h
    have hlast := get?_ofDefinitions hds d.1
    rw [hd d List.mem_cons_self] at hlast
    rw [List.map_append, allNotices_append, ih hds, redefinitions_concat, List.map_singleton,
      allNotices, allNotices, List.append_nil, ofDefinition, notices, hlast]
    cases lastDefinition ds d.1 <;> rfl

end Event

/-! ## The events of a source -/

theorem definition?_label {before : List SourceStatement} {s : SourceStatement}
    {d : String × Symbol} (h : s.definition? before = some d) :
    s.statement.label? = some d.1 ∧ s.line = d.2.line := by
  unfold SourceStatement.definition? at h
  split at h
  · cases h
    exact ⟨rfl, rfl⟩
  · cases h
    exact ⟨rfl, rfl⟩
  · cases h

private theorem exists_of_mem_definitions {ss : List SourceStatement} {d : String × Symbol}
    (h : d ∈ definitions ss) :
    ∃ s ∈ ss, s.statement.label? = some d.1 ∧ s.line = d.2.line := by
  obtain ⟨x, hx, hd⟩ := List.mem_filterMap.mp h
  obtain ⟨⟨s, i⟩, hs, rfl⟩ := List.mem_map.mp hx
  exact ⟨s, List.fst_mem_of_mem_zipIdx hs, definition?_label hd⟩

theorem ofStatement_eq {before : List SourceStatement} {s : SourceStatement}
    (h : s.statement ≠ .stray) :
    Event.ofStatement (before.filterMap SourceStatement.code?).length (dataFrom 0 before).length s =
      (s.definition? before).toList.map Event.ofDefinition := by
  rcases s with ⟨line, ⟨_ | name, inst⟩ | ⟨_ | name, directive, payload⟩ | _ | _⟩
  · rfl
  · rfl
  · rfl
  · rfl
  · rfl
  · exact absurd rfl h

theorem ofStatements_concat (ss : List SourceStatement) (s : SourceStatement) :
    Event.ofStatements 0 0 (ss ++ [s]) = Event.ofStatements 0 0 ss ++
      Event.ofStatement (ss.filterMap SourceStatement.code?).length (dataFrom 0 ss).length s := by
  rw [Event.ofStatements_append, Event.ofStatements, Event.ofStatements, List.append_nil,
    Nat.zero_add, Nat.zero_add]

theorem definitions_concat (ss : List SourceStatement) (s : SourceStatement) :
    definitions (ss ++ [s]) = definitions ss ++ (s.definition? ss).toList := by
  rw [definitions, withBefore_concat, List.filterMap_append, ← definitions]
  cases hs : s.definition? ss <;> simp [hs]

private theorem ofStatements_strays (lines : List Nat) :
    Event.ofStatements 0 0 (lines.map (⟨·, .stray⟩)) = lines.map .ignored ∧
      definitions (lines.map (⟨·, .stray⟩)) = [] := by
  induction lines using List.reverseRecOn with
  | nil => exact ⟨rfl, rfl⟩
  | append_singleton lines n ih =>
    rw [List.map_append, List.map_singleton, ofStatements_concat, definitions_concat, ih.1, ih.2]
    simp [Event.ofStatement, SourceStatement.definition?]

/-- Lines outside of sections and then statements of sections are ignored lines and then
definitions. -/
theorem ofStatements_eq (lines : List Nat) {ss : List SourceStatement}
    (h : ∀ s ∈ ss, s.statement ≠ .stray) :
    Event.ofStatements 0 0 (lines.map (⟨·, .stray⟩) ++ ss) = lines.map .ignored ++
      (definitions (lines.map (⟨·, .stray⟩) ++ ss)).map Event.ofDefinition := by
  induction ss using List.reverseRecOn with
  | nil => simp [ofStatements_strays]
  | append_singleton ss s ih =>
    obtain ⟨hss, hs⟩ := List.forall_mem_append.mp h
    rw [← List.append_assoc, ofStatements_concat, ih hss, ofStatement_eq (hs s List.mem_cons_self),
      definitions_concat, List.map_append, List.append_assoc]

private theorem isSome_of_mem_inSections {current : Section} {ls : List SourceLine}
    {x : Option Section × SourceLine} (h : x ∈ inSections (some current) ls) :
    x.1.isSome = true := by
  induction ls generalizing current with
  | nil => cases h
  | cons l ls ih =>
    rw [inSections] at h
    split at h
    · exact ih h
    · rcases List.mem_cons.mp h with rfl | h
      · rfl
      · exact ih h

private theorem exists_inSections_none (ls : List SourceLine) :
    ∃ rest, inSections none ls =
        (ls.takeWhile fun l => (Section.parse? l.code).isNone).map (none, ·) ++ rest ∧
      ∀ x ∈ rest, x.1.isSome = true := by
  induction ls with
  | nil => exact ⟨[], rfl, by simp⟩
  | cons l ls ih =>
    rw [inSections]
    cases hsection : Section.parse? l.code with
    | none =>
      obtain ⟨rest, hrest, hsome⟩ := ih
      exact ⟨rest, by simp [hsection, hrest], hsome⟩
    | some next =>
      exact ⟨inSections (some next) ls, by simp [hsection], fun x => isSome_of_mem_inSections⟩

private theorem mapM_readLine_none (ls : List SourceLine) :
    (ls.map (none, ·)).mapM readLine = .ok (ls.map fun l => ⟨l.number, .stray⟩) := by
  rw [mapM_eq_ok]
  induction ls with
  | nil => exact .nil
  | cons l ls ih => exact .cons rfl ih

private theorem exists_statements {source : String} {ss : List SourceStatement}
    (h : readLines none (SourceLine.ofText source) = .ok ss) :
    ∃ rest, ss = ((strayLines source).map (·.number)).map (⟨·, .stray⟩) ++ rest ∧
      ∀ s ∈ rest, s.statement ≠ .stray := by
  obtain ⟨xs, hxs, hsome⟩ := exists_inSections_none (SourceLine.ofText source)
  rw [readLines_eq_mapM, hxs, List.mapM_append, mapM_readLine_none] at h
  obtain ⟨strays, hstrays, h⟩ := bind_eq_ok.mp h
  obtain ⟨rest, hrest, h⟩ := bind_eq_ok.mp h
  cases hstrays
  cases h
  refine ⟨rest, by rw [List.map_map]; rfl, ?_⟩
  intro s hs hstray
  obtain ⟨x, hx, hread⟩ := exists_of_mem_mapM hrest hs
  have hsection := Statement.section?_of_read (readLine_eq_ok.mp hread).2
  have hx := hsome x hx
  rw [← hsection, hstray] at hx
  cases hx

private theorem upcase_of_mem_definitions {source : String} {ss : List SourceStatement}
    (h : readLines none (SourceLine.ofText source) = .ok ss) {d : String × Symbol}
    (hd : d ∈ definitions ss) : Text.upcase d.1 = d.1 := by
  obtain ⟨s, hs, hlabel, _⟩ := exists_of_mem_definitions hd
  obtain ⟨_, raw, _, hread⟩ := standsIn_of_mem h hs
  exact (Statement.isName_of_label? hread hlabel).upcase

/-! ## What a program records -/

/-- The program records the history of its source: the symbols list each name once, by its first
definition, and hold the last; and there are notices for the stray lines and the redefinitions. -/
structure Program.Records (p : Program) (source : String) (ss : List SourceStatement) : Prop where
  names : p.symbols.entries.map Prod.fst = ((definitions ss).map Prod.fst).eraseDups
  entries : ∀ e ∈ p.symbols.entries, lastDefinition (definitions ss) e.1 = some e.2
  lookup : ∀ name, p.symbols.get? name = lastDefinition (definitions ss) (Text.upcase name)
  anyCase : ∀ d ∈ definitions ss, ∀ name, Text.sameIgnoringCase name d.1 = true →
    p.symbols.get? name = lastDefinition (definitions ss) d.1
  notices : p.notices = (strayLines source).map (fun l => ⟨.stray, l.number, l.raw⟩) ++
    redefinitions p.raw (definitions ss)
  levels : ∀ n ∈ p.notices, n.kind.level = if n.kind = .overridden then .note else .warn
  raw : ∀ n ∈ p.notices, 1 ≤ n.line ∧ (textLines source)[n.line - 1]? = some n.raw
  length : p.symbols.entries.length ≤ (definitions ss).length ∧
    p.notices.length = 2 * ((definitions ss).length - p.symbols.entries.length) +
      (strayLines source).length

section Recorded

variable {source : String} {p : Program} {ss : List SourceStatement}

private theorem Program.parts_of_readLines
    (hss : readLines none (SourceLine.ofText source) = .ok ss)
    (hp : p = ofStatements (textLines source).toArray ss) :
    p.symbols = ((definitions ss).map Event.ofDefinition).foldl Event.apply .empty ∧
      p.notices = (strayLines source).map (fun l => ⟨.stray, l.number, p.raw l.number⟩) ++
        redefinitions p.raw (definitions ss) := by
  obtain ⟨rest, hrest, hsections⟩ := exists_statements hss
  have hevents : Event.ofStatements 0 0 ss = ((strayLines source).map (·.number)).map .ignored ++
      (definitions ss).map Event.ofDefinition := by
    rw [hrest]
    exact ofStatements_eq _ hsections
  have hupper : ∀ d ∈ definitions ss, Text.upcase d.1 = d.1 := fun d =>
    upcase_of_mem_definitions hss
  have hsymbols : p.symbols = (Event.ofStatements 0 0 ss).foldl Event.apply .empty := by
    rw [hp]
    rfl
  have hnotices : p.notices = Event.allNotices p.raw .empty (Event.ofStatements 0 0 ss) := by
    rw [hp]
    rfl
  rw [hsymbols, hnotices, hevents]
  constructor
  · rw [List.foldl_append, Event.foldl_apply_ignored]
  · rw [Event.allNotices_append, Event.allNotices_ignored, Event.foldl_apply_ignored,
      Event.allNotices_ofDefinitions _ hupper, List.map_map]
    rfl

private theorem Program.raw_of_mem_strayLines (h : Program.ofSource source = .ok p) {l : SourceLine}
    (hl : l ∈ strayLines source) :
    1 ≤ l.number ∧ (textLines source)[l.number - 1]? = some l.raw ∧ p.raw l.number = l.raw := by
  obtain ⟨i, hraw, hnumber, _⟩ := mem_numbered ((List.takeWhile_prefix _).subset hl)
  have hi : l.number - 1 = i := by omega
  have hlt := (List.getElem?_eq_some_iff.mp hraw).1
  have hsource := Program.getElem?_textLines h (n := l.number) (by omega)
  rw [hi, hraw] at hsource
  exact ⟨by omega, by rw [hi, hraw], (Option.some.inj hsource).symm⟩

private theorem Program.raw_of_mem_definitions (h : Program.ofSource source = .ok p)
    (hss : readLines none (SourceLine.ofText source) = .ok ss) {d : String × Symbol}
    (hd : d ∈ definitions ss) :
    1 ≤ d.2.line ∧ (textLines source)[d.2.line - 1]? = some (p.raw d.2.line) := by
  obtain ⟨s, hs, _, hline⟩ := exists_of_mem_definitions hd
  have hbounds := (standsIn_of_mem hss hs).line_le
  rw [hline] at hbounds
  exact ⟨hbounds.1, Program.getElem?_textLines h hbounds⟩

/-- For every source that can be read, each name is listed once, in the order of first definitions,
with its last definition; and there is a notice for each line before the first section, and two for
each definition of a name that was defined before. -/
theorem Program.ofSource_records (h : Program.ofSource source = .ok p) :
    ∃ ss, readLines none (SourceLine.ofText source) = .ok ss ∧ p.Records source ss := by
  obtain ⟨ss, hss, hp⟩ := Program.ofSource_eq_ok.mp h
  have hupper : ∀ d ∈ definitions ss, Text.upcase d.1 = d.1 := fun d =>
    upcase_of_mem_definitions hss
  obtain ⟨hsymbols, hnotices⟩ := Program.parts_of_readLines hss hp
  have hstrays : ∀ l ∈ strayLines source,
      (⟨.stray, l.number, p.raw l.number⟩ : Notice) = ⟨.stray, l.number, l.raw⟩ := by
    intro l hl
    rw [(Program.raw_of_mem_strayLines h hl).2.2]
  rw [List.map_congr_left hstrays] at hnotices
  have hnames : p.symbols.entries.map Prod.fst = ((definitions ss).map Prod.fst).eraseDups := by
    rw [hsymbols, Event.map_fst_foldl_apply hupper]
  have hlookup (name : String) :
      p.symbols.get? name = lastDefinition (definitions ss) (Text.upcase name) := by
    rw [hsymbols, Event.get?_ofDefinitions hupper]
  have hlength := length_redefinitions p.raw (definitions ss)
  rw [← hnames, List.length_map] at hlength
  refine ⟨ss, hss, hnames, ?_, hlookup, ?_, hnotices, ?_, ?_, ?_⟩
  · intro e he
    rw [hsymbols] at he
    exact Event.lastDefinition_of_mem_entries hupper he
  · intro d hd name hsame
    rw [hlookup, Text.upcase_eq_of_sameIgnoringCase hsame, hupper d hd]
  · intro n _
    cases n.kind <;> rfl
  · intro n hn
    rw [hnotices, List.mem_append] at hn
    rcases hn with hn | hn
    · obtain ⟨l, hl, rfl⟩ := List.mem_map.mp hn
      obtain ⟨hpos, hraw, _⟩ := Program.raw_of_mem_strayLines h hl
      exact ⟨hpos, hraw⟩
    · obtain ⟨hraw, d, hd, hline⟩ := of_mem_redefinitions hn
      rw [hraw, hline]
      exact Program.raw_of_mem_definitions h hss hd
  · rw [hnotices, List.length_append, List.length_map]
    omega

end Recorded

/-- A label of both sections, in both cases: each note leads to the definition just before. -/
theorem Program.ofSource_records_thrice : ∃ p ss,
    Program.ofSource "x\n.text\na:\n.data\nA: .byte 1\nb: .word 2\n.text\na:" = .ok p ∧
      p.Records "x\n.text\na:\n.data\nA: .byte 1\nb: .word 2\n.text\na:" ss ∧
      p.symbols.entries = [("A", ⟨.text, 0, 8⟩), ("B", ⟨.data, 2, 6⟩)] ∧
      p.notices = [⟨.stray, 1, "x"⟩, ⟨.redefined "A", 5, "A: .byte 1"⟩, ⟨.overridden, 3, "a:"⟩,
        ⟨.redefined "A", 8, "a:"⟩, ⟨.overridden, 5, "A: .byte 1"⟩] := by
  have hlines : textLines "x\n.text\na:\n.data\nA: .byte 1\nb: .word 2\n.text\na:" =
      ["x", ".text", "a:", ".data", "A: .byte 1", "b: .word 2", ".text", "a:"] := by
    set_option maxRecDepth 4000 in decide
  have hstatements : readLines none (SourceLine.numbered 1
        ["x", ".text", "a:", ".data", "A: .byte 1", "b: .word 2", ".text", "a:"]) =
      .ok [⟨1, .stray⟩, ⟨3, .code (some "A") none⟩, ⟨5, .data (some "A") .byte [1]⟩,
        ⟨6, .data (some "B") .word [0, 2]⟩, ⟨8, .code (some "A") none⟩] := by
    set_option maxRecDepth 4000 in decide
  have hp := Program.ofSource_eq_ok.mpr
    ⟨_, by rw [SourceLine.ofText, hlines, hstatements], congrArg₂ _ (congrArg _ hlines.symm) rfl⟩
  obtain ⟨ss, _, hrecords⟩ := Program.ofSource_records hp
  exact ⟨_, ss, hp, hrecords, by decide, by decide⟩

end SuperH
