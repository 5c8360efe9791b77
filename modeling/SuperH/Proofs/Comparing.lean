import SuperH.Proofs.Directives
import SuperH.Proofs.Dumping

/-!
# Data and expectations agree

A list of values can be written in two ways: as directives of a data section, and as the values that
a comparison expects. Both stand for the same bytes. So a dump of the assembled data shows no
difference from the expectation, and where bytes of the expectation are changed, it shows those.
-/
namespace SuperH

/-! ## Characters of literals -/

theorem Text.isAlphanum_of_digit? {radix d : Nat} {c : Char} (h : digit? radix c = some d) :
    c.isAlphanum = true := by
  have hrange : '0' ≤ c ∧ c ≤ '9' ∨ 'a' ≤ c ∧ c ≤ 'f' ∨ 'A' ≤ c ∧ c ≤ 'F' := by
    unfold digit? at h
    grind
  have hascii : c.toNat < 128 := by
    rcases hrange with h | h | h
    all_goals exact Nat.lt_of_le_of_lt h.2 (by decide)
  exact of_ascii (P := fun c => '0' ≤ c ∧ c ≤ '9' ∨ 'a' ≤ c ∧ c ≤ 'f' ∨ 'A' ≤ c ∧ c ≤ 'F' →
    c.isAlphanum = true) (by decide) hascii hrange

private theorem Text.isAlphanum_of_natural? {radix n : Nat} {s : List Char}
    (h : natural? radix s = some n) :
    s ≠ [] ∧ ∀ c ∈ s, c.isAlphanum = true := by
  have hne : s ≠ [] := by
    rintro rfl
    cases h
  rw [natural?_of_ne_nil hne] at h
  refine ⟨hne, ?_⟩
  have hfold (s : List Char) (start : Nat) (h : s.foldlM (addDigit radix) start = some n) :
      ∀ c ∈ s, c.isAlphanum = true := by
    induction s generalizing start with
    | nil => simp
    | cons c s ih =>
      rw [List.foldlM_cons] at h
      obtain ⟨next, hnext, h⟩ := Option.bind_eq_some_iff.mp h
      obtain ⟨d, hd, _⟩ := Option.map_eq_some_iff.mp hnext
      exact List.forall_mem_cons.mpr ⟨isAlphanum_of_digit? hd, ih next h⟩
  exact hfold s 0 h

def Literal.isNumeral (c : Char) : Bool :=
  c.isAlphanum || c == '+' || c == '-'

namespace Literal

private theorem of_isNumeral {P : Char → Prop} (h : ∀ n < 128, isNumeral (Char.ofNat n) = true →
    P (Char.ofNat n)) {c : Char} (hc : isNumeral c = true) : P c := by
  have hascii : c.toNat < 128 := by
    simp only [isNumeral, Bool.or_eq_true, beq_iff_eq] at hc
    rcases hc with (hc | rfl) | rfl
    · apply ascii_of_continuesIdentifier
      simp [continuesIdentifier, hc]
    · decide
    · decide
  exact Text.of_ascii (P := fun c => isNumeral c = true → P c) h hascii hc

private theorem plain_of_isNumeral {s : List Char} (h : ∀ c ∈ s, isNumeral c = true) :
    Text.Plain s :=
  fun c hc =>
    of_isNumeral (P := fun c => c ≠ ';' ∧ c ≠ '\n' ∧ c ≠ '\r') (by decide) (h c hc)

private theorem isNumeral_of_toLower {c : Char} (h : c.toLower.isAlphanum = true) :
    isNumeral c = true := by
  by_cases hascii : c.toNat < 128
  · exact Text.of_ascii (P := fun c => c.toLower.isAlphanum = true → isNumeral c = true)
      (by decide) hascii h
  · rw [Text.toLower_of_not_ascii hascii] at h
    simp [isNumeral, h]

private theorem mem_takeSign {s : List Char} {c : Char} (h : c ∈ s) :
    c = '-' ∨ c = '+' ∨ c ∈ (takeSign s).2 := by
  unfold takeSign
  split
  · rcases List.mem_cons.mp h with h | h
    · exact .inl h
    · exact .inr (.inr h)
  · rcases List.mem_cons.mp h with h | h
    · exact .inr (.inl h)
    · exact .inr (.inr h)
  · exact .inr (.inr h)

private theorem mem_takeRadix {s : List Char} {c : Char} (h : c ∈ s) :
    c.isAlphanum = true ∨ c ∈ (takeRadix s).2 := by
  unfold takeRadix
  split
  case h_4 => exact .inr h
  all_goals
    simp only [List.mem_cons] at h
    rcases h with rfl | rfl | h
    · exact .inl (by decide)
    · exact .inl (by decide)
    · exact .inr h

private theorem isNumeral_of_number? {s : List Char} {n : Int} (h : number? s = some n) :
    s ≠ [] ∧ ∀ c ∈ s, isNumeral c = true := by
  constructor
  · rintro rfl
    cases h
  · intro c hc
    simp only [number?] at h
    obtain ⟨m, hm, _⟩ := Option.map_eq_some_iff.mp h
    obtain ⟨k, hm, _⟩ := Option.bind_eq_some_iff.mp hm
    have hdigits := (Text.isAlphanum_of_natural? (Option.eq_some_of_filter_eq_some hm)).2
    rcases mem_takeSign hc with rfl | rfl | hc
    · decide
    · decide
    · apply isNumeral_of_toLower
      rcases mem_takeRadix (List.mem_map_of_mem (f := Char.toLower) hc) with hc | hc
      · exact hc
      · exact hdigits _ hc

private theorem isNumeral_of_value {v : String} {n : Int} (h : value v = .ok n)
    (hsolid : ∀ c ∈ v.toList, Text.isBlank c = false) :
    v.toList ≠ [] ∧ ∀ c ∈ v.toList, isNumeral c = true := by
  have htrimmed := Text.trimmed_of_solid hsolid
  simp only [value, htrimmed.trim_eq_self] at h
  cases hbinary : binaryDigits? v.toList with
  | none =>
    rw [hbinary] at h
    simp only [number, String.ofList_toList, htrimmed.trim_eq_self] at h
    cases hnumber : number? v.toList with
    | none =>
      rw [hnumber] at h
      cases h
    | some m => exact isNumeral_of_number? hnumber
  | some digits =>
    unfold binaryDigits? at hbinary
    split at hbinary
    · rename_i c rest hv
      split at hbinary
      · rename_i hform
        rw [hv]
        refine ⟨by simp, List.forall_mem_cons.mpr ⟨?_, ?_⟩⟩
        · rcases hform.1 with rfl | rfl <;> decide
        · intro d hd
          have hbit := List.all_eq_true.mp hform.2.2 d hd
          rcases of_decide_eq_true hbit with rfl | rfl <;> decide
      · cases hbinary
    · cases hbinary

end Literal

/-! ## Values in both notations -/

inductive ItemKind where
  | byte | word | long
deriving DecidableEq

namespace ItemKind

def directive : ItemKind → Directive
  | .byte => .byte
  | .word => .word
  | .long => .long

def mark : ItemKind → Char
  | .byte => 'B'
  | .word => 'W'
  | .long => 'L'

def width (kind : ItemKind) : Nat :=
  kind.directive.width

end ItemKind

/-- A value as it is written, which fits its kind. -/
structure DataItem where
  kind : ItemKind
  literal : String
  value : Int
  noBlanks : literal.toList.any Text.isBlank = false
  reads : Literal.value literal = .ok value
  fits : Fits value (8 * kind.width)

namespace DataItem

def directiveLine (x : DataItem) : String :=
  x.kind.directive.name ++ " " ++ x.literal

def expectedLine (x : DataItem) : String :=
  String.ofList [x.kind.mark, '.'] ++ x.literal

def bytes (x : DataItem) : List UInt8 :=
  Literal.lowBytes x.value x.kind.width

def source (items : List DataItem) : String :=
  String.join ((".data" :: items.map directiveLine).map (· ++ "\n"))

/-- The same values, expected from the address that `hex` writes. -/
def expectedText (hex : String) (items : List DataItem) : String :=
  String.join ((("x: 0x" ++ hex) :: items.map expectedLine).map (· ++ "\n"))

/-- Words and longs have an even number of bytes before them, if `offset` bytes come first. -/
def Aligned (offset : Nat) : List DataItem → Prop
  | [] => True
  | x :: rest => (x.kind ≠ .byte → offset % 2 = 0) ∧ Aligned (offset + x.kind.width) rest

def totalSize (items : List DataItem) : Nat :=
  (items.map (·.kind.width)).sum

private theorem length_bytes (x : DataItem) : x.bytes.length = x.kind.width :=
  Literal.length_lowBytes x.value x.kind.width

theorem length_flatMap_bytes (items : List DataItem) :
    (items.flatMap bytes).length = totalSize items := by
  rw [List.length_flatMap, totalSize]
  simp only [length_bytes]

theorem solid (x : DataItem) : ∀ c ∈ x.literal.toList, Text.isBlank c = false := by
  simpa using x.noBlanks

private theorem literal_ne_nil (x : DataItem) : x.literal.toList ≠ [] :=
  (Literal.isNumeral_of_value x.reads x.solid).1

private theorem of_mem_literal {P : Char → Prop}
    (h : ∀ n < 128, Literal.isNumeral (Char.ofNat n) = true → P (Char.ofNat n)) (x : DataItem)
    {c : Char} (hc : c ∈ x.literal.toList) : P c :=
  Literal.of_isNumeral h ((Literal.isNumeral_of_value x.reads x.solid).2 c hc)

private theorem plain_literal (x : DataItem) : Text.Plain x.literal.toList :=
  Literal.plain_of_isNumeral (Literal.isNumeral_of_value x.reads x.solid).2

private theorem bigEndian_value (x : DataItem) :
    Literal.bigEndian x.value x.kind.width = .ok x.bytes :=
  if_pos x.fits

/-! ## The data section -/

theorem payload_literal (x : DataItem) :
    x.kind.directive.payload x.literal = .ok x.bytes := by
  have hcomma : ',' ∉ x.literal.toList := fun hmem =>
    x.of_mem_literal (P := (· ≠ ',')) (by decide) hmem rfl
  have hvalues : x.kind.directive.payload x.literal =
      Directive.values x.kind.width x.literal := by
    rw [ItemKind.width]
    cases x.kind <;> rfl
  rw [hvalues, Directive.values, (Text.trimmed_of_solid x.solid).trim_eq_self,
    if_neg x.literal_ne_nil, Text.splitOn_of_not_mem hcomma]
  simp [List.mapM_cons, String.ofList_toList, x.reads, x.bigEndian_value, bind, Except.bind, pure,
    Except.pure]

private theorem reads_directiveLine (x : DataItem) :
    Reads .data x.directiveLine (.data none x.kind.directive x.bytes) := by
  have hline : x.directiveLine =
      String.ofList (x.kind.directive.name.toList ++ ' ' :: x.literal.toList) := by
    simp [directiveLine, String.ext_iff]
  have htrimmed : Text.Trimmed (x.kind.directive.name.toList ++ ' ' :: x.literal.toList) :=
    (Text.trimmed_of_solid x.kind.directive.name_solid).append (Text.trimmed_of_solid x.solid)
      x.kind.directive.name_ne_nil x.literal_ne_nil [' ']
  have hplain : Text.Plain (x.kind.directive.name.toList ++ ' ' :: x.literal.toList) :=
    x.kind.directive.name_plain.append
      (Text.Plain.append (s := [' ']) (by simp [Text.Plain]) x.plain_literal)
  have hcode : lineCode x.directiveLine =
      String.ofList (x.kind.directive.name.toList ++ ' ' :: x.literal.toList) := by
    rw [hline]
    apply lineCode_eq_self
    all_goals rwa [String.toList_ofList]
  have hcolon : x.literal.toList.head? ≠ some ':' := fun hhead =>
    x.of_mem_literal (P := (· ≠ ':')) (by decide) (List.mem_of_head? hhead) rfl
  refine ⟨by rwa [hline, String.toList_ofList], ?_, ?_, ?_⟩
  · rw [hcode]
    simp
  · rw [hcode]
    apply x.kind.directive.parse?_name
    intro c hc
    cases hc
    decide
  · rw [hcode, Statement.read_directive _ (Text.trimmed_of_solid x.solid) hcolon,
      String.ofList_toList, x.payload_literal]
    rfl

def statements (k : Nat) : List DataItem → List SourceStatement
  | [] => []
  | x :: rest => ⟨k, .data none x.kind.directive x.bytes⟩ :: statements (k + 1) rest

private theorem readLines_directiveLines (k : Nat) (items : List DataItem) :
    readLines (some .data) (SourceLine.numbered k (items.map directiveLine)) =
      .ok (statements k items) := by
  induction items generalizing k with
  | nil => rfl
  | cons x items ih => exact readLines_cons x.reads_directiveLine (ih (k + 1))

private theorem ofSource_source (items : List DataItem) :
    ∃ lines, Program.ofSource (source items) =
      .ok (Program.ofStatements lines (statements 2 items)) := by
  have hplain : ∀ line ∈ ".data" :: items.map directiveLine, Text.Plain line.toList := by
    intro line hline
    rcases List.mem_cons.mp hline with rfl | hline
    · simp [Text.Plain]
    · obtain ⟨x, _, rfl⟩ := List.mem_map.mp hline
      exact x.reads_directiveLine.plain
  have hopen : lineCode ".data" = ".data" ∧ Section.parse? ".data" = some .data := by decide
  refine ⟨_, Program.ofSource_eq_ok.mpr ⟨_, ?_, rfl⟩⟩
  rw [SourceLine.ofText, source, textLines_join_of_plain hplain, SourceLine.numbered, hopen.1,
    if_neg (by decide), readLines, hopen.2]
  exact readLines_directiveLines 2 items

/-- With words and longs at even offsets, the stream holds the values and nothing else. -/
theorem map_value_statements {offset : Nat} {items : List DataItem} (h : Aligned offset items)
    (k : Nat) :
    (dataFrom offset (statements k items)).map (·.value) = items.flatMap bytes := by
  induction items generalizing offset k with
  | nil => rfl
  | cons x items ih =>
    have hstart : x.kind.directive.startAt offset = offset := by
      rw [Directive.startAt, if_neg]
      rintro ⟨hwide, hodd⟩
      have hkind : x.kind ≠ .byte := by
        intro hbyte
        rw [hbyte] at hwide
        exact absurd hwide (by decide)
      have heven := h.1 hkind
      omega
    have hbytes : (SourceStatement.bytesAt offset
        ⟨k, .data none x.kind.directive x.bytes⟩).map (·.value) = x.bytes := by
      rw [SourceStatement.bytesAt, Directive.map_value_bytesAt, hstart, Nat.sub_self]
      rfl
    have hlength := congrArg List.length hbytes
    rw [List.length_map, length_bytes] at hlength
    rw [statements, dataFrom, List.map_append, hbytes, hlength, ih h.2, List.flatMap_cons]

private theorem code_statements (k : Nat) (items : List DataItem) :
    (statements k items).filterMap SourceStatement.code? = [] := by
  induction items generalizing k with
  | nil => rfl
  | cons x items ih => exact ih (k + 1)

private theorem vectors_statements (k : Nat) (items : List DataItem) :
    (statements k items).filterMap SourceStatement.vector? = [] := by
  induction items generalizing k with
  | nil => rfl
  | cons x items ih => exact ih (k + 1)

theorem assemble_source {l : Layout} {items : List DataItem} (hl : l.validate = .ok ())
    (haligned : Aligned 0 items) (hsize : totalSize items ≤ l.segmentSize) :
    ∃ a, assemble (source items) l = .ok a ∧
      a.program.data.bytes.map (·.value) = items.flatMap bytes := by
  obtain ⟨lines, hp⟩ := ofSource_source items
  have hbytes := map_value_statements haligned 2
  obtain ⟨⟨_, heven⟩, _, hentries, _⟩ := Layout.validate_eq_ok.mp hl
  have hfits : (Program.ofStatements lines (statements 2 items)).data.words.length ≤
      l.segmentSize / 2 := by
    have hlength := congrArg List.length hbytes
    rw [List.length_map, length_flatMap_bytes] at hlength
    rw [DataSection.length_words, DataSection.offset, Program.ofStatements, hlength]
    omega
  have hvectable : ∃ size, l.vectableSize 0 = .ok size ∧ size ≤ l.segmentSize := by
    unfold Layout.vectableSize
    cases hn : l.vectableEntries with
    | none => exact ⟨0, rfl, Nat.zero_le _⟩
    | some n => exact ⟨4 * n, rfl, hentries n hn⟩
  obtain ⟨size, hvectable, htable⟩ := hvectable
  have hplace : (Program.ofStatements lines (statements 2 items)).place l =
      .ok ⟨l.textOrigin, size, l.textOrigin + size, l.dataOrigin⟩ := by
    refine Program.place_eq_ok.mpr ⟨size, ?_, htable, ?_, hfits, rfl⟩
    · rwa [Program.ofStatements, vectors_statements]
    · rw [Program.ofStatements, code_statements]
      exact Nat.zero_le _
  have hlink : (Program.ofStatements lines (statements 2 items)).link
      ⟨l.textOrigin, size, l.textOrigin + size, l.dataOrigin⟩ = .ok [] := by
    rw [Program.link, Program.ofStatements, code_statements]
    rfl
  exact ⟨_, assemble_of_link hl hp hplace hlink, hbytes⟩

/-! ## The expectation -/

end DataItem

namespace Expectation

private theorem afterColon?_append (s : List Char) {t : List Char} (h : ':' ∉ t) :
    afterColon? (s ++ ':' :: t) = some t := by
  have htake : ∀ c ∈ t.reverse, (c != ':') = true := by
    intro c hc
    rw [bne_iff_ne]
    rintro rfl
    exact h (List.mem_reverse.mp hc)
  rw [afterColon?, if_pos (by simp), List.reverse_append, List.reverse_cons, List.append_assoc,
    List.takeWhile_append_of_pos htake, List.singleton_append,
    List.takeWhile_cons_of_neg (by simp), List.append_nil, List.reverse_reverse]

private theorem startAddress_hex {hex : String} {n : Nat} (h : Text.natural? 16 hex.toList = some n)
    (hn : n < 2 ^ 32) :
    Text.Plain ("x: 0x" ++ hex).toList ∧ lineCode ("x: 0x" ++ hex) = "x: 0x" ++ hex ∧
      startAddress ("x: 0x" ++ hex) = .ok n := by
  obtain ⟨hne, halnum⟩ := Text.isAlphanum_of_natural? h
  have hnumeral : ∀ c ∈ hex.toList, Literal.isNumeral c = true := by
    intro c hc
    simp [Literal.isNumeral, halnum c hc]
  have hsolid : ∀ c ∈ hex.toList, Text.isBlank c = false := fun c hc =>
    Literal.of_isNumeral (P := (Text.isBlank · = false)) (by decide) (hnumeral c hc)
  have hplain : Text.Plain hex.toList := Literal.plain_of_isNumeral hnumeral
  have hcolon : ':' ∉ hex.toList := fun hmem => absurd (halnum _ hmem) (by decide)
  have hplus : hex.toList.head? ≠ some '+' := fun hhead =>
    absurd (halnum _ (List.mem_of_head? hhead)) (by decide)
  have hlist : ("x: 0x" ++ hex).toList = ['x'] ++ ':' :: ' ' :: '0' :: 'x' :: hex.toList := by
    simp
  have haddr : Text.Trimmed ('0' :: 'x' :: hex.toList) := by
    apply Text.trimmed_of_solid
    simpa using ⟨by decide, by decide, hsolid⟩
  have hline : Text.Trimmed ("x: 0x" ++ hex).toList := by
    rw [hlist]
    exact (Text.trimmed_singleton (by decide)).append haddr (by simp) (by simp) [':', ' ']
  have hlinePlain : Text.Plain ("x: 0x" ++ hex).toList := by
    rw [hlist]
    exact Text.Plain.append (s := ['x', ':', ' ', '0', 'x']) (by simp [Text.Plain]) hplain
  refine ⟨hlinePlain, ?_, ?_⟩
  · exact lineCode_eq_self hline hlinePlain
  · have hvalue : Text.unsigned? 16 (Nat.pow 2 32) hex.toList = some n := by
      rw [Text.unsigned?_of_head hplus, h]
      simpa using hn
    rw [startAddress, hlist, afterColon?_append ['x'] (by simpa using hcolon)]
    simp only [haddr.trim_cons (c := ' ') (by decide), Text.dropHexMark, hvalue]

end Expectation

namespace DataItem

private theorem itemBytes_expectedLine (x : DataItem) :
    Text.Plain x.expectedLine.toList ∧ lineCode x.expectedLine = x.expectedLine ∧
      Expectation.itemBytes x.expectedLine = .ok x.bytes := by
  have hlist : x.expectedLine.toList = x.kind.mark :: '.' :: x.literal.toList := by
    simp [expectedLine]
  have hmark : Text.isBlank x.kind.mark = false ∧ Text.Plain [x.kind.mark] := by
    cases x.kind <;> exact ⟨by decide, by simp [Text.Plain, ItemKind.mark]⟩
  have htrimmed : Text.Trimmed x.expectedLine.toList := by
    rw [hlist]
    apply Text.trimmed_of_solid
    simpa using ⟨hmark.1, by decide, x.solid⟩
  have hplain : Text.Plain x.expectedLine.toList := by
    rw [hlist]
    exact hmark.2.append (Text.Plain.append (s := ['.']) (by simp [Text.Plain]) x.plain_literal)
  have hitem : Expectation.item? x.expectedLine.toList =
      some (x.kind.width, x.literal.toList) := by
    rw [hlist]
    cases x.kind <;> rfl
  refine ⟨hplain, lineCode_eq_self htrimmed hplain, ?_⟩
  simp only [Expectation.itemBytes, hitem, String.ofList_toList, x.reads, bind, Except.bind,
    x.bigEndian_value]

private theorem parse_expectedText {hex : String} {n : Nat}
    (h : Text.natural? 16 hex.toList = some n)
    (hn : n < 2 ^ 32) (items : List DataItem) :
    Expectation.parse (expectedText hex items) = .ok ⟨n, items.flatMap bytes⟩ := by
  obtain ⟨hplain, hcode, hstart⟩ := Expectation.startAddress_hex h hn
  have hlines : ∀ line ∈ ("x: 0x" ++ hex) :: items.map expectedLine, Text.Plain line.toList := by
    intro line hline
    rcases List.mem_cons.mp hline with rfl | hline
    · exact hplain
    · obtain ⟨x, _, rfl⟩ := List.mem_map.mp hline
      exact x.itemBytes_expectedLine.1
  have hitems : ∀ x ∈ items, lineCode x.expectedLine ≠ "" ∧
      Expectation.itemBytes (lineCode x.expectedLine) = .ok x.bytes := by
    intro x _
    rw [x.itemBytes_expectedLine.2.1]
    exact ⟨by simp [expectedLine], x.itemBytes_expectedLine.2.2⟩
  have hfirst : "x: 0x" ++ hex ≠ "" := by simp
  simp only [Expectation.parse, SourceLine.ofText, expectedText, textLines_join_of_plain hlines,
    SourceLine.numbered, hcode, hfirst, if_false]
  rw [hstart, SourceLine.mapM_numbered hitems, List.flatMap_def]
  rfl

end DataItem

/-! ## Differences -/

namespace Expectation

/-- The differences that changed bytes make, when `bytes` stand in memory from `start` on. -/
def changes (start : Nat) (bytes changed : List UInt8) : List Difference :=
  ((List.range bytes.length).filter fun i => changed[i]? ≠ bytes[i]?).map fun i =>
    ⟨start + i, changed.getD i 0, bytes[i]?⟩

private theorem changes_self (start : Nat) (bytes : List UInt8) :
    changes start bytes bytes = [] := by
  simp [changes]

private theorem pairwise_changes (start : Nat) (bytes changed : List UInt8) :
    ((changes start bytes changed).map (·.addr)).Pairwise (· < ·) := by
  have haddr : (changes start bytes changed).map (·.addr) =
      ((List.range bytes.length).filter fun i => changed[i]? ≠ bytes[i]?).map (start + ·) := by
    rw [changes, List.map_map]
    rfl
  rw [haddr, List.pairwise_map]
  apply (List.pairwise_lt_range.filter _).imp
  intro i j hij
  omega

private theorem zipIdx_eq_map_range (xs : List UInt8) :
    xs.zipIdx = (List.range xs.length).map fun i => (xs.getD i 0, i) := by
  apply List.ext_getElem?
  intro i
  by_cases hi : i < xs.length
  · simp [hi]
  · simp [hi]

/-- Comparing changed bytes finds the changes, up to the end of the address space. -/
theorem differences_changed {start : Nat} {bytes changed : List UInt8}
    (hlength : changed.length = bytes.length) (hend : start + bytes.length ≤ 2 ^ 32)
    (rest : List UInt8) :
    (mk start changed).differences (bytes ++ rest) start = changes start bytes changed := by
  have haddr : ∀ i ∈ List.range bytes.length, (start + i) % Nat.pow 2 32 = start + i := by
    intro i hi
    rw [List.mem_range] at hi
    rw [Nat.pow_eq]
    omega
  have hbyte : ∀ i ∈ List.range bytes.length,
      dumpByte? (bytes ++ rest).toArray start (start + i) = bytes[i]? := by
    intro i hi
    rw [dumpByte?, if_pos (Nat.le_add_right start i), Nat.add_sub_cancel_left,
      List.getElem?_toArray, List.getElem?_append_left (List.mem_range.mp hi)]
  rw [differences, zipIdx_eq_map_range, List.filterMap_map, changes, ← List.filterMap_eq_map,
    List.filterMap_filter, hlength]
  apply List.filterMap_congr
  intro i hi
  have hchanged : changed[i]? = some (changed.getD i 0) := by
    have hlt : i < changed.length := hlength ▸ List.mem_range.mp hi
    simp [hlt]
  simp only [Function.comp_apply, haddr i hi, hbyte i hi]
  by_cases hsame : bytes[i]? = some (changed.getD i 0)
  · rw [if_pos hsame, if_neg (by simp [hchanged.trans hsame.symm])]
  · have hother : changed[i]? ≠ bytes[i]? := fun h => hsame (h.symm.trans hchanged)
    rw [if_neg hsame, if_pos (by simpa using hother)]

end Expectation

/-- Values at even offsets, written in both ways, give the same bytes: comparing the expectation
with the dump of the assembled data shows nothing, and comparing changed bytes shows the changes in
order of address, beside the bytes in memory. -/
theorem DataItem.differences_eq_changes {l : Layout} {items : List DataItem} {hex : String}
    (hl : l.validate = .ok ()) (haligned : Aligned 0 items)
    (hsize : totalSize items ≤ l.segmentSize)
    (hhex : Text.natural? 16 hex.toList = some l.dataOrigin) :
    ∃ a e dump, assemble (source items) l = .ok a ∧
      Expectation.parse (expectedText hex items) = .ok e ∧
      Dump.parse (MemoryWord.render a.image.data) = .ok dump ∧
      e.start = l.dataOrigin ∧ e.bytes = a.program.data.bytes.map (·.value) ∧
      e.differences dump l.dataOrigin = [] ∧
      ∀ changed : List UInt8, changed.length = e.bytes.length →
        (Expectation.mk e.start changed).differences dump l.dataOrigin =
            Expectation.changes l.dataOrigin e.bytes changed ∧
          ((Expectation.changes l.dataOrigin e.bytes changed).map (·.addr)).Pairwise (· < ·) := by
  obtain ⟨_, _, _, ⟨_, hdataEnd⟩, _⟩ := Layout.validate_eq_ok.mp hl
  rw [Layout.dataEnd] at hdataEnd
  obtain ⟨a, ha, hbytes⟩ := assemble_source hl haligned hsize
  obtain ⟨_, _, hplace, _, himage⟩ := assemble_eq_ok.mp ha
  have hdump : Dump.parse (MemoryWord.render a.image.data) = .ok (items.flatMap bytes ++
      List.replicate (l.segmentSize - a.program.data.bytes.length) 0) := by
    rw [himage]
    change Dump.parse (MemoryWord.render (Image.dataWords a.program a.place l)) = _
    rw [MemoryWord.parse_render (Image.oneLine_dataWords a.program a.place l),
      Image.flatMap_bytes_dataWords hl hplace, hbytes]
  have hcompare (changed : List UInt8) (hlength : changed.length = (items.flatMap bytes).length) :=
    Expectation.differences_changed hlength
      (show l.dataOrigin + (items.flatMap bytes).length ≤ 2 ^ 32 by
        rw [length_flatMap_bytes]
        omega)
      (List.replicate (l.segmentSize - a.program.data.bytes.length) 0)
  refine ⟨a, _, _, ha, parse_expectedText hhex (by omega) items, hdump, rfl, hbytes.symm, ?_, ?_⟩
  · rw [hcompare _ rfl, Expectation.changes_self]
  · intro changed hlength
    exact ⟨hcompare changed hlength, Expectation.pairwise_changes _ _ _⟩

/-- Values of all widths in five spellings, and an expectation with its second and last byte
changed. -/
theorem DataItem.differences_eq_changes_spellings :
    ∃ items : List DataItem, Aligned 0 items ∧ totalSize items = 9 ∧
      source items = ".data\n.byte -128\n.byte b1010\n.word 0XfF01\n.long +0o17\n.byte 255\n" ∧
      expectedText "0a0" items = "x: 0x0a0\nB.-128\nB.b1010\nW.0XfF01\nL.+0o17\nB.255\n" ∧
      ∃ a dump, assemble (source items) ⟨10, 0x20, 0xA0, none⟩ = .ok a ∧
        Expectation.parse (expectedText "0a0" items) =
          .ok ⟨0xA0, [0x80, 0x0A, 0xFF, 0x01, 0, 0, 0, 0x0F, 0xFF]⟩ ∧
        Dump.parse (MemoryWord.render a.image.data) = .ok dump ∧
        (Expectation.mk 0xA0 [0x80, 0x0A, 0xFF, 0x01, 0, 0, 0, 0x0F, 0xFF]).differences dump 0xA0 =
          [] ∧
        (Expectation.mk 0xA0 [0x80, 0x0B, 0xFF, 0x01, 0, 0, 0, 0x0F, 0]).differences dump 0xA0 =
          [⟨0xA1, 0x0B, some 0x0A⟩, ⟨0xA8, 0, some 0xFF⟩] := by
  let items : List DataItem := [
    ⟨.byte, "-128", -128, by decide, by decide, by decide⟩,
    ⟨.byte, "b1010", 10, by decide, by decide, by decide⟩,
    ⟨.word, "0XfF01", 0xFF01, by decide, by decide, by decide⟩,
    ⟨.long, "+0o17", 15, by decide, by decide, by decide⟩,
    ⟨.byte, "255", 255, by decide, by decide, by decide⟩]
  have haligned : Aligned 0 items := by
    simp [Aligned, items, ItemKind.width, ItemKind.directive, Directive.width]
  have hparse : Expectation.parse (expectedText "0a0" items) =
      .ok ⟨0xA0, [0x80, 0x0A, 0xFF, 0x01, 0, 0, 0, 0x0F, 0xFF]⟩ := by
    decide +kernel
  obtain ⟨a, e, dump, ha, he, hdump, hstart, _, hsame, hchanged⟩ :=
    differences_eq_changes (l := ⟨10, 0x20, 0xA0, none⟩) (by decide) haligned (by decide)
      (show Text.natural? 16 "0a0".toList = some 0xA0 by decide)
  rw [hparse, Except.ok.injEq] at he
  subst he
  exact ⟨items, haligned, by decide, by decide, by decide, a, dump, ha, hparse, hdump, hsame,
    (hchanged [0x80, 0x0B, 0xFF, 0x01, 0, 0, 0, 0x0F, 0] rfl).1⟩

end SuperH
