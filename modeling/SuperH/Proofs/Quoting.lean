import SuperH.Proofs.Directives
import SuperH.Proofs.Joining

/-!
# Strings between quotes

A string is written between quotes with its quotes, backslashes and line ends escaped, and a comment
may follow it. Escapes come back as they were. But the end of the string is found by two rules: a
comment starts after a quote with no backslash before it, while escapes are taken in pairs. The two
agree for all strings but those that end in a backslash.
-/
namespace SuperH

namespace Literal

/-! ## Escapes -/

def escapeChar : Char → List Char
  | '\\' => ['\\', '\\']
  | '"' => ['\\', '"']
  | '\n' => ['\\', 'n']
  | '\r' => ['\\', 'r']
  | c => [c]

/-- The characters that are not written as themselves. -/
def IsEscaped (c : Char) : Prop :=
  c = '\\' ∨ c = '"' ∨ c = '\n' ∨ c = '\r'

instance : DecidablePred IsEscaped := fun c =>
  inferInstanceAs (Decidable (c = '\\' ∨ c = '"' ∨ c = '\n' ∨ c = '\r'))

def escape (s : List Char) : List Char :=
  s.flatMap escapeChar

def quote (s : List Char) : List Char :=
  '"' :: (escape s ++ ['"'])

private theorem escape_cons (c : Char) (s : List Char) :
    escape (c :: s) = escapeChar c ++ escape s :=
  List.flatMap_cons ..

private theorem escapeChar_of_plain {c : Char} (h : ¬ IsEscaped c) : escapeChar c = [c] := by
  simp only [IsEscaped, not_or] at h
  rw [escapeChar]
  all_goals tauto

private theorem escapeChar_ne_nil (c : Char) : escapeChar c ≠ [] := by
  unfold escapeChar
  split <;> simp

private theorem getLast?_escapeChar (c : Char) :
    (escapeChar c).getLast? = some '\\' ↔ c = '\\' := by
  by_cases h : IsEscaped c
  · rcases h with rfl | rfl | rfl | rfl <;> decide
  · rw [escapeChar_of_plain h]
    simp

private theorem getLast?_escape (s : List Char) :
    (escape s).getLast? = some '\\' ↔ s.getLast? = some '\\' := by
  rcases List.eq_nil_or_concat s with rfl | ⟨s, c, rfl⟩
  · simp [escape]
  · have hsplit : escape (s.concat c) = escape s ++ escapeChar c := by simp [escape]
    rw [hsplit, List.getLast?_append_of_ne_nil _ (escapeChar_ne_nil c), getLast?_escapeChar]
    simp

private theorem newline_not_mem_escape (s : List Char) : '\n' ∉ escape s := by
  rw [escape, List.mem_flatMap]
  rintro ⟨c, _, hc⟩
  by_cases h : IsEscaped c
  · rcases h with rfl | rfl | rfl | rfl <;> revert hc <;> decide
  · rw [escapeChar_of_plain h, List.mem_singleton] at hc
    exact h (hc ▸ by decide)

private theorem unescape_escapeChar_append (c : Char) (rest : List Char) :
    unescape (escapeChar c ++ rest) = do return c :: (← unescape rest) := by
  by_cases h : IsEscaped c
  · rcases h with rfl | rfl | rfl | rfl <;> rfl
  · rw [escapeChar_of_plain h, List.singleton_append, unescape]
    all_goals
      intros
      exact h (.inl ‹_›)

private theorem unescape_escape_append (s rest : List Char) :
    unescape (escape s ++ rest) = do return s ++ (← unescape rest) := by
  induction s with
  | nil => cases h : unescape rest <;> simp [escape, h, bind, Except.bind, pure, Except.pure]
  | cons c s ih =>
    rw [escape_cons, List.append_assoc, unescape_escapeChar_append, ih]
    cases unescape rest <;> rfl

end Literal

/-! ## Comments after strings -/

theorem beforeComment_escapeChar (c before : Char) (rest : List Char) :
    beforeComment true before (Literal.escapeChar c ++ rest) = Literal.escapeChar c ++
      beforeComment true ((Literal.escapeChar c).getLast?.getD before) rest := by
  by_cases h : Literal.IsEscaped c
  · rcases h with rfl | rfl | rfl | rfl <;> rfl
  · have hquote : c ≠ '"' := fun hc => h (.inr (.inl hc))
    rw [Literal.escapeChar_of_plain h, List.singleton_append, beforeComment]
    simp [hquote]

private theorem beforeComment_escape (s : List Char) (before : Char) (rest : List Char) :
    beforeComment true before (Literal.escape s ++ rest) = Literal.escape s ++
      beforeComment true ((Literal.escape s).getLast?.getD before) rest := by
  induction s generalizing before with
  | nil => rfl
  | cons c s ih =>
    rw [Literal.escape_cons, List.append_assoc, beforeComment_escapeChar, ih, List.append_assoc,
      List.getLast?_append]
    cases (Literal.escape s).getLast? <;> rfl

/-- The quote after an escaped text ends the quoted part, unless the text ends in a backslash. -/
theorem beforeComment_quote (s : List Char) {before : Char} (h : before ≠ '\\')
    (rest : List Char) : beforeComment false before (Literal.quote s ++ rest) =
      Literal.quote s ++ beforeComment (decide (s.getLast? = some '\\')) '"' rest := by
  have hlast : (Literal.escape s).getLast?.getD '"' = '\\' ↔ s.getLast? = some '\\' := by
    rw [← Literal.getLast?_escape]
    cases (Literal.escape s).getLast? <;> simp
  rw [Literal.quote, List.cons_append, beforeComment]
  simp [h, beforeComment_escape, beforeComment, hlast]

/-- A line with a string and a comment. -/
def Directive.stringLine (d : Directive) (s c : String) : String :=
  d.name ++ " " ++ String.ofList (Literal.quote s.toList) ++ " ; " ++ c

private theorem Directive.toList_stringLine (d : Directive) (s c : String) :
    (d.stringLine s c).toList =
      d.name.toList ++ ' ' :: (Literal.quote s.toList ++ ' ' :: ';' :: ' ' :: c.toList) := by
  simp [stringLine]

private theorem Literal.trimmed_quote (s : List Char) : Text.Trimmed (quote s) := by
  have hquote : Text.Trimmed ['"'] := Text.trimmed_singleton (by decide)
  exact hquote.append hquote (List.cons_ne_nil _ _) (List.cons_ne_nil _ _) (escape s)

/-- The comment is cut off a string that does not end in a backslash. After one that does, a
semicolon at least is left behind the quote. -/
theorem exists_lineCode_stringLine (d : Directive) (s c : String) :
    ∃ tail, (tail = [] ↔ s.toList.getLast? ≠ some '\\') ∧
      Text.Trimmed (Literal.quote s.toList ++ tail) ∧
      lineCode (d.stringLine s c) =
        String.ofList (d.name.toList ++ ' ' :: (Literal.quote s.toList ++ tail)) := by
  have hname : ∀ c ∈ d.name.toList ++ [' '], c ≠ ';' ∧ c ≠ '"' := by
    intro c hc
    rcases List.mem_append.mp hc with hc | hc
    · have hmarks := (Directive.of_mem_name hc).2
      simp only [List.mem_cons, not_or] at hmarks
      exact ⟨hmarks.2.1, hmarks.2.2.1⟩
    · rw [List.mem_singleton.mp hc]
      decide
  have htrimmed : Text.Trimmed (d.name.toList ++ [' '] ++ Literal.quote s.toList) := by
    rw [List.append_assoc]
    exact (Text.trimmed_of_solid d.name_solid).append (Literal.trimmed_quote _) d.name_ne_nil
      (List.cons_ne_nil _ _) [' ']
  let after := beforeComment (decide (s.toList.getLast? = some '\\')) '"'
    (' ' :: ';' :: ' ' :: c.toList)
  refine ⟨Text.trimEnd after, ?_, ?_, ?_⟩
  · rw [Text.trimEnd_eq_nil]
    by_cases hlast : s.toList.getLast? = some '\\'
    · simp [after, hlast, beforeComment, Text.isBlank]
    · simp [after, hlast, beforeComment, Text.isBlank]
  · exact (Literal.trimmed_quote _).append_trimEnd (List.cons_ne_nil _ _) after
  · have hline : (d.stringLine s c).toList = (d.name.toList ++ [' ']) ++
        (Literal.quote s.toList ++ ' ' :: ';' :: ' ' :: c.toList) := by
      rw [d.toList_stringLine, List.append_assoc, List.singleton_append]
    rw [lineCode, hline, beforeComment_of_no_marks hname, beforeComment_quote _ (by simp),
      ← List.append_assoc, htrimmed.trim_append_trimEnd (by simp)]
    simp [after]

namespace Literal

theorem quoted_quote (s : List Char) :
    quoted (String.ofList (quote s)) = .ok (s.flatMap String.utf8EncodeChar) := by
  have hinside : insideQuotes? (quote s) = some (escape s) := by simp [insideQuotes?, quote]
  have hescape := unescape_escape_append s []
  rw [List.append_nil] at hescape
  rw [quoted, String.toList_ofList, (trimmed_quote s).trim_eq_self, hinside]
  simp [hescape, unescape, bind, Except.bind, pure, Except.pure]

/-- What follows the quote makes the string longer, if it can be read at all. -/
theorem length_lt_of_quoted {s tail : List Char} (hne : tail ≠ [])
    (htrimmed : Text.Trimmed (quote s ++ tail)) {bytes : List UInt8}
    (h : quoted (String.ofList (quote s ++ tail)) = .ok bytes) :
    (s.flatMap String.utf8EncodeChar).length < bytes.length := by
  have hrest : quote s ++ tail = '"' :: (escape s ++ '"' :: tail) := by simp [quote]
  have hdrop : (escape s ++ '"' :: tail).dropLast = escape s ++ '"' :: tail.dropLast := by
    rw [List.dropLast_append_of_ne_nil (List.cons_ne_nil _ _), List.dropLast_cons_of_ne_nil hne]
  have hquote : unescape ('"' :: tail.dropLast) = do return '"' :: (← unescape tail.dropLast) := by
    rw [unescape] <;> simp
  rw [quoted, String.toList_ofList, htrimmed.trim_eq_self, hrest, insideQuotes?, hdrop] at h
  split at h
  · cases h
  · rename_i inner hinner
    obtain ⟨-, hsome⟩ := Option.ite_none_right_eq_some.mp hinner
    cases hsome
    obtain ⟨text, htext, h⟩ := bind_eq_ok.mp h
    cases h
    rw [unescape_escape_append, hquote] at htext
    obtain ⟨more, hmore, htext⟩ := bind_eq_ok.mp htext
    obtain ⟨others, _, hothers⟩ := bind_eq_ok.mp hmore
    cases hothers
    cases htext
    have hbyte : String.utf8EncodeChar '"' = [34] := by decide
    simp [hbyte]

end Literal

namespace Directive

/-- The bytes of a string directive: the text in UTF-8, and a zero byte after `.asciiz`. -/
def stringBytes (d : Directive) (s : String) : List UInt8 :=
  s.toUTF8.data.toList ++ if d = .asciiz then [0] else []

private theorem payload_eq_stringBytes {d : Directive} (hd : d = .ascii ∨ d = .asciiz)
    {args s : String} :
    d.payload args = .ok (d.stringBytes s) ↔
      Literal.quoted args = .ok (s.toList.flatMap String.utf8EncodeChar) := by
  have hutf : s.toUTF8.data.toList = s.toList.flatMap String.utf8EncodeChar := by
    rw [String.toUTF8, ← String.utf8Encode_toList]
    simp [List.utf8Encode]
  rw [stringBytes, hutf]
  rcases hd with rfl | rfl
  · simp [payload]
  · simp [payload, bind_eq_ok, pure, Except.pure]

end Directive

/-! ## Sources -/

theorem Text.lines_singleton {s : List Char} (h : '\n' ∉ s) (hne : s ≠ []) : lines s = [s] := by
  induction s with
  | nil => exact absurd rfl hne
  | cons c s ih =>
    obtain ⟨hc, hs⟩ := not_or.mp (mt List.mem_cons.mpr h)
    have hnext : c = '\r' → s.head? ≠ some '\n' := fun _ hhead => hs (List.mem_of_head? hhead)
    rw [lines_cons (Ne.symm hc) hnext]
    cases s with
    | nil => rfl
    | cons d s => rw [ih hs (List.cons_ne_nil d s), consHead]

/-- The last line of a source may end in a line feed or not; a comment may lose a carriage return
by it. -/
theorem exists_textLines_stringLine (d : Directive) (s c : String) (hc : '\n' ∉ c.toList)
    {lineEnd : String} (hend : lineEnd = "" ∨ lineEnd = "\n") :
    ∃ c', textLines (".data\n" ++ d.stringLine s c ++ lineEnd) = [".data", d.stringLine s c'] := by
  have hline : '\n' ∉ (d.stringLine s c).toList := by
    have hname : '\n' ∉ d.name.toList := fun h => (d.name_plain _ h).2.1 rfl
    simp [d.toList_stringLine, hname, Literal.quote, Literal.newline_not_mem_escape, hc]
  have hsource : (".data\n" ++ d.stringLine s c ++ lineEnd).toList =
      ".data".toList ++ '\n' :: ((d.stringLine s c).toList ++ lineEnd.toList) := by
    simp
  rw [textLines, hsource, Text.lines_append (by decide)]
  rcases hend with rfl | rfl
  · refine ⟨c, ?_⟩
    have hne : (d.stringLine s c).toList ≠ [] := by simp [d.toList_stringLine]
    rw [String.toList_empty, List.append_nil, Text.lines_singleton hline hne]
    simp [Text.withoutReturn]
  · refine ⟨String.ofList (Text.withoutReturn c.toList), ?_⟩
    have hlast : (d.stringLine s c).toList = (d.name.toList ++
        ' ' :: (Literal.quote s.toList ++ [' ', ';'])) ++ ' ' :: c.toList := by
      simp [d.toList_stringLine]
    have hreturn : Text.withoutReturn (d.stringLine s c).toList =
        (d.stringLine s (String.ofList (Text.withoutReturn c.toList))).toList := by
      rw [hlast, Text.withoutReturn_append _ (List.cons_ne_nil _ _),
        Text.withoutReturn_cons (by simp), d.toList_stringLine]
      simp
    have hfeed : "\n".toList = '\n' :: [] := rfl
    rw [hfeed, Text.lines_append hline, hreturn]
    simp [Text.lines, Text.withoutReturn]

theorem Program.ofSource_directive_iff {source raw : String} {d : Directive} {args : List Char}
    (hlines : textLines source = [".data", raw])
    (hcode : lineCode raw = String.ofList (d.name.toList ++ ' ' :: args))
    (hargs : Text.Trimmed args) (hcolon : args.head? ≠ some ':') {bytes : List UInt8} :
    (∃ p, Program.ofSource source = .ok p ∧ p.data.bytes.map (·.value) = bytes) ↔
      d.payload (String.ofList args) = .ok bytes := by
  have hne : lineCode raw ≠ "" := by simp [hcode]
  have hsection : Section.parse? (lineCode raw) = none := by
    rw [hcode]
    apply d.parse?_name
    intro c hc
    cases hc
    decide
  have hread : readLines none (SourceLine.ofText source) = do
      let statement ← SourceLine.diagnose ⟨2, raw, lineCode raw⟩ (do
        return .data none d (← d.payload (String.ofList args)))
      return [⟨2, statement⟩] := by
    have hdata : textLines source = [Section.data.name, raw] := hlines
    rw [readLines_section hdata hne hsection, ← Statement.read_directive d hargs hcolon, ← hcode]
  simp only [ofSource, hread]
  cases d.payload (String.ofList args) with
  | error e => simp [SourceLine.diagnose, bind, Except.bind]
  | ok payload =>
    have hbytes : (dataFrom 0 [⟨2, .data none d payload⟩]).map (·.value) = payload := by
      simp [dataFrom, SourceStatement.bytesAt, Directive.bytesAt, Directive.startAt,
        Function.comp_def]
    simp [SourceLine.diagnose, bind, Except.bind, pure, Except.pure, ofStatements, hbytes]

/-- In a source with one string directive and a comment behind it, the data is the text of the
string in UTF-8 just if the text does not end in a backslash: the quote after that one is not seen
as the end of the string when the comment is looked for. -/
theorem Program.ofSource_string_iff {d : Directive} (hd : d = .ascii ∨ d = .asciiz) (s c : String)
    (hc : '\n' ∉ c.toList) {lineEnd : String} (hend : lineEnd = "" ∨ lineEnd = "\n") :
    (∃ p, Program.ofSource (".data\n" ++ d.stringLine s c ++ lineEnd) = .ok p ∧
      p.data.bytes.map (·.value) = d.stringBytes s) ↔ s.toList.getLast? ≠ some '\\' := by
  obtain ⟨c', hlines⟩ := exists_textLines_stringLine d s c hc hend
  obtain ⟨tail, htail, htrimmed, hcode⟩ := exists_lineCode_stringLine d s c'
  rw [Program.ofSource_directive_iff hlines hcode htrimmed (by simp [Literal.quote]), ← htail,
    Directive.payload_eq_stringBytes hd]
  constructor
  · intro h
    by_contra hne
    exact absurd (Literal.length_lt_of_quoted hne htrimmed h) (Nat.lt_irrefl _)
  · rintro rfl
    rw [List.append_nil]
    exact Literal.quoted_quote s.toList

/-- Quotes, semicolons and backslashes in the text, and quotes in the comment. -/
theorem Program.ofSource_string_iff_escapes :
    ∃ p, Program.ofSource (".data\n" ++
        Directive.asciiz.stringLine "a\\\";\n\\\\é" "it's \"quoted\"" ++ "\n") = .ok p ∧
      p.data.bytes.map (·.value) = [97, 92, 34, 59, 10, 92, 92, 195, 169, 0] := by
  have hbytes : Directive.asciiz.stringBytes "a\\\";\n\\\\é" =
      [97, 92, 34, 59, 10, 92, 92, 195, 169, 0] := by
    decide
  rw [← hbytes]
  exact (Program.ofSource_string_iff (.inr rfl) _ _ (by decide) (.inr rfl)).mpr (by decide)

/-- A text that ends in a backslash keeps its comment, and is not a quoted string then. If the
comment ends in a quote, it is one, and the comment is taken for the end of the text. -/
theorem Program.ofSource_string_backslash :
    Directive.ascii.stringLine "a\\" "c" = ".ascii \"a\\\\\" ; c" ∧
      Program.ofSource ".data\n.ascii \"a\\\\\" ; c" =
        .error ⟨2, ".ascii \"a\\\\\" ; c", .malformed (.notQuoted "\"a\\\\\" ; c")⟩ ∧
    Directive.ascii.stringLine "a\\" "c\"" = ".ascii \"a\\\\\" ; c\"" ∧
      ∃ p, Program.ofSource ".data\n.ascii \"a\\\\\" ; c\"" = .ok p ∧
        p.data.bytes.map (·.value) = [97, 92, 34, 32, 59, 32, 99] := by
  have hcomment : (Program.ofSource ".data\n.ascii \"a\\\\\" ; c\"").toOption.map
      (fun p => p.data.bytes.map (·.value)) = some [97, 92, 34, 32, 59, 32, 99] := by
    decide
  obtain ⟨p, hp, hbytes⟩ := Option.map_eq_some_iff.mp hcomment
  exact ⟨by decide, by decide, by decide, p, toOption_eq_some.mp hp, hbytes⟩

end SuperH
