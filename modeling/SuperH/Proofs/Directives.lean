import SuperH.Proofs.Lexing

/-!
# Lines of data directives

The name of a directive, a blank and arguments make a statement of the data section. The arguments
may be any text that has no blanks around it and does not start with a colon.
-/
namespace SuperH

/-- A colon that does not come next after a word makes no label of it. -/
theorem takeLabel_of_blank {word rest : List Char}
    (hword : ∀ c ∈ word, Text.isBlank c = false ∧ c ≠ ':') {b : Char}
    (hb : Text.isBlank b = true) (hrest : (Text.trimStart rest).head? ≠ some ':') :
    takeLabel (word ++ b :: rest) = .ok (none, word ++ b :: rest) := by
  have hinName : ∀ c ∈ word, (!Text.isBlank c && c != ':') = true := by
    intro c hc
    simp [hword c hc]
  have hdrop : Text.trimStart ((word ++ b :: rest).dropWhile fun c => !Text.isBlank c && c != ':') =
      Text.trimStart rest := by
    rw [List.dropWhile_append_of_pos hinName, List.dropWhile_cons_of_neg (by simp [hb])]
    exact List.dropWhile_cons_of_pos hb
  have hnone : labelled? (word ++ b :: rest) = none := by
    simp only [labelled?, hdrop]
    split
    · rename_i heq
      rw [heq] at hrest
      exact absurd rfl hrest
    · rfl
  rw [takeLabel, hnone]

namespace Directive

theorem name_ne_nil (d : Directive) : d.name.toList ≠ [] := by
  cases d <;> decide

theorem of_mem_name {d : Directive} {c : Char} (h : c ∈ d.name.toList) :
    Text.isBlank c = false ∧ c ∉ [':', ';', '"', '\n', '\r'] := by
  have hall : d.name.toList.all
      (fun c => !Text.isBlank c && decide (c ∉ [':', ';', '"', '\n', '\r'])) = true := by
    cases d <;> decide
  simpa only [Bool.and_eq_true, Bool.not_eq_true', decide_eq_true_eq] using
    List.all_eq_true.mp hall c h

theorem name_solid (d : Directive) : ∀ c ∈ d.name.toList, Text.isBlank c = false :=
  fun _ hc => (of_mem_name hc).1

theorem name_plain (d : Directive) : Text.Plain d.name.toList := by
  intro c hc
  have hmarks := (of_mem_name hc).2
  simp only [List.mem_cons, not_or] at hmarks
  exact ⟨hmarks.2.1, hmarks.2.2.2.1, hmarks.2.2.2.2.1⟩

private theorem head?_name (d : Directive) : d.name.toList.head? = some '.' := by
  cases d <;> rfl

private theorem parse_name (d : Directive) :
    parse (String.ofList (Text.lower d.name.toList)) = .ok d := by
  cases d <;> rfl

theorem parse?_name (d : Directive) {rest : List Char}
    (h : ∀ c, rest.head? = some c → Text.isBlank c = true) :
    Section.parse? (String.ofList (d.name.toList ++ rest)) = none := by
  rw [Section.parse?, String.toList_ofList, Text.firstWord?_append d.name_solid d.name_ne_nil h]
  cases d <;> decide

end Directive

theorem Statement.read_directive (d : Directive) {args : List Char} (hargs : Text.Trimmed args)
    (hcolon : args.head? ≠ some ':') :
    Statement.read (some .data) (String.ofList (d.name.toList ++ ' ' :: args)) = do
      return .data none d (← d.payload (String.ofList args)) := by
  have hword : ∀ c ∈ d.name.toList, Text.isBlank c = false ∧ c ≠ ':' := by
    intro c hc
    refine ⟨d.name_solid c hc, ?_⟩
    rintro rfl
    exact (Directive.of_mem_name hc).2 List.mem_cons_self
  have hstart : (Text.trimStart args).head? ≠ some ':' := by
    rwa [Text.trimStart_eq_self hargs.head]
  rw [Statement.read, WrittenData.parse, String.toList_ofList,
    takeLabel_of_blank hword (by decide) hstart]
  simp only [bind, Except.bind, Text.cutAtBlank_append d.name_solid (c := ' ') (by decide) hargs,
    d.head?_name, if_true, pure, Except.pure, d.parse_name]

end SuperH
