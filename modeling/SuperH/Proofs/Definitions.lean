import SuperH.Proofs.LineNumbers
import SuperH.Proofs.Symbols

/-!
# Where labels are defined

No key of a symbol table comes twice. The line that defines a label cuts the code and the data of
its program in two: what stands on earlier lines comes before the cut, all else after it.
-/
namespace SuperH

/-! ## Entries of the table -/

namespace SymbolTable

theorem map_fst_define (t : SymbolTable) (name : String) (symbol : Symbol) :
    (t.define name symbol).entries.map Prod.fst =
      if Text.upcase name ∈ t.entries.map Prod.fst then t.entries.map Prod.fst
      else t.entries.map Prod.fst ++ [Text.upcase name] := by
  simp only [define]
  split
  · rename_i hnone
    have hnew : Text.upcase name ∉ t.entries.map Prod.fst := by
      intro hmem
      obtain ⟨entry, hentry, hkey⟩ := List.mem_map.mp hmem
      have := List.lookup_eq_none_iff.mp hnone entry hentry
      simp [hkey] at this
    rw [if_neg hnew, List.map_append]
    rfl
  · rename_i previous hprevious
    obtain ⟨before, after, hentries, _⟩ := List.lookup_eq_some_iff.mp hprevious
    have hold : Text.upcase name ∈ t.entries.map Prod.fst := by simp [hentries]
    rw [if_pos hold, List.map_map]
    apply List.map_congr_left
    intro entry _
    simp only [Function.comp_apply]
    split
    · exact Eq.symm ‹_›
    · rfl

end SymbolTable

theorem nodup_keys (events : List Event) :
    ((events.foldl Event.apply .empty).entries.map Prod.fst).Nodup := by
  induction events using List.reverseRecOn with
  | nil => exact .nil
  | append_singleton events e ih =>
    rw [List.foldl_append, List.foldl_cons, List.foldl_nil]
    cases e with
    | ignored line => exact ih
    | defined name symbol =>
      rw [Event.apply, SymbolTable.map_fst_define]
      split
      · exact ih
      · rename_i hnew
        rw [List.nodup_append]
        refine ⟨ih, by simp, ?_⟩
        rintro key hkey other hother rfl
        rw [List.mem_singleton.mp hother] at hkey
        exact hnew hkey

/-! ## Offsets -/

section Cut

variable {before after : List SourceStatement} {s : SourceStatement}

private theorem lt_line_of_pairwise (h : (before ++ s :: after).Pairwise (·.line < ·.line)) :
    (∀ t ∈ before, t.line < s.line) ∧ ∀ t ∈ after, s.line < t.line := by
  obtain ⟨_, hafter, hbetween⟩ := List.pairwise_append.mp h
  refine ⟨fun t ht => hbetween t ht s List.mem_cons_self, ?_⟩
  exact (List.pairwise_cons.mp hafter).1

/-- The code before a line is the code with earlier lines. -/
theorem code_cut (h : (before ++ s :: after).Pairwise (·.line < ·.line)) :
    ∃ rest, (before ++ s :: after).filterMap SourceStatement.code? =
        before.filterMap SourceStatement.code? ++ rest ∧
      (∀ c ∈ before.filterMap SourceStatement.code?, c.line < s.line) ∧
      ∀ c ∈ rest, s.line ≤ c.line := by
  obtain ⟨hbefore, hafter⟩ := lt_line_of_pairwise h
  refine ⟨(s :: after).filterMap SourceStatement.code?, List.filterMap_append, ?_, ?_⟩
  · intro c hc
    obtain ⟨t, ht, htc⟩ := List.mem_filterMap.mp hc
    rw [SourceStatement.line_of_code? htc]
    exact hbefore t ht
  · intro c hc
    obtain ⟨t, ht, htc⟩ := List.mem_filterMap.mp hc
    rw [SourceStatement.line_of_code? htc]
    rcases List.mem_cons.mp ht with rfl | ht
    · exact Nat.le_refl _
    · exact Nat.le_of_lt (hafter t ht)

theorem data_cut (h : (before ++ s :: after).Pairwise (·.line < ·.line)) (offset : Nat) :
    ∃ rest, dataFrom offset (before ++ s :: after) = dataFrom offset before ++
        s.bytesAt (offset + (dataFrom offset before).length) ++ rest ∧
      (∀ b ∈ dataFrom offset before, b.line < s.line) ∧ ∀ b ∈ rest, s.line < b.line := by
  obtain ⟨hbefore, hafter⟩ := lt_line_of_pairwise h
  rw [dataFrom_append, dataFrom, ← List.append_assoc]
  refine ⟨_, rfl, ?_, ?_⟩
  · intro b hb
    obtain ⟨t, ht, hline⟩ := exists_of_mem_dataFrom hb
    rw [hline]
    exact hbefore t ht
  · intro b hb
    obtain ⟨t, ht, hline⟩ := exists_of_mem_dataFrom hb
    rw [hline]
    exact hafter t ht

end Cut

/-- The number of the line cuts the code where its first part ends. -/
theorem cut_at_line {first rest : List CodeLine} {n : Nat} (hfirst : ∀ c ∈ first, c.line < n)
    (hrest : ∀ c ∈ rest, n ≤ c.line) :
    (first ++ rest).countP (·.line < n) = first.length ∧
      ∀ i c, (first ++ rest)[i]? = some c → (first.length ≤ i ↔ n ≤ c.line) := by
  constructor
  · have hall : first.countP (·.line < n) = first.length := by
      rw [List.countP_eq_length]
      simpa using hfirst
    have hnone : rest.countP (·.line < n) = 0 := by
      rw [List.countP_eq_zero]
      simpa using hrest
    rw [List.countP_append, hall, hnone]
    rfl
  · intro i c hc
    by_cases hi : i < first.length
    · rw [List.getElem?_append_left hi] at hc
      have := hfirst c (List.mem_of_getElem? hc)
      omega
    · rw [List.getElem?_append_right (Nat.not_lt.mp hi)] at hc
      have := hrest c (List.mem_of_getElem? hc)
      omega

end SuperH
