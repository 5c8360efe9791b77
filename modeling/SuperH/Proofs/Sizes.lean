import Mathlib.Algebra.Order.BigOperators.Group.List
import SuperH.Proofs.Lexing
import SuperH.Proofs.LineNumbers
import SuperH.Proofs.Names

/-!
# How large a program can get

A line writes at most four bytes for each character of its code, and at most one instruction or
one vector. So the parts of a program are bounded by the length of its source.
-/
namespace SuperH

/-! ## Characters of code -/

theorem length_le_utf8ByteSize (s : String) : s.length ≤ s.utf8ByteSize := by
  have hchars (cs : List Char) : cs.length ≤ (String.ofList cs).utf8ByteSize := by
    induction cs with
    | nil => simp
    | cons c cs ih =>
      have hpos := c.utf8Size_pos
      rw [String.ofList_cons, String.utf8ByteSize_append, String.utf8ByteSize_singleton,
        List.length_cons]
      omega
  have hs := hchars s.toList
  rwa [String.ofList_toList, String.length_toList] at hs

namespace Text

private theorem sum_length_consHead (c : Char) (ls : List (List Char)) :
    ((consHead c ls).map List.length).sum = (ls.map List.length).sum + 1 := by
  cases ls <;> simp [consHead, Nat.add_right_comm]

private theorem sum_length_lines_le (s : List Char) :
    ((lines s).map List.length).sum ≤ s.length := by
  induction s using lines.induct with
  | case1 => simp [lines]
  | case2 s ih =>
    simp only [lines, List.map_cons, List.sum_cons, List.length_nil, List.length_cons]
    omega
  | case3 s ih =>
    simp only [lines, List.map_cons, List.sum_cons, List.length_nil, List.length_cons]
    omega
  | case4 c s hn hr ih =>
    rw [lines, sum_length_consHead, List.length_cons]
    · omega
    · exact hn
    · exact hr

end Text

private theorem length_lineCode_le (line : String) : (lineCode line).length ≤ line.length := by
  rw [← String.length_toList, ← String.length_toList]
  exact (lineCode_sublist line).length_le

def codeLength (xs : List (Option Section × SourceLine)) : Nat :=
  (xs.map (·.2.code.length)).sum

private theorem sum_code_numbered_le (number : Nat) (raws : List String) :
    ((SourceLine.numbered number raws).map (·.code.length)).sum ≤
      (raws.map String.length).sum := by
  induction raws generalizing number with
  | nil => simp [SourceLine.numbered]
  | cons raw raws ih =>
    have hline := length_lineCode_le raw
    have hrest := ih (number + 1)
    rw [SourceLine.numbered]
    split <;> simp only [List.map_cons, List.sum_cons] <;> omega

private theorem codeLength_inSections_le (current : Option Section) (ls : List SourceLine) :
    codeLength (inSections current ls) ≤ (ls.map (·.code.length)).sum := by
  induction ls generalizing current with
  | nil => simp [inSections, codeLength]
  | cons l ls ih =>
    rw [inSections, List.map_cons, List.sum_cons]
    split
    · exact Nat.le_add_left_of_le (ih _)
    · have := ih current
      simp only [codeLength, List.map_cons, List.sum_cons] at this ⊢
      omega

theorem codeLength_le (source : String) :
    codeLength (inSections none (SourceLine.ofText source)) ≤ source.length := by
  calc codeLength (inSections none (SourceLine.ofText source))
      ≤ ((SourceLine.ofText source).map (·.code.length)).sum := codeLength_inSections_le _ _
    _ ≤ ((textLines source).map String.length).sum := sum_code_numbered_le _ _
    _ = ((Text.lines source.toList).map List.length).sum := by
        simp [textLines, Function.comp_def]
    _ ≤ source.toList.length := Text.sum_length_lines_le _
    _ = source.length := String.length_toList

theorem code_ne_empty {number : Nat} {raws : List String} {l : SourceLine}
    (h : l ∈ SourceLine.numbered number raws) : l.code ≠ "" := by
  induction raws generalizing number with
  | nil => cases h
  | cons raw raws ih =>
    rw [SourceLine.numbered] at h
    split at h
    · exact ih h
    · rename_i hcode
      rcases List.mem_cons.mp h with rfl | h
      · exact hcode
      · exact ih h

theorem length_inSections_le (source : String) :
    (inSections none (SourceLine.ofText source)).length ≤
      codeLength (inSections none (SourceLine.ofText source)) := by
  have hpos : ∀ n ∈ (inSections none (SourceLine.ofText source)).map (·.2.code.length), 1 ≤ n := by
    intro n hn
    obtain ⟨x, hx, rfl⟩ := List.mem_map.mp hn
    have hcode := code_ne_empty (mem_of_mem_inSections hx)
    rw [Nat.one_le_iff_ne_zero]
    exact fun h => hcode (String.length_eq_zero_iff.mp h)
  have hle := List.length_le_sum_of_one_le _ hpos
  rwa [List.length_map] at hle

/-! ## Bytes of data -/

namespace Text

private theorem length_splitOn_le (sep : Char) (s : List Char) :
    (splitOn sep s).length ≤ s.length + 1 := by
  induction s with
  | nil => simp [splitOn]
  | cons c s ih =>
    have hcons (ls : List (List Char)) : (consHead c ls).length ≤ ls.length + 1 := by
      cases ls <;> simp [consHead]
    have := hcons (splitOn sep s)
    rw [splitOn]
    split <;> simp only [List.length_cons] <;> omega

/-- A blank stands between the two parts. -/
theorem length_cutAtBlank_lt {s : List Char} (h : (cutAtBlank s).2 ≠ []) :
    (cutAtBlank s).1.length + (cutAtBlank s).2.length < s.length := by
  have hsplit : (cutAtBlank s).1 ++ s.dropWhile (!isBlank ·) = s := List.takeWhile_append_dropWhile
  have hlength := congrArg List.length hsplit
  rw [List.length_append] at hlength
  change trim (s.dropWhile (!isBlank ·)) ≠ [] at h
  cases hrest : s.dropWhile (!isBlank ·) with
  | nil =>
    rw [hrest] at h
    exact absurd rfl h
  | cons c rest =>
    have hblank : isBlank c = true := by
      have := List.head?_dropWhile_not (!isBlank ·) s
      simpa [hrest] using this
    have htrim : (cutAtBlank s).2 = trim rest := by
      rw [cutAtBlank, hrest, trim, trimStart, List.dropWhile_cons_of_pos hblank]
      rfl
    have hle := (trim_sublist rest).length_le
    rw [hrest, List.length_cons] at hlength
    rw [htrim]
    omega

end Text

namespace Literal

theorem length_lowBytes (value : Int) (width : Nat) : (lowBytes value width).length = width := by
  induction width with
  | zero => rfl
  | succ width ih => exact congrArg (· + 1) ih

private theorem length_unescape_le {s plain : List Char} (h : unescape s = .ok plain) :
    plain.length ≤ s.length := by
  induction hn : s.length using Nat.strongRecOn generalizing s plain with
  | ind n ih =>
    have hrest {rest others : List Char} (h : unescape rest = .ok others) (hlt : rest.length < n) :
        others.length ≤ rest.length := ih _ hlt h rfl
    unfold unescape at h
    split at h
    · cases h
      exact Nat.zero_le n
    · cases h
    · rename_i c rest
      obtain ⟨first, others, hothers, rfl⟩ :
          ∃ first others, unescape rest = .ok others ∧ plain = first :: others := by
        dsimp only at h
        split at h <;>
          (obtain ⟨first, _, h⟩ := bind_eq_ok.mp h
           obtain ⟨others, hothers, h⟩ := bind_eq_ok.mp h
           cases h
           exact ⟨first, others, hothers, rfl⟩)
      simp only [List.length_cons] at hn ⊢
      have := hrest hothers (by omega)
      omega
    · obtain ⟨others, hothers, h⟩ := bind_eq_ok.mp h
      cases h
      simp only [List.length_cons] at hn ⊢
      have := hrest hothers (by omega)
      omega

private theorem length_insideQuotes?_lt {s inner : List Char} (h : insideQuotes? s = some inner) :
    inner.length < s.length := by
  unfold insideQuotes? at h
  split at h
  · split at h
    · cases h
      simp only [List.length_dropLast, List.length_cons]
      omega
    · cases h
  · cases h

private theorem length_quoted_lt {s : String} {bytes : List UInt8} (h : quoted s = .ok bytes) :
    bytes.length < 4 * s.length := by
  unfold quoted at h
  split at h
  · cases h
  · rename_i inner hinner
    obtain ⟨plain, hplain, h⟩ := bind_eq_ok.mp h
    cases h
    have hchars : (plain.map fun c => (String.utf8EncodeChar c).length).sum ≤ plain.length * 4 := by
      have hall : ∀ n ∈ plain.map fun c => (String.utf8EncodeChar c).length, n ≤ 4 := by
        intro n hn
        obtain ⟨c, _, rfl⟩ := List.mem_map.mp hn
        rw [String.length_utf8EncodeChar]
        exact c.utf8Size_le_four
      simpa using List.sum_le_card_nsmul _ 4 hall
    have hle := length_unescape_le hplain
    have hlt := length_insideQuotes?_lt hinner
    have htrim := (Text.trim_sublist s.toList).length_le
    rw [String.length_toList] at htrim
    rw [List.length_flatMap]
    omega

end Literal

namespace Directive

private theorem length_values_le {width : Nat} {args : String} {bytes : List UInt8}
    (h : values width args = .ok bytes) :
    args.length ≠ 0 ∧ bytes.length ≤ (args.length + 1) * width := by
  simp only [values] at h
  split at h
  · cases h
  · rename_i hargs
    obtain ⟨items, hitems, h⟩ := bind_eq_ok.mp h
    cases h
    refine ⟨?_, ?_⟩
    · intro hempty
      rw [String.length_eq_zero_iff] at hempty
      subst hempty
      exact hargs rfl
    · have hwidth : ∀ n ∈ items.map List.length, n ≤ width := by
        intro n hn
        obtain ⟨item, hitem, rfl⟩ := List.mem_map.mp hn
        obtain ⟨arg, _, hitem⟩ := exists_of_mem_mapM hitems hitem
        obtain ⟨value, _, hitem⟩ := bind_eq_ok.mp hitem
        unfold Literal.bigEndian at hitem
        split at hitem
        · cases hitem
          exact (Literal.length_lowBytes value width).le
        · cases hitem
      have hsum : (items.map List.length).sum ≤ items.length * width := by
        simpa using List.sum_le_card_nsmul _ width hwidth
      have hcount := Text.length_splitOn_le ',' args.toList
      rw [← length_mapM hitems, String.length_toList] at hcount
      rw [List.length_flatten]
      exact hsum.trans (Nat.mul_le_mul_right width hcount)

private theorem length_payload_le {d : Directive} {args : String} {payload : List UInt8}
    (h : d.payload args = .ok payload) :
    args.length ≠ 0 ∧ payload.length ≤ 4 * (args.length + 1) := by
  have hvalues (hwidth : d.width ≤ 4) (h : values d.width args = .ok payload) :
      args.length ≠ 0 ∧ payload.length ≤ 4 * (args.length + 1) := by
    obtain ⟨hargs, hle⟩ := length_values_le h
    have := Nat.mul_le_mul_left (args.length + 1) hwidth
    exact ⟨hargs, by omega⟩
  cases d with
  | byte => exact hvalues (by decide) h
  | word => exact hvalues (by decide) h
  | long => exact hvalues (by decide) h
  | ascii =>
    have := Literal.length_quoted_lt h
    exact ⟨by omega, by omega⟩
  | asciiz =>
    obtain ⟨bytes, hbytes, h⟩ := bind_eq_ok.mp h
    cases h
    have := Literal.length_quoted_lt hbytes
    rw [List.length_append, List.length_singleton]
    exact ⟨by omega, by omega⟩

end Directive

/-- A line adds at most four bytes for each character of its code. -/
theorem length_bytesAt_le {x : Option Section × SourceLine} {s : SourceStatement}
    (h : readLine x = .ok s) (offset : Nat) :
    (s.bytesAt offset).length ≤ 4 * x.2.code.length := by
  obtain ⟨_, hread⟩ := readLine_eq_ok.mp h
  match s with
  | ⟨line, .code _ _⟩ => exact Nat.zero_le _
  | ⟨line, .vector _ _⟩ => exact Nat.zero_le _
  | ⟨line, .stray⟩ => exact Nat.zero_le _
  | ⟨line, .data label directive payload⟩ =>
    obtain ⟨written, hwritten, _, hpayload⟩ := Statement.exists_written_data_of_read hread
    obtain ⟨rest, htake, hdot, hargs⟩ := WrittenData.parse_eq_ok hwritten
    obtain ⟨hne, hle⟩ := Directive.length_payload_le hpayload
    rw [hargs, String.length_ofList] at hne hle
    have hrest := (takeLabel_sublist htake).length_le
    have hcut := Text.length_cutAtBlank_lt (fun h => hne (by rw [h]; rfl))
    have hstart : directive.startAt offset ≤ offset + 1 := by
      unfold Directive.startAt
      split <;> omega
    have hdirective : 0 < (Text.cutAtBlank rest).1.length := by
      cases hword : (Text.cutAtBlank rest).1 with
      | nil => simp [hword] at hdot
      | cons c cs => simp
    rw [String.length_toList] at hrest
    rw [SourceStatement.bytesAt, Directive.bytesAt, List.length_append, List.length_replicate,
      List.length_map]
    omega

/-! ## Parts of a program -/

theorem length_dataFrom_le {xs : List (Option Section × SourceLine)} {ss : List SourceStatement}
    (h : xs.mapM readLine = .ok ss) (offset : Nat) :
    (dataFrom offset ss).length ≤ 4 * codeLength xs := by
  rw [mapM_eq_ok] at h
  induction h generalizing offset with
  | nil => simp [dataFrom, codeLength]
  | @cons x s xs ss hread _ ih =>
    have hline := length_bytesAt_le hread offset
    have hrest := ih (offset + (s.bytesAt offset).length)
    simp only [codeLength, dataFrom, List.length_append, List.map_cons, List.sum_cons] at hrest ⊢
    omega

theorem Program.lengths_le {source : String} {p : Program} (h : Program.ofSource source = .ok p) :
    p.code.length ≤ source.length ∧ p.vectors.length ≤ source.length ∧
      p.data.offset ≤ 4 * source.length := by
  obtain ⟨ss, hss, rfl⟩ := Program.ofSource_eq_ok.mp h
  rw [readLines_eq_mapM] at hss
  have hlines := length_mapM hss
  have hcode := codeLength_le source
  have hcount := length_inSections_le source
  have hdata := length_dataFrom_le hss 0
  have hparts {α : Type} (f : SourceStatement → Option α) : (ss.filterMap f).length ≤ ss.length :=
    List.length_filterMap_le f ss
  have hwords := hparts SourceStatement.code?
  have hvectors := hparts SourceStatement.vector?
  simp only [Program.ofStatements, DataSection.offset]
  omega

end SuperH
