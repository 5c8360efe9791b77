import SuperH.Proofs.Diagnostics
import SuperH.Proofs.Dumping
import SuperH.Proofs.OperandGrammar
import SuperH.Proofs.Sizes

/-!
# The format of dumps

A line of a dump is eight or sixteen binary digits. The reader takes these for the bytes they
write. It also takes a plus sign in place of the first digit, and nothing else; any other line is
reported where it stands.
-/
namespace SuperH

/-! ## Lines with code -/

namespace SourceLine

private theorem map_code_numbered (number : Nat) (raws : List String) :
    (numbered number raws).map (·.code) = (raws.map lineCode).filter (· ≠ "") := by
  induction raws generalizing number with
  | nil => rfl
  | cons raw raws ih =>
    by_cases hcode : lineCode raw = ""
    · simp [numbered, hcode, ih]
    · simp [numbered, hcode, ih]

variable {β : Type} {f : String → Except Error β}

private theorem forall_numbered_ok (number : Nat) (raws : List String) :
    (∀ l ∈ numbered number raws, ∃ y, f l.code = .ok y) ↔
      ∀ raw ∈ raws, lineCode raw ≠ "" → ∃ y, f (lineCode raw) = .ok y := by
  induction raws generalizing number with
  | nil => simp [numbered]
  | cons raw raws ih =>
    by_cases hcode : lineCode raw = ""
    · simp [numbered, hcode, ih]
    · simp [numbered, hcode, ih]

theorem mapM_numbered_eq_ok {number : Nat} {raws : List String} {ys : List β} :
    (numbered number raws).mapM (fun l => l.diagnose (f l.code)) = .ok ys ↔
      List.Forall₂ (fun code y => f code = .ok y) ((raws.map lineCode).filter (· ≠ "")) ys := by
  simp only [mapM_eq_ok, diagnose_eq_ok]
  rw [← map_code_numbered number, List.forall₂_map_left_iff]

private theorem exists_mapM_numbered {number : Nat} {raws : List String} :
    (∃ ys, (numbered number raws).mapM (fun l => l.diagnose (f l.code)) = .ok ys) ↔
      ∀ raw ∈ raws, lineCode raw ≠ "" → ∃ y, f (lineCode raw) = .ok y := by
  simp only [exists_mapM_eq_ok, diagnose_eq_ok]
  exact forall_numbered_ok number raws

theorem mapM_numbered_eq_error {number : Nat} {raws : List String} {d : Diagnostic} :
    (numbered number raws).mapM (fun l => l.diagnose (f l.code)) = .error d ↔
      ∃ before raw after e, raws = before ++ raw :: after ∧
        (∀ raw ∈ before, lineCode raw ≠ "" → ∃ y, f (lineCode raw) = .ok y) ∧
        lineCode raw ≠ "" ∧ f (lineCode raw) = .error e ∧
        d = ⟨number + before.length, raw, e⟩ := by
  simp only [mapM_eq_error, diagnose_eq_ok, diagnose_eq_error]
  constructor
  · rintro ⟨before, l, after, hsplit, hbefore, e, he, rfl⟩
    have hl : l ∈ numbered number raws := hsplit ▸ List.mem_append_right _ List.mem_cons_self
    obtain ⟨_, _, _, hcode⟩ := mem_numbered hl
    obtain ⟨i, hraw, hnumber, htake, _⟩ := numbered_eq_append hsplit
    obtain ⟨hi, hget⟩ := List.getElem?_eq_some_iff.mp hraw
    refine ⟨raws.take i, l.raw, raws.drop (i + 1), e, ?_, ?_, hcode ▸ code_ne_empty hl,
      hcode ▸ he, ?_⟩
    · rw [← hget, List.cons_getElem_drop_succ, List.take_append_drop]
    · rw [← forall_numbered_ok number, htake]
      exact hbefore
    · rw [hnumber, List.length_take, Nat.min_eq_left hi.le]
  · rintro ⟨before, raw, after, e, rfl, hbefore, hne, he, rfl⟩
    refine ⟨numbered number before, ⟨number + before.length, raw, lineCode raw⟩,
      numbered (number + before.length + 1) after, ?_, ?_, e, he, rfl⟩
    · rw [numbered_append, numbered, if_neg hne]
    · exact (forall_numbered_ok number before).mpr hbefore

end SourceLine

/-! ## Binary digits -/

namespace Text

private theorem Denotes.lt {radix : Nat} {s : List Char} {n : Nat} (hradix : 1 < radix)
    (h : Denotes radix s n) : n < radix ^ s.length := by
  obtain ⟨ds, _, hds, rfl, rfl⟩ := h
  rw [List.length_map, ← List.length_reverse]
  exact Nat.ofDigits_lt_base_pow_length hradix (by simpa using hds)

end Text

namespace Dump

def IsBits (code : List Char) : Prop :=
  (code.length = 8 ∨ code.length = 16) ∧ ∀ c ∈ code, c = '0' ∨ c = '1'

/-- A line of the format, but with a plus sign for its first digit. -/
def IsSigned (code : List Char) : Prop :=
  ∃ digits, code = '+' :: digits ∧ (digits.length = 7 ∨ digits.length = 15) ∧
    ∀ c ∈ digits, c = '0' ∨ c = '1'

/-- The bytes that the digits of a line write, the high one first. -/
inductive Writes : List Char → List UInt8 → Prop
  | byte {code : List Char} {b : UInt8} : code.length = 8 →
      Text.Denotes 2 (Text.dropPlus code) b.toNat → Writes code [b]
  | word {code : List Char} {high low : UInt8} : code.length = 16 →
      Text.Denotes 2 (Text.dropPlus code) (256 * high.toNat + low.toNat) → Writes code [high, low]

private theorem dropPlus_of_digits {code : List Char} (h : ∀ c ∈ code, c = '0' ∨ c = '1') :
    Text.dropPlus code = code := by
  rw [Text.dropPlus, if_neg]
  intro hplus
  exact absurd (h '+' (List.mem_of_head? hplus)) (by decide)

private theorem lt_of_denotes {code : List Char} {n : Nat}
    (h : Text.Denotes 2 (Text.dropPlus code) n) : n < 2 ^ code.length := by
  have hle : (Text.dropPlus code).length ≤ code.length := by
    unfold Text.dropPlus
    split <;> simp
  exact (h.lt (by decide)).trans_le (Nat.pow_le_pow_right (by decide) hle)

private theorem writes_byte {code : List Char} {n : Nat} (hlength : code.length = 8)
    (h : Text.Denotes 2 (Text.dropPlus code) n) : Writes code [UInt8.ofNat n] := by
  have hbyte : (UInt8.ofNat n).toNat = n := by
    have hlt := lt_of_denotes h
    rw [hlength] at hlt
    simpa using hlt
  exact .byte hlength (hbyte.symm ▸ h)

private theorem writes_word {code : List Char} {n : Nat} (hlength : code.length = 16)
    (h : Text.Denotes 2 (Text.dropPlus code) n) :
    Writes code [UInt8.ofNat (n / 256), UInt8.ofNat n] := by
  have hword : 256 * (UInt8.ofNat (n / 256)).toNat + (UInt8.ofNat n).toNat = n := by
    have hlt := lt_of_denotes h
    rw [hlength] at hlt
    simp only [UInt8.toNat_ofNat']
    omega
  exact .word hlength (hword.symm ▸ h)

private theorem exists_writes {code : List Char} (hlength : code.length = 8 ∨ code.length = 16)
    (hne : Text.dropPlus code ≠ []) (h : ∀ c ∈ Text.dropPlus code, c = '0' ∨ c = '1') :
    ∃ bytes, Writes code bytes := by
  obtain ⟨n, hn⟩ := Text.exists_denotes_two.mpr ⟨hne, h⟩
  rcases hlength with hlength | hlength
  · exact ⟨_, writes_byte hlength hn⟩
  · exact ⟨_, writes_word hlength hn⟩

/-- The lines that write bytes are those of the format and those with a sign. -/
theorem exists_writes_iff {code : List Char} :
    (∃ bytes, Writes code bytes) ↔ IsBits code ∨ IsSigned code := by
  constructor
  · rintro ⟨_, h⟩
    obtain ⟨hlength, n, hn⟩ : (code.length = 8 ∨ code.length = 16) ∧
        ∃ n, Text.Denotes 2 (Text.dropPlus code) n := by
      cases h with
      | byte hlength hn => exact ⟨.inl hlength, _, hn⟩
      | word hlength hn => exact ⟨.inr hlength, _, hn⟩
    have hdigits := (Text.exists_denotes_two.mp ⟨n, hn⟩).2
    by_cases hplus : code.head? = some '+'
    · obtain ⟨digits, rfl⟩ := List.head?_eq_some_iff.mp hplus
      rw [List.length_cons] at hlength
      exact .inr ⟨digits, rfl, by omega, hdigits⟩
    · rw [Text.dropPlus, if_neg hplus] at hdigits
      exact .inl ⟨hlength, hdigits⟩
  · rintro (⟨hlength, hdigits⟩ | ⟨digits, rfl, hlength, hdigits⟩)
    · have hdrop := dropPlus_of_digits hdigits
      refine exists_writes hlength ?_ (hdrop.symm ▸ hdigits)
      rw [hdrop, ← List.length_pos_iff]
      omega
    · refine exists_writes (by rw [List.length_cons]; omega) ?_ hdigits
      change digits ≠ []
      rw [← List.length_pos_iff]
      omega

private theorem utf8ByteSize_of_denotes {code : String} {n : Nat}
    (h : Text.Denotes 2 (Text.dropPlus code.toList) n) :
    code.utf8ByteSize = code.toList.length := by
  have hdigits := (Text.exists_denotes_two.mp ⟨n, h⟩).2
  have hchars : ∀ c ∈ code.toList, c = '+' ∨ c = '0' ∨ c = '1' := by
    by_cases hplus : code.toList.head? = some '+'
    · obtain ⟨digits, hcode⟩ := List.head?_eq_some_iff.mp hplus
      rw [hcode] at hdigits ⊢
      exact List.forall_mem_cons.mpr ⟨.inl rfl, fun c hc => .inr (hdigits c hc)⟩
    · rw [Text.dropPlus, if_neg hplus] at hdigits
      exact fun c hc => .inr (hdigits c hc)
  have hsize := utf8ByteSize_of_ascii (s := code.toList) fun c hc => by
    rcases hchars c hc with rfl | rfl | rfl <;> decide
  rwa [String.ofList_toList] at hsize

theorem lineBytes_eq_ok {code : String} {bytes : List UInt8} :
    lineBytes code = .ok bytes ↔ Writes code.toList bytes := by
  have hvalue (n : Nat) : Text.unsigned? 2 (Nat.pow 2 16) code.toList = some n ↔
      Text.Denotes 2 (Text.dropPlus code.toList) n ∧ n < 65536 := by
    rw [Text.unsigned?_eq_some_iff (by decide), Text.denotes_two_capitals]
  constructor
  · intro h
    unfold lineBytes at h
    dsimp only at h
    split at h
    · rename_i n hn
      obtain ⟨hn, _⟩ := (hvalue n).mp hn
      rw [utf8ByteSize_of_denotes hn] at h
      split at h
      · rename_i hlength
        cases h
        exact writes_word hlength hn
      · split at h
        · rename_i hlength
          cases h
          exact writes_byte hlength hn
        · cases h
    · cases h
  · intro h
    cases h with
    | byte hlength hn =>
      rename_i b
      have hlt := b.toNat_lt
      have hsome := (hvalue b.toNat).mpr ⟨hn, by omega⟩
      simp [lineBytes, hsome, utf8ByteSize_of_denotes hn, hlength]
    | word hlength hn =>
      rename_i high low
      have hhigh := high.toNat_lt
      have hlow := low.toNat_lt
      have hsome := (hvalue _).mpr ⟨hn, by omega⟩
      have hhighByte : UInt8.ofNat ((256 * high.toNat + low.toNat) / 256) = high := by
        rw [show (256 * high.toNat + low.toNat) / 256 = high.toNat by omega, UInt8.ofNat_toNat]
      have hlowByte : UInt8.ofNat (256 * high.toNat + low.toNat) = low := by
        apply UInt8.toNat_inj.mp
        rw [UInt8.toNat_ofNat']
        omega
      simp [lineBytes, hsome, utf8ByteSize_of_denotes hn, hlength, hhighByte, hlowByte]

private theorem notBits_of_lineBytes {code : String} {e : Error} (h : lineBytes code = .error e) :
    e = .malformed (.notBits code) := by
  unfold lineBytes at h
  dsimp only at h
  split at h
  · split at h
    · cases h
    · split at h
      · cases h
      · cases h
        rfl
  · cases h
    rfl

theorem lineBytes_eq_error {code : String} {e : Error} :
    lineBytes code = .error e ↔
      ¬ (IsBits code.toList ∨ IsSigned code.toList) ∧ e = .malformed (.notBits code) := by
  rw [← exists_writes_iff]
  simp only [← lineBytes_eq_ok]
  cases hread : lineBytes code with
  | ok bytes => simp
  | error e' => simp [notBits_of_lineBytes hread, eq_comm]

/-! ## Whole dumps -/

/-- A line that the reader takes: its code, if it has any, is binary digits, of which the first may
be a plus sign. -/
def Readable (raw : String) : Prop :=
  lineCode raw ≠ "" → IsBits (lineCode raw).toList ∨ IsSigned (lineCode raw).toList

theorem readable_iff {raw : String} :
    Readable raw ↔ (lineCode raw ≠ "" → ∃ bytes, lineBytes (lineCode raw) = .ok bytes) := by
  simp only [Readable, lineBytes_eq_ok, exists_writes_iff]

theorem parse_eq_ok {text : String} {bytes : List UInt8} :
    parse text = .ok bytes ↔ ∃ chunks,
      List.Forall₂ (fun code chunk => Writes code.toList chunk)
        (((textLines text).map lineCode).filter (· ≠ "")) chunks ∧ bytes = chunks.flatten := by
  unfold parse SourceLine.ofText
  simp only [bind_eq_ok, SourceLine.mapM_numbered_eq_ok, lineBytes_eq_ok]
  simp [pure, Except.pure, eq_comm]

theorem parse_eq_error {text : String} {d : Diagnostic} :
    parse text = .error d ↔ ∃ before raw after, textLines text = before ++ raw :: after ∧
      (∀ raw ∈ before, Readable raw) ∧ ¬ Readable raw ∧
      d = ⟨before.length + 1, raw, .malformed (.notBits (lineCode raw))⟩ := by
  have hparse : parse text = .error d ↔ (SourceLine.numbered 1 (textLines text)).mapM
      (fun l => l.diagnose (lineBytes l.code)) = .error d := by
    unfold parse SourceLine.ofText
    rw [bind_eq_error]
    simp [pure, Except.pure]
  rw [hparse, SourceLine.mapM_numbered_eq_error]
  simp only [readable_iff]
  constructor
  · rintro ⟨before, raw, after, e, hsplit, hbefore, hne, he, rfl⟩
    refine ⟨before, raw, after, hsplit, hbefore, ?_, ?_⟩
    · intro h
      obtain ⟨bytes, hbytes⟩ := h hne
      rw [hbytes] at he
      cases he
    · rw [notBits_of_lineBytes he, Nat.add_comm]
  · rintro ⟨before, raw, after, hsplit, hbefore, hraw, rfl⟩
    obtain ⟨hne, hraw⟩ := Classical.not_imp.mp hraw
    refine ⟨before, raw, after, _, hsplit, hbefore, hne, lineBytes_eq_error.mpr ⟨?_, rfl⟩, ?_⟩
    · simpa only [lineBytes_eq_ok, exists_writes_iff] using hraw
    · rw [Nat.add_comm]

/-- Reading succeeds on the dumps whose lines are all readable, and the bytes are those that the
lines write, in order. Otherwise the first line that is not readable is reported with its number and
text. -/
theorem parse_exact (text : String) :
    ((∃ bytes, parse text = .ok bytes) ↔ ∀ raw ∈ textLines text, Readable raw) ∧
    (∀ bytes, parse text = .ok bytes ↔ ∃ chunks,
      List.Forall₂ (fun code chunk => Writes code.toList chunk)
        (((textLines text).map lineCode).filter (· ≠ "")) chunks ∧ bytes = chunks.flatten) ∧
    ∀ d, parse text = .error d ↔ ∃ before raw after, textLines text = before ++ raw :: after ∧
      (∀ raw ∈ before, Readable raw) ∧ ¬ Readable raw ∧
      d = ⟨before.length + 1, raw, .malformed (.notBits (lineCode raw))⟩ := by
  refine ⟨?_, fun _ => parse_eq_ok, fun _ => parse_eq_error⟩
  simp only [readable_iff]
  rw [← SourceLine.exists_mapM_numbered]
  unfold parse
  simp only [bind_eq_ok]
  constructor
  · rintro ⟨_, chunks, hchunks, _⟩
    exact ⟨chunks, hchunks⟩
  · rintro ⟨chunks, hchunks⟩
    exact ⟨_, chunks, hchunks, rfl⟩

/-- A plus sign and seven digits are read as a byte. -/
theorem parse_signed : parse "+0000001" = .ok [1] ∧
    textLines "+0000001" = ["+0000001"] ∧ ¬ IsBits (lineCode "+0000001").toList := by
  refine ⟨by decide, by decide, ?_⟩
  rintro ⟨_, hdigits⟩
  exact absurd (hdigits '+' (by decide)) (by decide)

end Dump

end SuperH
