import SuperH.Proofs.DataWriting
import SuperH.Proofs.Diagnostics
import SuperH.Proofs.Disassembly
import SuperH.Proofs.ExactEncoding
import SuperH.Proofs.OperandGrammar

/-!
# Numbers out of range

An error about a number out of range leads back to a number that the line writes: one of an operand,
a value of a directive or the address of a vector. That number is indeed out of range, and it is the
one that is reported, except for addresses from `2 ^ 63` on, which are reported as negative numbers.
-/
namespace SuperH

/-- The numbers that a line of a section writes, each with the bits that it has to fit. -/
inductive NumberIn : Section → String → Int → Nat → Prop
  | operand {code : String} {label : Option String} {inst : WrittenInst} {token : String}
      {op : Operand} {v : Int} {entry : Entry} {bits : Nat} :
      WrittenCode.parse code = .ok ⟨label, some inst⟩ → token ∈ inst.operands →
      Operand.Spelling (Operand.matched token) op → op.number? = some v →
      sh2.lookup? inst.mnemonic (inst.operands.map fun t => (Operand.read t).mode) = some entry →
      entry.format.fieldWidth = some bits → NumberIn .text code v bits
  | value {code : String} {written : WrittenData} {d : Directive} {arg : List Char} {v : Int} :
      WrittenData.parse code = .ok written → Directive.parse written.directive = .ok d →
      d.takesValues = true → arg ∈ written.args.toList.splitOn ',' →
      Literal.Value (Text.capitals (Text.trim arg)) v → NumberIn .data code v (8 * d.width)
  | address {code name : String} {rest word : List Char} {n : Nat} :
      takeLabel code.toList = .ok (some name, rest) → Text.firstWord? rest = some word →
      Text.Denotes 16 (Text.capitals (Text.dropPlus (Text.dropHexMark word))) n → n < 2 ^ 64 →
      NumberIn .vectable code n 32

variable {value : Int} {bits : Nat}

/-! ## Errors about something else -/

theorem takeLabel_ne_outOfRange (code : List Char) :
    takeLabel code ≠ .error (.outOfRange value bits) := by
  unfold takeLabel
  split
  · simp
  · split <;> simp

private theorem operandTexts_ne_outOfRange (args : String) :
    operandTexts args ≠ .error (.outOfRange value bits) := by
  unfold operandTexts
  dsimp only
  split
  · simp
  · split
    · simp
    · split <;> simp

private theorem WrittenCode.parse_ne_outOfRange (code : String) :
    WrittenCode.parse code ≠ .error (.outOfRange value bits) := by
  intro h
  rcases bind_eq_error.mp h with h | ⟨⟨label, rest⟩, _, h⟩
  · exact takeLabel_ne_outOfRange _ h
  · dsimp only at h
    split at h
    · cases h
    · split at h
      · cases h
      · rcases bind_eq_error.mp h with h | ⟨_, _, h⟩
        · exact operandTexts_ne_outOfRange _ h
        · cases h

private theorem WrittenData.parse_ne_outOfRange (code : String) :
    WrittenData.parse code ≠ .error (.outOfRange value bits) := by
  intro h
  rcases bind_eq_error.mp h with h | ⟨⟨label, rest⟩, _, h⟩
  · exact takeLabel_ne_outOfRange _ h
  · dsimp only at h
    split at h <;> cases h

private theorem Directive.parse_ne_outOfRange (name : String) :
    Directive.parse name ≠ .error (.outOfRange value bits) := by
  unfold Directive.parse
  split <;> simp

private theorem Literal.value_ne_outOfRange (s : String) :
    Literal.value s ≠ .error (.outOfRange value bits) := by
  unfold Literal.value Literal.number
  dsimp only
  split
  · split <;> simp
  · split <;> simp

private theorem Literal.unescape_ne_outOfRange (s : List Char) :
    Literal.unescape s ≠ .error (.outOfRange value bits) := by
  have hcons (first : Except Error Char) {rest : List Char}
      (hfirst : first ≠ .error (.outOfRange value bits))
      (hrest : Literal.unescape rest ≠ .error (.outOfRange value bits)) :
      (do return (← first) :: (← Literal.unescape rest)) ≠ .error (.outOfRange value bits) := by
    intro h
    rcases bind_eq_error.mp h with h | ⟨_, _, h⟩
    · exact hfirst h
    · rcases bind_eq_error.mp h with h | ⟨_, _, h⟩
      · exact hrest h
      · cases h
  fun_induction Literal.unescape s with
  | case1 | case2 => simp
  | case3 _ _ ih | case4 _ _ ih | case5 _ _ ih | case6 _ _ ih | case7 _ _ ih | case8 _ _ ih =>
    exact hcons _ (by simp) ih
  | case9 _ _ _ _ _ _ _ _ _ ih => exact hcons _ (by simp) ih
  | case10 c rest _ _ ih => exact hcons (.ok c) (by simp) ih

private theorem Literal.quoted_ne_outOfRange (s : String) :
    Literal.quoted s ≠ .error (.outOfRange value bits) := by
  intro h
  unfold Literal.quoted at h
  split at h
  · cases h
  · rcases bind_eq_error.mp h with h | ⟨_, _, h⟩
    · exact Literal.unescape_ne_outOfRange _ h
    · cases h

/-! ## The number of an error -/

theorem Operand.spelling_of_number? {token : String} {v : Int}
    (h : (Operand.read token).number? = some v) :
    Operand.Spelling (Operand.matched token) (Operand.read token) := by
  rw [Operand.read_eq] at h ⊢
  cases hop : Operand.addressed? (Operand.matched token) with
  | none =>
    rw [hop] at h
    cases h
  | some op => exact Operand.spelling_of_addressed? (Text.capitals_upper _) hop

private theorem Instruction.ofWritten_outOfRange {inst : WrittenInst}
    (h : Instruction.ofWritten inst = .error (.outOfRange value bits)) :
    ∃ token ∈ inst.operands, ∃ op entry, Operand.Spelling (Operand.matched token) op ∧
      op.number? = some value ∧
      sh2.lookup? inst.mnemonic (inst.operands.map fun t => (Operand.read t).mode) = some entry ∧
      entry.format.fieldWidth = some bits ∧ ¬ Fits value bits := by
  have hmodes : (inst.operands.map Operand.read).map Operand.mode =
      inst.operands.map fun t => (Operand.read t).mode := by
    rw [List.map_map]
    rfl
  simp only [Instruction.ofWritten, hmodes] at h
  split at h
  · cases h
  · split at h
    · cases h
    · rename_i entry hentry
      split at h
      · rename_i e hencode
        obtain ⟨he, _, hshape⟩ := lookup?_eq_some hentry
        have hrefuses := (Entry.encode_eq_error_iff (instructions_wellFormed entry he)
          (hmodes.trans hshape.symm) e).mp hencode
        rcases hrefuses with ⟨r, _, rfl⟩ | ⟨_, op, hop, v, width, hv, hwidth, hfits, rfl⟩
        · cases h
        · cases h
          obtain ⟨token, htoken, rfl⟩ := List.mem_map.mp hop
          rw [Format.inField_of_width hwidth] at hfits
          exact ⟨token, htoken, _, entry, Operand.spelling_of_number? hv, hv, hentry, hwidth, hfits⟩
      · cases h

private theorem Directive.payload_outOfRange {d : Directive} {args : String}
    (h : d.payload args = .error (.outOfRange value bits)) :
    d.takesValues = true ∧ bits = 8 * d.width ∧ ∃ arg ∈ args.toList.splitOn ',',
      Literal.Value (Text.capitals (Text.trim arg)) value ∧ ¬ Fits value bits := by
  have htakes : d.takesValues = true := by
    cases d with
    | byte => rfl
    | word => rfl
    | long => rfl
    | ascii => exact absurd h (Literal.quoted_ne_outOfRange args)
    | asciiz =>
      rcases bind_eq_error.mp h with h | ⟨_, _, h⟩
      · exact absurd h (Literal.quoted_ne_outOfRange args)
      · cases h
  rw [Directive.payload_of_takesValues htakes, Directive.values] at h
  split at h
  · cases h
  · rw [Text.splitOn_eq] at h
    rcases bind_eq_error.mp h with h | ⟨_, _, h⟩
    · obtain ⟨before, arg, after, hsplit, _, h⟩ := mapM_eq_error.mp h
      have harg : arg ∈ args.toList.splitOn ',' := by
        rw [hsplit]
        exact List.mem_append_right _ List.mem_cons_self
      rcases bind_eq_error.mp h with h | ⟨v, hv, h⟩
      · exact absurd h (Literal.value_ne_outOfRange _)
      · obtain ⟨hfits, h⟩ := Literal.bigEndian_eq_error.mp h
        obtain ⟨rfl, rfl⟩ := Error.outOfRange.inj h
        rw [Literal.value_eq_ok_iff, String.toList_ofList] at hv
        exact ⟨htakes, rfl, arg, harg, hv, hfits⟩
    · cases h

/-- A vector reports its address as a signed number of 64 bits. -/
theorem WrittenVector.parse_outOfRange {code : String}
    (h : WrittenVector.parse code = .error (.outOfRange value bits)) :
    bits = 32 ∧ ∃ name rest word, ∃ n : Nat, takeLabel code.toList = .ok (some name, rest) ∧
      Text.firstWord? rest = some word ∧
      Text.Denotes 16 (Text.capitals (Text.dropPlus (Text.dropHexMark word))) n ∧ n < 2 ^ 64 ∧
      2 ^ 32 ≤ n ∧ value = Int.bmod n (2 ^ 64) := by
  rcases bind_eq_error.mp h with h | ⟨⟨label, rest⟩, hlabel, h⟩
  · exact absurd h (takeLabel_ne_outOfRange _)
  · cases label with
    | none => cases h
    | some name =>
      dsimp only at h
      split at h
      · cases h
      · rename_i word hword
        split at h
        · cases h
        · rename_i n hn
          obtain ⟨hdigits, hlt⟩ := (Text.unsigned?_eq_some_iff (by decide)).mp hn
          split at h
          · cases h
          · rename_i hlarge
            obtain ⟨hvalue, hbits⟩ := Error.outOfRange.inj (Except.error.inj h)
            exact ⟨hbits.symm, name, rest, word, n, hlabel, hword, hdigits, hlt, not_lt.mp hlarge,
              hvalue.symm⟩

/-- The number that is reported for a number out of range. -/
def reported (sec : Section) (written : Int) : Int :=
  if sec = .vectable ∧ 2 ^ 63 ≤ written then written - 2 ^ 64 else written

private theorem bmod_address {n : Nat} (h : n < 2 ^ 64) :
    Int.bmod n (2 ^ 64) = reported .vectable n := by
  simp only [reported, Int.bmod, true_and]
  split <;> split <;> omega

/-- Reporting an address less `2 ^ 64` brings it into range if it comes close enough to zero. -/
theorem NumberIn.reported_inRange {sec : Section} {code : String} {written : Int}
    (h : NumberIn sec code written bits)
    (hout : ¬ (-2 ^ (bits - 1) ≤ written ∧ written ≤ 2 ^ bits - 1)) :
    (-2 ^ (bits - 1) ≤ reported sec written ∧ reported sec written ≤ 2 ^ bits - 1) ↔
      sec = .vectable ∧ 2 ^ 64 - 2 ^ 31 ≤ written := by
  cases h with
  | operand => simpa [reported] using hout
  | value => simpa [reported] using hout
  | address _ _ _ hlt =>
    simp only [reported, true_and]
    split <;> omega

theorem Statement.read_outOfRange {current : Option Section} {code : String}
    (h : Statement.read current code = .error (.outOfRange value bits)) :
    ∃ sec written, current = some sec ∧ NumberIn sec code written bits ∧ ¬ Fits written bits ∧
      value = reported sec written := by
  unfold Statement.read at h
  split at h
  · rcases bind_eq_error.mp h with h | ⟨⟨label, inst⟩, hcode, h⟩
    · exact absurd h (WrittenCode.parse_ne_outOfRange code)
    · rcases bind_eq_error.mp h with h | ⟨_, _, h⟩
      · cases inst with
        | none => cases h
        | some inst =>
          rcases bind_eq_error.mp h with h | ⟨_, _, h⟩
          · obtain ⟨token, htoken, op, entry, hop, hv, hentry, hwidth, hfits⟩ :=
              Instruction.ofWritten_outOfRange h
            exact ⟨.text, value, rfl, .operand hcode htoken hop hv hentry hwidth, hfits,
              by simp [reported]⟩
          · cases h
      · cases h
  · rcases bind_eq_error.mp h with h | ⟨written, hcode, h⟩
    · exact absurd h (WrittenData.parse_ne_outOfRange code)
    · rcases bind_eq_error.mp h with h | ⟨d, hd, h⟩
      · exact absurd h (Directive.parse_ne_outOfRange _)
      · rcases bind_eq_error.mp h with h | ⟨_, _, h⟩
        · obtain ⟨htakes, rfl, arg, harg, hv, hfits⟩ := Directive.payload_outOfRange h
          exact ⟨.data, value, rfl, .value hcode hd htakes harg hv, hfits, by simp [reported]⟩
        · cases h
  · rcases bind_eq_error.mp h with h | ⟨_, _, h⟩
    · obtain ⟨rfl, name, rest, word, n, hlabel, hword, hn, hlt, hlarge, hvalue⟩ :=
        WrittenVector.parse_outOfRange h
      refine ⟨.vectable, n, rfl, .address hlabel hword hn hlt, ?_, hvalue.trans (bmod_address hlt)⟩
      rw [fits_iff]
      omega
    · cases h
  · cases h

/-! ## Sources -/

/-- A number out of range is one that the line writes. It does not fit, and it is reported as it is
written, except that an address from `2 ^ 63` on is reported less `2 ^ 64`. So a number in range is
reported for the addresses from `2 ^ 64 - 2 ^ 31` on, and for nothing else. -/
theorem Program.ofSource_outOfRange {source : String} {line : Nat} {raw : String}
    (h : Program.ofSource source = .error ⟨line, raw, .outOfRange value bits⟩) :
    (textLines source)[line - 1]? = some raw ∧ ∃ sec written,
      (some sec, ⟨line, raw, lineCode raw⟩) ∈ inSections none (SourceLine.ofText source) ∧
      NumberIn sec (lineCode raw) written bits ∧
      ¬ (-2 ^ (bits - 1) ≤ written ∧ written ≤ 2 ^ bits - 1) ∧
      value = (if sec = .vectable ∧ 2 ^ 63 ≤ written then written - 2 ^ 64 else written) ∧
      ((-2 ^ (bits - 1) ≤ value ∧ value ≤ 2 ^ bits - 1) ↔
        sec = .vectable ∧ 2 ^ 64 - 2 ^ 31 ≤ written) := by
  rw [Program.ofSource_eq_error, readLines_eq_mapM] at h
  obtain ⟨before, x, after, hsplit, _, h⟩ := mapM_eq_error.mp h
  obtain ⟨e, hread, hdiagnostic⟩ := readLine_eq_error.mp h
  obtain ⟨rfl, rfl, rfl⟩ := Diagnostic.mk.inj hdiagnostic
  obtain ⟨sec, written, hsec, hnumber, hfits, hvalue⟩ := Statement.read_outOfRange hread
  have hx : x ∈ inSections none (SourceLine.ofText source) :=
    hsplit ▸ List.mem_append_right _ List.mem_cons_self
  obtain ⟨i, hraw, hline, hcode⟩ := mem_numbered (mem_of_mem_inSections hx)
  have hout : ¬ (-2 ^ (bits - 1) ≤ written ∧ written ≤ 2 ^ bits - 1) := by
    rwa [Int.le_sub_one_iff, ← fits_iff]
  rw [hcode] at hnumber
  refine ⟨?_, sec, written, ?_, hnumber, hout, hvalue, ?_⟩
  · rw [hline, Nat.add_sub_cancel_left, hraw]
  · rw [← hsec, ← hcode]
    exact hx
  · rw [hvalue]
    exact hnumber.reported_inRange hout

/-- The second value of a list is too low for a byte. -/
theorem Program.ofSource_outOfRange_byte :
    Program.ofSource ".data\n.byte 1, -0x81" =
      .error ⟨2, ".byte 1, -0x81", .outOfRange (-129) 8⟩ ∧
    ∃ sec written, NumberIn sec (lineCode ".byte 1, -0x81") written 8 ∧
      ¬ (-2 ^ (8 - 1) ≤ written ∧ written ≤ 2 ^ 8 - 1) ∧
      -129 = (if sec = .vectable ∧ 2 ^ 63 ≤ written then written - 2 ^ 64 else written) := by
  have h : Program.ofSource ".data\n.byte 1, -0x81" =
      .error ⟨2, ".byte 1, -0x81", .outOfRange (-129) 8⟩ := by
    decide
  obtain ⟨_, sec, written, _, hnumber, hout, hvalue, _⟩ := Program.ofSource_outOfRange h
  exact ⟨h, sec, written, hnumber, hout, hvalue⟩

/-- The highest address that can be read is reported as `-1`, which fits in 32 bits. -/
theorem Program.ofSource_outOfRange_wrapped :
    Program.ofSource ".vectable\nV: 0xFFFFFFFFFFFFFFFF" =
      .error ⟨2, "V: 0xFFFFFFFFFFFFFFFF", .outOfRange (-1) 32⟩ ∧
    NumberIn .vectable "V: 0xFFFFFFFFFFFFFFFF" 18446744073709551615 32 ∧
    -2 ^ (32 - 1) ≤ (-1 : Int) ∧ (-1 : Int) ≤ 2 ^ 32 - 1 := by
  have hdigits : Text.Denotes 16 (Text.capitals "FFFFFFFFFFFFFFFF".toList) 18446744073709551615 :=
    (Text.natural?_eq_some_iff (by decide)).mp (by decide)
  have hlabel : takeLabel "V: 0xFFFFFFFFFFFFFFFF".toList =
      .ok (some "V", "0xFFFFFFFFFFFFFFFF".toList) := by
    decide
  have hword : Text.firstWord? "0xFFFFFFFFFFFFFFFF".toList = some "0xFFFFFFFFFFFFFFFF".toList := by
    decide
  exact ⟨by decide, .address hlabel hword hdigits (by decide), by decide, by decide⟩

end SuperH
