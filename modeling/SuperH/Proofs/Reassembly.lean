import SuperH.Proofs.Linking
import SuperH.Proofs.Names
import SuperH.Proofs.OperandText
import SuperH.Proofs.Placing
import SuperH.Proofs.Reencoding
import SuperH.Proofs.Streams

/-!
# Assembling what was disassembled

Words that decode can be written as a source: a line for each word, with a label of its own, and a
last label after them. A branch calls the label that its displacement leads to, as long as it leads
to one; all other operands are printed as they decode. The source assembles to the same words.
-/
namespace SuperH

def codeLabel (i : Nat) : String :=
  "L" ++ toString i

def labelledLine (i : Nat) (mnemonic : String) (operands : List String) : String :=
  codeLabel i ++ ": " ++ mnemonic ++ " " ++ ", ".intercalate operands

/-- The operands of the word of index `i` as they are written: those that it decodes to, but for a
branch the label that its displacement leads to. -/
def writtenOperands (i : Nat) (word : Word) (e : Entry) (ops : List Operand) : List String :=
  if e.branchWidth.isSome then [codeLabel (i + e.format.branchDisp word).toNat]
  else ops.map Operand.text

def wordLine? (pc i : Nat) (word : Word) : Option String :=
  (sh2.decode? word pc).map fun (e, ops) =>
    labelledLine i e.mnemonic (writtenOperands i word e ops)

/-- A source for words that decode, each at its own address. -/
def sourceOf? (pc : Nat → Nat) (words : List Word) : Option String :=
  (words.zipIdx.mapM fun (word, i) => wordLine? (pc i) i word).map fun lines =>
    String.join ((".text" :: lines ++ [codeLabel words.length ++ ":"]).map (· ++ "\n"))

/-- Every word decodes, and a branch among them leads to one of the words or just behind the last
one. -/
def SelfContained (pc : Nat → Nat) (words : List Word) : Prop :=
  ∀ x ∈ words.zipIdx, ∃ d ∈ sh2.decode? x.1 (pc x.2), d.1.branchWidth.isSome = true →
    0 ≤ x.2 + d.1.format.branchDisp x.1 ∧ x.2 + d.1.format.branchDisp x.1 ≤ words.length

instance (pc : Nat → Nat) (words : List Word) : Decidable (SelfContained pc words) :=
  inferInstanceAs (Decidable (∀ x ∈ words.zipIdx, _))

/-! ## Labels -/

theorem toList_codeLabel (i : Nat) : (codeLabel i).toList = 'L' :: Nat.toDigits 10 i := by
  simp [codeLabel]

private theorem codeLabel_injective {i j : Nat} (h : codeLabel i = codeLabel j) : i = j := by
  have hdigits : Nat.toDigits 10 i = Nat.toDigits 10 j := by
    have hlist := congrArg String.toList h
    rw [toList_codeLabel, toList_codeLabel] at hlist
    exact (List.cons.inj hlist).2
  rw [← Nat.ofDigitChars_ten_toDigits (n := i), hdigits, Nat.ofDigitChars_ten_toDigits]

private theorem flat_codeLabel (i : Nat) : Text.Flat (codeLabel i).toList := by
  rw [toList_codeLabel]
  refine Text.flat_cons.mpr ⟨by decide, List.all_eq_true.mpr fun c hc => ?_⟩
  apply Text.isFlat_of_isDigit
  exact Nat.isDigit_of_mem_toDigits (by omega) (by omega) hc

private theorem upcase_codeLabel (i : Nat) : Text.upcase (codeLabel i) = codeLabel i := by
  rw [Text.upcase, Text.upper_of_flat (flat_codeLabel i), String.ofList_toList]

private theorem isIdentifier_codeLabel (i : Nat) : isIdentifier (codeLabel i) = true := by
  rw [isIdentifier, toList_codeLabel, isIdentifierText, Bool.and_eq_true, List.all_eq_true]
  refine ⟨by decide, fun c hc => ?_⟩
  have hdigit := Nat.isDigit_of_mem_toDigits (by omega) (by omega) hc
  exact of_isDigit (by decide) hdigit

private theorem isLabelName_codeLabel (i : Nat) : IsLabelName (codeLabel i).toList :=
  isLabelName_of_identifier (isIdentifier_codeLabel i)

/-- No register has a name that starts like a label. -/
theorem read_codeLabel (i : Nat) : Operand.read (codeLabel i) = .label (codeLabel i) := by
  have hreg : Operand.regOf? ('L' :: Nat.toDigits 10 i) = none := by
    rw [Operand.regOf?, Reg.parse?, List.find?_eq_none]
    intro r _ hsame
    have hhead := congrArg List.head? (eq_of_beq hsame)
    simp [Reg.name] at hhead
  have hsys : SysReg.parse? (String.ofList ('L' :: Nat.toDigits 10 i)) = none := by
    rw [SysReg.parse?, List.find?_eq_none]
    intro r _ hsame
    have hhead := congrArg List.head? (eq_of_beq hsame)
    cases r <;> simp [SysReg.name] at hhead
  rw [Operand.read_of_flat (flat_codeLabel i), toList_codeLabel, Operand.addressed?, hreg, hsys]
  · rfl
  all_goals simp

/-! ## Lines -/

theorem instructions_mnemonic : ∀ e ∈ instructions, e.mnemonic.toList ≠ [] ∧
    Text.Flat e.mnemonic.toList ∧ e.mnemonic.toList.head? ≠ some '.' := by
  decide +kernel

private theorem instructions_lookup :
    ∀ e ∈ instructions, sh2.lookup? e.mnemonic e.shape = some e := by
  decide +kernel

private theorem reads_line {e : Entry} (he : e ∈ instructions) (i : Nat) {texts : List String}
    (htexts : ∀ t ∈ texts, IsOperandText t.toList) {inst : Instruction}
    (hinst : Instruction.ofWritten ⟨e.mnemonic, texts⟩ = .ok inst) :
    Reads .text (labelledLine i e.mnemonic texts) (.code (some (codeLabel i)) (some inst)) := by
  obtain ⟨hne, hflat, hdot⟩ := instructions_mnemonic e he
  have hmnemonic : IsMnemonic e.mnemonic.toList :=
    ⟨hne, fun c hc => (Text.isFlat_iff.mp (hflat.isFlat hc)).1, hdot, Text.plain_of_flat hflat⟩
  have hlists : ∀ x ∈ texts.map String.toList, IsOperandText x := by
    simpa using htexts
  have hline : labelledLine i e.mnemonic texts =
      String.ofList ((codeLabel i).toList ++ ':' :: ' ' :: (e.mnemonic.toList ++ ' ' ::
        [',', ' '].intercalate (texts.map String.toList))) := by
    rw [← String.toList_inj, String.toList_ofList]
    simp [labelledLine, String.toList_intercalate]
  have hupper : String.ofList (Text.upper (codeLabel i).toList) = codeLabel i := upcase_codeLabel i
  have hwritten : Instruction.ofWritten ⟨String.ofList (Text.upper e.mnemonic.toList),
      (texts.map String.toList).map String.ofList⟩ = .ok inst := by
    rw [Text.upper_of_flat hflat, String.ofList_toList, List.map_map]
    simpa [Function.comp_def] using hinst
  have hreads := reads_inst (isLabelName_codeLabel i) hmnemonic hlists hwritten
  rw [hupper] at hreads
  rw [hline]
  exact hreads

/-! ## Instructions -/

private theorem natAbs_toInt_lt {bits : Nat} (hbits : bits ≤ 16) (x : BitVec bits) :
    x.toInt.natAbs < 2 ^ 63 := by
  have hlt := x.isLt
  have hpow : 2 ^ bits ≤ 2 ^ 16 := Nat.pow_le_pow_right (by omega) hbits
  rw [BitVec.toInt_eq_toNat_cond]
  split <;> omega

private theorem natAbs_toNat_lt {bits : Nat} (hbits : bits ≤ 16) (x : BitVec bits) :
    (x.toNat : Int).natAbs < 2 ^ 63 := by
  have hlt := x.isLt
  have hpow : 2 ^ bits ≤ 2 ^ 16 := Nat.pow_le_pow_right (by omega) hbits
  omega

private theorem Format.natAbs_wordDisp_lt (f : Format) (word : Word) :
    (f.wordDisp word).natAbs < 2 ^ 63 := by
  unfold wordDisp
  split <;> first
    | exact natAbs_toNat_lt (by decide) _
    | exact natAbs_toInt_lt (by decide) _

private theorem Format.natAbs_wordImm_lt (f : Format) (word : Word) :
    (f.wordImm word).natAbs < 2 ^ 63 := by
  unfold wordImm
  split <;> first
    | exact natAbs_toNat_lt (by decide) _
    | exact natAbs_toInt_lt (by decide) _

private theorem Format.eq_of_branchWidth {f : Format} {bits : Nat} (hw : f.branchWidth = some bits)
    {word word' : Word} (hmask : word &&& f.mask = word' &&& f.mask)
    (hlow : word.extractLsb' 0 bits = word'.extractLsb' 0 bits) : word = word' := by
  have hwidth : f.fieldWidth = some bits := by
    cases f <;> cases hw <;> rfl
  have hregs (x : Word) : f.wordRegs x = [] := by
    cases f <;> cases hw <;> rfl
  have hfill (x : Word) (hx : x.extractLsb' 0 bits = word.extractLsb' 0 bits) :
      f.fill (x &&& f.mask) [] (word.extractLsb' 0 bits).toInt = x := by
    rw [← hregs x]
    apply Format.fill_wordRegs rfl
    intro width hwidth'
    rw [hwidth, Option.some.injEq] at hwidth'
    subst hwidth'
    rw [BitVec.ofInt_toInt, hx]
  rw [← hfill word rfl, hmask, hfill word' hlow.symm]

theorem Entry.branchWidth_eq_some {e : Entry} {bits : Nat} (h : e.branchWidth = some bits) :
    e.shape = [.label] ∧ e.format.branchWidth = some bits := by
  unfold branchWidth at h
  split at h
  · exact ⟨‹_›, h⟩
  · cases h

namespace Instruction

private theorem ofWritten_of_read {e : Entry} (he : e ∈ instructions) {texts : List String}
    {ops : List Operand} (hread : texts.map Operand.read = ops) (hlabel : badLabel? ops = none)
    (hshape : ops.map Operand.mode = e.shape) {word : Word} (hencode : e.encode ops = .ok word) :
    ofWritten ⟨e.mnemonic, texts⟩ = .ok ⟨e, ops, word⟩ := by
  simp only [ofWritten, hread, hlabel, hshape, instructions_lookup e he, hencode]

private theorem mode_ne_label {e : Entry} (hlabel : .label ∉ e.shape) {word : Word} {pc : Nat}
    {op : Operand} (hop : op ∈ e.format.decode word e.shape pc) : op.mode ≠ .label := by
  intro h
  have hshape := e.format.map_mode_decodeFrom word pc (e.format.wordRegs word) e.shape
  rw [← hshape] at hlabel
  exact hlabel (h ▸ List.mem_map_of_mem hop)

private theorem ofWritten_decode {e : Entry} (he : e ∈ instructions) (hlabel : .label ∉ e.shape)
    {word : Word} (hcovers : e.covers word = true) (pc : Nat) :
    ofWritten ⟨e.mnemonic, (e.format.decode word e.shape pc).map Operand.text⟩ =
      .ok ⟨e, e.format.decode word e.shape pc, word⟩ := by
  have hshape : (e.format.decode word e.shape pc).map Operand.mode = e.shape :=
    e.format.map_mode_decodeFrom word pc (e.format.wordRegs word) e.shape
  refine ofWritten_of_read he ?_ ?_ hshape (Entry.encode_decode he hlabel hcovers pc)
  · rw [List.map_map]
    have hread : ∀ op ∈ e.format.decode word e.shape pc,
        (Operand.read ∘ Operand.text) op = id op := by
      intro op hop
      apply Operand.read_text (mode_ne_label hlabel hop)
      · intro d hd
        rw [e.format.disp_of_mem_decodeFrom word pc hop hd]
        exact e.format.natAbs_wordDisp_lt word
      · intro v hv
        rw [e.format.imm_of_mem_decodeFrom word pc hop hv]
        exact e.format.natAbs_wordImm_lt word
    rw [List.map_congr_left hread, List.map_id]
  · rw [badLabel?, List.findSome?_eq_none_iff]
    intro op hop
    cases op <;> first | rfl | exact absurd rfl (mode_ne_label hlabel hop)

private theorem ofWritten_branch {e : Entry} (he : e ∈ instructions) {bits : Nat}
    (hbits : e.branchWidth = some bits) (j : Nat) :
    ofWritten ⟨e.mnemonic, [codeLabel j]⟩ = .ok ⟨e, [.label (codeLabel j)], e.opcode⟩ := by
  obtain ⟨hshape, hformat⟩ := Entry.branchWidth_eq_some hbits
  refine ofWritten_of_read he ?_ ?_ ?_ (Format.encode_label hformat e.opcode _)
  · rw [List.map_singleton, read_codeLabel]
  · simp [badLabel?, isIdentifier_codeLabel]
  · rw [hshape]
    rfl

end Instruction

/-- The displacement of a branch word comes back from the distance to the label it leads to. -/
theorem linkWord_branch {e : Entry} (he : e ∈ instructions) {bits : Nat}
    (hbits : e.branchWidth = some bits) {word : Word} (hcovers : e.covers word = true) {i j : Nat}
    (hj : (j : Int) = i + e.format.branchDisp word) {symbols : SymbolTable} {place : Placement}
    {symbol : Symbol} (hsymbol : symbols.get? (codeLabel j) = some symbol)
    (haddress : place.address symbol = place.codeAddress j) :
    Program.linkWord symbols place (place.codeAddress i) ⟨e, [.label (codeLabel j)], e.opcode⟩ =
      .ok word := by
  obtain ⟨_, hformat⟩ := Entry.branchWidth_eq_some hbits
  have hdistance : Int.tdiv ((place.address symbol : Int) - place.codeAddress i) 2 =
      (word.extractLsb' 0 bits).toInt := by
    have htwice : (place.address symbol : Int) - place.codeAddress i =
        (word.extractLsb' 0 bits).toInt * 2 := by
      rw [haddress, ← Format.branchDisp_eq hformat, Placement.codeAddress, Placement.codeAddress]
      push_cast
      omega
    rw [htwice, Int.mul_tdiv_cancel _ (by decide)]
  have hfits : FitsSigned (word.extractLsb' 0 bits).toInt bits :=
    ⟨BitVec.le_toInt _, BitVec.toInt_lt⟩
  obtain ⟨linked, hlinked, hhigh, hlow⟩ := Format.withDisp_of_fits hformat e.opcode hfits
  have hword : linked = word := by
    apply Format.eq_of_branchWidth hformat
    · rw [Format.and_mask_of_shiftRight hformat hhigh, (instructions_wellFormed e he).1,
        Entry.covers_iff.mp hcovers]
    · rw [hlow, BitVec.ofInt_toInt]
  have htarget :
      Instruction.target? ⟨e, [.label (codeLabel j)], e.opcode⟩ = some (codeLabel j) := by
    simp [Instruction.target?, hbits]
  simp only [Program.linkWord, htarget, SymbolTable.resolve, hsymbol, bind, Except.bind, hdistance,
    hlinked, hword]
  rfl

/-- The labels of `n` words and the one after them stand for the addresses of the words. -/
def LabelsPlaced (n : Nat) (symbols : SymbolTable) (place : Placement) : Prop :=
  ∀ j ≤ n, ∃ symbol, symbols.get? (codeLabel j) = some symbol ∧
    place.address symbol = place.codeAddress j

private theorem exists_wordLine {pc i n : Nat} {word : Word} {e : Entry} {ops : List Operand}
    (h : sh2.decode? word pc = some (e, ops))
    (hbranch : e.branchWidth.isSome = true →
      0 ≤ i + e.format.branchDisp word ∧ i + e.format.branchDisp word ≤ n) :
    ∃ raw inst, wordLine? pc i word = some raw ∧
      Reads .text raw (.code (some (codeLabel i)) (some inst)) ∧
      ∀ symbols place, LabelsPlaced n symbols place →
        Program.linkWord symbols place (place.codeAddress i) inst = .ok word := by
  obtain ⟨he, hcovers, hops⟩ := covers_of_decode? h
  have hline : wordLine? pc i word =
      some (labelledLine i e.mnemonic (writtenOperands i word e ops)) := by
    rw [wordLine?, h, Option.map_some]
  rw [hline]
  cases hbits : e.branchWidth with
  | some bits =>
    rw [hbits] at hbranch
    obtain ⟨hlow, hhigh⟩ := hbranch rfl
    obtain ⟨j, hj⟩ : ∃ j : Nat, i + e.format.branchDisp word = j :=
      ⟨_, (Int.toNat_of_nonneg hlow).symm⟩
    have htexts : writtenOperands i word e ops = [codeLabel j] := by
      simp [writtenOperands, hbits, hj]
    rw [htexts]
    refine ⟨_, ⟨e, [.label (codeLabel j)], e.opcode⟩, rfl, ?_, ?_⟩
    · refine reads_line he i ?_ (Instruction.ofWritten_branch he hbits j)
      intro t ht
      rw [List.mem_singleton.mp ht]
      exact isOperandText_of_flat (isLabelName_codeLabel j).ne_nil (flat_codeLabel j)
    · intro symbols place hplaced
      obtain ⟨symbol, hsymbol, haddress⟩ := hplaced j (by omega)
      exact linkWord_branch he hbits hcovers hj.symm hsymbol haddress
  | none =>
    -- An address that a word decodes to would not read back as an operand.
    have hlabel : .label ∉ e.shape := by
      intro hmem
      obtain ⟨hshape, hwidth⟩ := (instructions_wellFormed e he).2.2.2.2.2.2 hmem
      rw [Entry.branchWidth, if_pos hshape] at hbits
      rw [hbits] at hwidth
      cases hwidth
    have htexts : writtenOperands i word e ops = ops.map Operand.text := by
      simp [writtenOperands, hbits]
    rw [htexts]
    refine ⟨_, ⟨e, ops, word⟩, rfl, ?_, ?_⟩
    · rw [hops]
      refine reads_line he i ?_ (Instruction.ofWritten_decode he hlabel hcovers pc)
      intro t ht
      obtain ⟨op, hop, rfl⟩ := List.mem_map.mp ht
      apply Operand.isOperandText_text
      exact Instruction.mode_ne_label hlabel hop
    · intro symbols place _
      simp [Program.linkWord, Instruction.target?, hbits]

/-! ## The program -/

/-- The statements of `n` words from index `i` on, and the label after them. The first word stands
on the line after the section directive. -/
def codeFrom (inst : Nat → Instruction) (i : Nat) : Nat → List SourceStatement
  | 0 => [⟨i + 2, .code (some (codeLabel i)) none⟩]
  | n + 1 => ⟨i + 2, .code (some (codeLabel i)) (some (inst i))⟩ :: codeFrom inst (i + 1) n

private theorem reads_codeLabel (i : Nat) :
    Reads .text (codeLabel i ++ ":") (.code (some (codeLabel i)) none) := by
  have hreads := reads_label (isLabelName_codeLabel i)
  have hupper : String.ofList (Text.upper (codeLabel i).toList) = codeLabel i := upcase_codeLabel i
  rw [hupper] at hreads
  simpa using hreads

private theorem readLines_codeFrom {raw : Nat → String} {inst : Nat → Instruction} {i n : Nat}
    (h : ∀ j < i + n, Reads .text (raw j) (.code (some (codeLabel j)) (some (inst j)))) :
    readLines (some .text) (SourceLine.numbered (i + 2)
      ((List.range' i n).map raw ++ [codeLabel (i + n) ++ ":"])) = .ok (codeFrom inst i n) := by
  induction n generalizing i with
  | zero =>
    exact readLines_cons (reads_codeLabel i) rfl
  | succ n ih =>
    rw [List.range'_succ, List.map_cons, List.cons_append, codeFrom]
    refine readLines_cons (h i (by omega)) ?_
    have hrest := ih (i := i + 1) (by simpa [Nat.add_assoc, Nat.add_comm 1 n] using h)
    rwa [Nat.add_right_comm i 1 n] at hrest

private theorem labelSpots_codeFrom (inst : Nat → Instruction) (i n bytes : Nat) :
    labelSpots i bytes (codeFrom inst i n) =
      (List.range' i (n + 1)).map fun j => (codeLabel j, .text, 2 * j) := by
  induction n generalizing i with
  | zero =>
    rw [codeFrom, labelSpots_cons, Statement.labelSpot?, upcase_codeLabel]
    rfl
  | succ n ih =>
    rw [codeFrom, labelSpots_cons, Statement.labelSpot?, upcase_codeLabel, List.range'_succ]
    exact congrArg ((codeLabel i, .text, 2 * i) :: ·) (ih (i + 1))

private theorem map_inst_codeFrom (inst : Nat → Instruction) (i n : Nat) :
    ((codeFrom inst i n).filterMap SourceStatement.code?).map (·.inst) =
      (List.range' i n).map inst := by
  induction n generalizing i with
  | zero => rfl
  | succ n ih => exact congrArg (inst i :: ·) (ih (i + 1))

private theorem vectors_codeFrom (inst : Nat → Instruction) (i n : Nat) :
    (codeFrom inst i n).filterMap SourceStatement.vector? = [] := by
  induction n generalizing i with
  | zero => rfl
  | succ n ih => exact ih (i + 1)

private theorem dataFrom_codeFrom (inst : Nat → Instruction) (i n offset : Nat) :
    dataFrom offset (codeFrom inst i n) = [] := by
  induction n generalizing i with
  | zero => rfl
  | succ n ih => exact ih (i + 1)

theorem get?_codeFrom (lines : Array String) (inst : Nat → Instruction) {n j : Nat} (hj : j ≤ n) :
    ((Program.ofStatements lines (codeFrom inst 0 n)).symbols.get? (codeLabel j)).map Symbol.spot =
      some (.text, 2 * j) := by
  rw [map_spot_get?, labelSpots_codeFrom, upcase_codeLabel, List.filter_map]
  have hone : (List.range' 0 (n + 1)).filter (fun k => codeLabel k = codeLabel j) = [j] := by
    have hkey : ∀ k ∈ List.range' 0 (n + 1), decide (codeLabel k = codeLabel j) = (k == j) := by
      intro k _
      rw [beq_eq_decide, decide_eq_decide]
      exact ⟨codeLabel_injective, congrArg codeLabel⟩
    have hmem : j ∈ List.range' 0 (n + 1) := by
      rw [List.mem_range'_1]
      omega
    rw [List.filter_congr hkey, List.filter_beq, (List.nodup_range' 1).count, if_pos hmem]
    rfl
  simp only [Function.comp_def, hone]
  rfl

theorem ofSource_codeFrom {raw : Nat → String} {inst : Nat → Instruction} {n : Nat}
    (h : ∀ j < n, Reads .text (raw j) (.code (some (codeLabel j)) (some (inst j)))) :
    ∃ lines, Program.ofSource (String.join ((".text" :: (List.range' 0 n).map raw ++
        [codeLabel n ++ ":"]).map (· ++ "\n"))) =
      .ok (Program.ofStatements lines (codeFrom inst 0 n)) := by
  have hplain : ∀ l ∈ ".text" :: (List.range' 0 n).map raw ++ [codeLabel n ++ ":"],
      Text.Plain l.toList := by
    intro l hl
    rcases List.mem_append.mp hl with hl | hl
    · rcases List.mem_cons.mp hl with rfl | hl
      · simp [Text.Plain]
      · obtain ⟨j, hj, rfl⟩ := List.mem_map.mp hl
        rw [List.mem_range'_1, Nat.zero_add] at hj
        exact (h j hj.2).plain
    · rw [List.mem_singleton.mp hl]
      exact (reads_codeLabel n).plain
  have hread : readLines none (SourceLine.numbered 1
      (".text" :: ((List.range' 0 n).map raw ++ [codeLabel n ++ ":"]))) =
      .ok (codeFrom inst 0 n) := by
    have hcode : lineCode ".text" = ".text" := by decide
    have hsection : Section.parse? ".text" = some .text := by decide
    rw [SourceLine.numbered, hcode, if_neg (by decide), readLines, hsection]
    have hrest := readLines_codeFrom (i := 0) (n := n) (by simpa using h)
    simp only [Nat.zero_add] at hrest
    exact hrest
  refine ⟨_, Program.ofSource_eq_ok.mpr ⟨_, ?_, rfl⟩⟩
  rw [SourceLine.ofText, textLines_join_of_plain hplain]
  exact hread

/-! ## Assembling -/

theorem labelsPlaced_codeFrom (lines : Array String) (inst : Nat → Instruction) (n : Nat)
    (place : Placement) :
    LabelsPlaced n (Program.ofStatements lines (codeFrom inst 0 n)).symbols place := by
  intro j hj
  obtain ⟨symbol, hsymbol, hspot⟩ := Option.map_eq_some_iff.mp (get?_codeFrom lines inst hj)
  refine ⟨symbol, hsymbol, ?_⟩
  have hsegment : symbol.segment = .text := congrArg Prod.fst hspot
  have hoffset : symbol.offset = 2 * j := congrArg Prod.snd hspot
  rw [Placement.address, hsegment, Placement.codeAddress, hoffset]

private theorem mapM_zipIdx {f : Word × Nat → Option String} {raw : Nat → String}
    {words : List Word} {i : Nat}
    (h : ∀ (k : Nat) (word : Word), words[k]? = some word → f (word, i + k) = some (raw (i + k))) :
    (words.zipIdx i).mapM f = some ((List.range' i words.length).map raw) := by
  induction words generalizing i with
  | nil => rfl
  | cons word words ih =>
    have hrest := ih (i := i + 1) fun k word' hword' => by
      simpa [Nat.add_assoc, Nat.add_comm 1 k] using h (k + 1) word' (by simpa using hword')
    have hfirst : f (word, i) = some (raw i) := h 0 word rfl
    rw [List.zipIdx_cons, List.mapM_cons, hfirst, hrest]
    rfl

private theorem forall₂_zipIdx {R : Instruction × Nat → Word → Prop} {inst : Nat → Instruction}
    {words : List Word} {i : Nat}
    (h : ∀ (k : Nat) (word : Word), words[k]? = some word → R (inst (i + k), i + k) word) :
    List.Forall₂ R (((List.range' i words.length).map inst).zipIdx i) words := by
  induction words generalizing i with
  | nil => exact .nil
  | cons word words ih =>
    refine .cons (h 0 word rfl) (ih fun k word' hword' => ?_)
    simpa [Nat.add_assoc, Nat.add_comm 1 k] using h (k + 1) word' (by simpa using hword')

private theorem place_codeFrom {l : Layout} (hentries : l.vectableEntries = none)
    (lines : Array String) (inst : Nat → Instruction) {n : Nat} (hsize : 2 * n ≤ l.segmentSize) :
    (Program.ofStatements lines (codeFrom inst 0 n)).place l =
      .ok ⟨l.textOrigin, 0, l.textOrigin, l.dataOrigin⟩ := by
  have hvectors : (Program.ofStatements lines (codeFrom inst 0 n)).vectors.length = 0 := by
    rw [Program.ofStatements, vectors_codeFrom, List.length_nil]
  have hcode : (Program.ofStatements lines (codeFrom inst 0 n)).code.length = n := by
    simpa [Program.ofStatements] using congrArg List.length (map_inst_codeFrom inst 0 n)
  have hdata : (Program.ofStatements lines (codeFrom inst 0 n)).data.words.length = 0 := by
    rw [Program.ofStatements, dataFrom_codeFrom]
    rfl
  refine Program.place_eq_ok.mpr ⟨0, ?_, by omega, by omega, by omega, rfl⟩
  rw [hvectors, Layout.vectableSize, hentries]

/-- Words that decode assemble back to themselves. Every word gets a line, whatever addresses they
are decoded at. -/
theorem assemble_sourceOf (l : Layout) (hl : l.validate = .ok ())
    (hentries : l.vectableEntries = none) (pc : Nat → Nat) (words : List Word)
    (hsize : 2 * words.length ≤ l.segmentSize) (h : SelfContained pc words) :
    ∃ source out, sourceOf? pc words = some source ∧ assemble source l = .ok out ∧
      out.words = words := by
  have hline : ∀ i, i < words.length → ∃ raw inst, ∀ word, words[i]? = some word →
      wordLine? (pc i) i word = some raw ∧
      Reads .text raw (.code (some (codeLabel i)) (some inst)) ∧
      ∀ symbols place, LabelsPlaced words.length symbols place →
        Program.linkWord symbols place (place.codeAddress i) inst = .ok word := by
    intro i hi
    have hword := List.getElem?_eq_getElem hi
    obtain ⟨⟨e, ops⟩, hops, hbranch⟩ := h (words[i], i) (List.mem_zipIdx_iff_getElem?.mpr hword)
    obtain ⟨raw, inst, hall⟩ := exists_wordLine hops hbranch
    refine ⟨raw, inst, ?_⟩
    intro word hword'
    rw [hword, Option.some.injEq] at hword'
    exact hword' ▸ hall
  -- Lines and instructions as functions of the index, as `codeFrom` takes them.
  have : Nonempty Instruction := ⟨⟨⟨"NOP", [], 0x0009, .zero⟩, [], 0x0009⟩⟩
  choose! raw inst hall using hline
  have hindex {i : Nat} {word : Word} (h : words[i]? = some word) : i < words.length :=
    (List.getElem?_eq_some_iff.mp h).1
  have hsource : sourceOf? pc words = some (String.join ((".text" ::
      (List.range' 0 words.length).map raw ++ [codeLabel words.length ++ ":"]).map
        (· ++ "\n"))) := by
    have hlines : (words.zipIdx.mapM fun (word, i) => wordLine? (pc i) i word) =
        some ((List.range' 0 words.length).map raw) := by
      apply mapM_zipIdx
      intro k word hword
      rw [Nat.zero_add]
      exact (hall k (hindex hword) word hword).1
    rw [sourceOf?, hlines]
    rfl
  have hreads : ∀ j < words.length,
      Reads .text (raw j) (.code (some (codeLabel j)) (some (inst j))) := by
    intro j hj
    exact (hall j hj _ (List.getElem?_eq_getElem hj)).2.1
  obtain ⟨lines, hp⟩ := ofSource_codeFrom hreads
  have hplace := place_codeFrom hentries lines inst hsize
  have hlink : (Program.ofStatements lines (codeFrom inst 0 words.length)).link
      ⟨l.textOrigin, 0, l.textOrigin, l.dataOrigin⟩ = .ok words := by
    have hcode : (Program.ofStatements lines (codeFrom inst 0 words.length)).code.map (·.inst) =
        (List.range' 0 words.length).map inst := map_inst_codeFrom inst 0 words.length
    rw [Program.link_eq_ok, hcode]
    apply forall₂_zipIdx
    intro k word hword
    rw [Nat.zero_add]
    exact (hall k (hindex hword) word hword).2.2 _ _ (labelsPlaced_codeFrom lines inst _ _)
  exact ⟨_, _, hsource, assemble_of_link hl hp hplace hlink, rfl⟩

/-- A branch forward over a negative immediate, one backward, and one to the label at the end. -/
theorem assemble_sourceOf_loop :
    ∃ source out, sourceOf? (64 + 2 * ·) [0x8B02, 0xE3FF, 0xAFFE, 0x8D02, 0x573E] = some source ∧
      source = ".text\nL0: BF L2\nL1: MOV #-1, R3\nL2: BRA L0\nL3: BT/S L5\n" ++
        "L4: MOV.L @(14, R3), R7\nL5:\n" ∧
      assemble source { textOrigin := 64, dataOrigin := 0, segmentSize := 64 } = .ok out ∧
      out.words = [0x8B02, 0xE3FF, 0xAFFE, 0x8D02, 0x573E] := by
  obtain ⟨source, out, hsource, hout, hwords⟩ := assemble_sourceOf
    { textOrigin := 64, dataOrigin := 0, segmentSize := 64 } rfl rfl (64 + 2 * ·)
    [0x8B02, 0xE3FF, 0xAFFE, 0x8D02, 0x573E] (by decide) (by decide +kernel)
  refine ⟨source, out, hsource, ?_, hout, hwords⟩
  have hrun : sourceOf? (64 + 2 * ·) [0x8B02, 0xE3FF, 0xAFFE, 0x8D02, 0x573E] =
      some (".text\nL0: BF L2\nL1: MOV #-1, R3\nL2: BRA L0\nL3: BT/S L5\n" ++
        "L4: MOV.L @(14, R3), R7\nL5:\n") := by
    decide +kernel
  rw [hsource, Option.some.injEq] at hrun
  exact hrun

end SuperH
