import SuperH.Placement
import SuperH.Proofs.Encoding

/-!
# Completing branches

Linking leaves every word as it is but the words of branches, in which it replaces the low bits by
half the distance to the label. It fails at the first branch whose label is not defined or too far
away for these bits.
-/
namespace SuperH

theorem Format.withDisp_of_fits {f : Format} {bits : Nat} (hw : f.branchWidth = some bits)
    (word : Word) {disp : Int} (h : FitsSigned disp bits) :
    ∃ linked, f.withDisp word disp = .ok linked ∧ linked >>> bits = word >>> bits ∧
      linked.extractLsb' 0 bits = BitVec.ofInt bits disp := by
  have hbits : bits ≤ 16 := by
    cases f <;> cases hw <;> decide
  refine ⟨_, by simp only [withDisp, hw, h, if_true]; rfl, ?_, ?_⟩
  · ext i hi
    by_cases hi' : bits + i < 16
    · simp [getElem_lowMask bits hi', hi']
    · simp [BitVec.getLsbD_of_ge _ _ (Nat.le_of_not_lt hi')]
  · rw [← extract_ofInt disp hbits]
    ext i hi
    have hi' : i < 16 := by omega
    simp [getElem_lowMask bits hi', hi', hi]

private theorem Format.withDisp_of_not_fits {f : Format} {bits : Nat}
    (hw : f.branchWidth = some bits) (word : Word) {disp : Int} (h : ¬ FitsSigned disp bits) :
    f.withDisp word disp = .error (.branchOutOfRange disp bits) := by
  simp [withDisp, hw, h]

/-- The opcode of a branch stands above its displacement. -/
theorem Format.and_mask_of_shiftRight {f : Format} {bits : Nat} (hw : f.branchWidth = some bits)
    {word word' : Word} (h : word >>> bits = word' >>> bits) :
    word &&& f.mask = word' &&& f.mask := by
  have hmask (x : Word) : x &&& f.mask = (x >>> bits) <<< bits := by
    ext i hi
    cases f <;> cases hw <;> simp only [mask] <;> interval_cases i <;> simp
  rw [hmask, hmask, h]

theorem Format.branchDisp_eq {f : Format} {bits : Nat} (hw : f.branchWidth = some bits)
    (word : Word) : f.branchDisp word = (word.extractLsb' 0 bits).toInt := by
  cases f <;> cases hw <;> rfl

theorem Format.branchDisp_of_extract {f : Format} {bits : Nat} (hw : f.branchWidth = some bits)
    {word : Word} {disp : Int} (hfits : FitsSigned disp bits)
    (h : word.extractLsb' 0 bits = BitVec.ofInt bits disp) : f.branchDisp word = disp := by
  have hbits : 0 < bits := by
    cases f <;> cases hw <;> decide
  rw [branchDisp_eq hw, h, BitVec.toInt_ofInt_eq_self hbits hfits.1 hfits.2]

theorem Instruction.target?_eq_some {inst : Instruction} {target : String}
    (h : inst.target? = some target) :
    inst.entry.shape = [.label] ∧ (∃ bits, inst.entry.format.branchWidth = some bits) ∧
      ∃ rest, inst.operands = .label target :: rest := by
  unfold target? at h
  split at h
  · rename_i bits name rest hwidth hops
    cases h
    unfold Entry.branchWidth at hwidth
    split at hwidth
    · rename_i hshape
      exact ⟨hshape, ⟨bits, hwidth⟩, rest, hops⟩
    · cases hwidth
  · cases h

namespace Program

/-- Half the distance from the instruction of an index to a label, rounded toward zero. -/
def distance (place : Placement) (symbol : Symbol) (index : Nat) : Int :=
  Int.tdiv ((place.address symbol : Int) - place.codeAddress index) 2

/-- The low bits of a branch that hold its displacement. -/
def Branch.HasBits (b : Branch) (bits : Nat) : Prop :=
  b.format = .d ∧ bits = 8 ∨ b.format = .d12 ∧ bits = 12

theorem Branch.hasBits_iff {b : Branch} {bits : Nat} :
    b.HasBits bits ↔ b.format.branchWidth = some bits := by
  unfold HasBits
  cases b.format <;> simp [Format.branchWidth, eq_comm]

/-- The label of a branch is defined and near enough for the bits of its displacement. -/
def Branch.Completes (p : Program) (place : Placement) (b : Branch) : Prop :=
  ∃ symbol bits, p.symbols.get? b.target = some symbol ∧ b.HasBits bits ∧
    -2 ^ (bits - 1) ≤ distance place symbol b.index ∧
    distance place symbol b.index ≤ 2 ^ (bits - 1) - 1

def Branch.Fault (p : Program) (place : Placement) (b : Branch) (e : Error) : Prop :=
  (p.symbols.get? b.target = none ∧ e = .undefinedLabel b.target) ∨
  ∃ symbol bits, p.symbols.get? b.target = some symbol ∧ b.HasBits bits ∧
    ¬ (-2 ^ (bits - 1) ≤ distance place symbol b.index ∧
      distance place symbol b.index ≤ 2 ^ (bits - 1) - 1) ∧
    e = .displacementOutOfRange (distance place symbol b.index) bits

def branchOf? (x : CodeLine × Nat) : Option Branch :=
  x.1.inst.target?.map fun target => ⟨x.2, target, x.1.inst.entry.format⟩

theorem branches_eq (p : Program) : p.branches = p.code.zipIdx.filterMap branchOf? :=
  rfl

private theorem branchOf?_eq_some {x : CodeLine × Nat} {b : Branch} :
    branchOf? x = some b ↔ x.2 = b.index ∧ x.1.inst.target? = some b.target ∧
      x.1.inst.entry.format = b.format := by
  unfold branchOf?
  rw [Option.map_eq_some_iff]
  constructor
  · rintro ⟨target, htarget, rfl⟩
    exact ⟨rfl, htarget, rfl⟩
  · rintro ⟨hindex, htarget, hformat⟩
    exact ⟨b.target, htarget, by rw [hindex, hformat]⟩

theorem mem_branches {p : Program} {b : Branch} :
    b ∈ p.branches ↔ ∃ line, p.code[b.index]? = some line ∧
      line.inst.target? = some b.target ∧ line.inst.entry.format = b.format := by
  rw [branches_eq, List.mem_filterMap]
  simp only [branchOf?_eq_some]
  constructor
  · rintro ⟨⟨line, index⟩, hmem, rfl, h⟩
    exact ⟨line, List.mem_zipIdx_iff_getElem?.mp hmem, h⟩
  · rintro ⟨line, hline, h⟩
    exact ⟨⟨line, b.index⟩, List.mem_zipIdx_iff_getElem?.mpr hline, rfl, h⟩

def linkLine (p : Program) (place : Placement) (x : CodeLine × Nat) :
    Except Diagnostic Word :=
  match linkWord p.symbols place (place.codeAddress x.2) x.1.inst with
  | .ok word => .ok word
  | .error e => .error (p.diagnose x.1.line e)

theorem link_eq (p : Program) (place : Placement) :
    p.link place = p.code.zipIdx.mapM (p.linkLine place) :=
  rfl

variable {p : Program} {place : Placement} {line : CodeLine} {index : Nat}

/-- The words are those of the instructions one by one; the lines they stand on do not matter. -/
theorem link_eq_ok {words : List Word} :
    p.link place = .ok words ↔ List.Forall₂
      (fun x word => linkWord p.symbols place (place.codeAddress x.2) x.1 = .ok word)
      (p.code.map (·.inst)).zipIdx words := by
  have hword (x : CodeLine × Nat) (word : Word) : p.linkLine place x = .ok word ↔
      linkWord p.symbols place (place.codeAddress x.2) x.1.inst = .ok word := by
    unfold linkLine
    cases linkWord p.symbols place (place.codeAddress x.2) x.1.inst <;> simp
  rw [link_eq, mapM_eq_ok, List.zipIdx_map, List.forall₂_map_left_iff]
  constructor
  · exact List.Forall₂.imp fun x word => (hword x word).mp
  · exact List.Forall₂.imp fun x word => (hword x word).mpr

theorem linkLine_of_not_branch (h : line.inst.target? = none) :
    p.linkLine place (line, index) = .ok line.inst.word := by
  simp [linkLine, linkWord, h]

private theorem linkLine_of_undefined {target : String} (h : line.inst.target? = some target)
    (hsymbol : p.symbols.get? target = none) :
    p.linkLine place (line, index) = .error (p.diagnose line.line (.undefinedLabel target)) := by
  simp [linkLine, linkWord, h, SymbolTable.resolve, hsymbol, bind, Except.bind]

private theorem linkLine_of_far {target : String} (h : line.inst.target? = some target)
    {symbol : Symbol} (hsymbol : p.symbols.get? target = some symbol) {bits : Nat}
    (hw : line.inst.entry.format.branchWidth = some bits)
    (hfar : ¬ FitsSigned (distance place symbol index) bits) :
    p.linkLine place (line, index) = .error (p.diagnose line.line
      (.displacementOutOfRange (distance place symbol index) bits)) := by
  have hword := Format.withDisp_of_not_fits hw line.inst.word hfar
  rw [distance] at hword ⊢
  simp [linkLine, linkWord, h, SymbolTable.resolve, hsymbol, bind, Except.bind, hword,
    throw, throwThe, MonadExceptOf.throw, Error.ofEncodeError]

private theorem linkLine_of_near {target : String} (h : line.inst.target? = some target)
    {symbol : Symbol} (hsymbol : p.symbols.get? target = some symbol) {bits : Nat}
    (hw : line.inst.entry.format.branchWidth = some bits)
    (hnear : FitsSigned (distance place symbol index) bits) :
    ∃ word, p.linkLine place (line, index) = .ok word ∧
      word >>> bits = line.inst.word >>> bits ∧
      word.extractLsb' 0 bits = BitVec.ofInt bits (distance place symbol index) := by
  obtain ⟨word, hword, hhigh, hlow⟩ := Format.withDisp_of_fits hw line.inst.word hnear
  refine ⟨word, ?_, hhigh, hlow⟩
  rw [distance] at hword
  simp [linkLine, linkWord, h, SymbolTable.resolve, hsymbol, bind, Except.bind, hword, pure,
    Except.pure]

private theorem fitsSigned_iff {v : Int} {bits : Nat} :
    FitsSigned v bits ↔ -2 ^ (bits - 1) ≤ v ∧ v ≤ 2 ^ (bits - 1) - 1 := by
  rw [FitsSigned, Int.pow_eq]
  omega

/-- A branch either completes, with the distance in the low bits of its word, or has a fault. -/
private theorem linkLine_of_branch (p : Program) (place : Placement) (index : Nat)
    {target : String} (h : line.inst.target? = some target) :
    (Branch.Completes p place ⟨index, target, line.inst.entry.format⟩ ∧
      ∃ word symbol bits, p.linkLine place (line, index) = .ok word ∧
        p.symbols.get? target = some symbol ∧
        line.inst.entry.format.branchWidth = some bits ∧
        FitsSigned (distance place symbol index) bits ∧
        word >>> bits = line.inst.word >>> bits ∧
        word.extractLsb' 0 bits = BitVec.ofInt bits (distance place symbol index)) ∨
    (¬ Branch.Completes p place ⟨index, target, line.inst.entry.format⟩ ∧
      ∃ e, p.linkLine place (line, index) = .error (p.diagnose line.line e) ∧
        Branch.Fault p place ⟨index, target, line.inst.entry.format⟩ e) := by
  obtain ⟨_, ⟨bits, hw⟩, _⟩ := Instruction.target?_eq_some h
  cases hsymbol : p.symbols.get? target with
  | none =>
    right
    refine ⟨?_, _, linkLine_of_undefined h hsymbol, .inl ⟨hsymbol, rfl⟩⟩
    rintro ⟨symbol, _, hsymbol', _⟩
    rw [hsymbol] at hsymbol'
    cases hsymbol'
  | some symbol =>
    by_cases hnear : FitsSigned (distance place symbol index) bits
    · left
      obtain ⟨word, hword, hhigh, hlow⟩ := linkLine_of_near h hsymbol hw hnear
      exact ⟨⟨symbol, bits, hsymbol, Branch.hasBits_iff.mpr hw, fitsSigned_iff.mp hnear⟩,
        word, symbol, bits, hword, rfl, hw, hnear, hhigh, hlow⟩
    · right
      refine ⟨?_, _, linkLine_of_far h hsymbol hw hnear,
        .inr ⟨symbol, bits, hsymbol, Branch.hasBits_iff.mpr hw,
          fun h => hnear (fitsSigned_iff.mpr h), rfl⟩⟩
      rintro ⟨symbol', bits', hsymbol', hw', hrange⟩
      rw [hsymbol] at hsymbol'
      rw [Branch.hasBits_iff, hw] at hw'
      cases hsymbol'
      cases hw'
      exact hnear (fitsSigned_iff.mpr hrange)

private theorem linkLine_of_link {words : List Word} (h : p.link place = .ok words) {word : Word}
    (hline : p.code[index]? = some line) (hword : words[index]? = some word) :
    p.linkLine place (line, index) = .ok word := by
  apply getElem?_mapM h ?_ hword
  rw [List.getElem?_zipIdx, hline]
  simp

theorem link_word {words : List Word} (h : p.link place = .ok words) {word : Word}
    (hline : p.code[index]? = some line) (hword : words[index]? = some word) :
    (line.inst.target? = none → word = line.inst.word) ∧
    ∀ target, line.inst.target? = some target →
      ∃ symbol bits, p.symbols.get? target = some symbol ∧
        line.inst.entry.format.branchWidth = some bits ∧
        FitsSigned (distance place symbol index) bits ∧
        word >>> bits = line.inst.word >>> bits ∧
        word.extractLsb' 0 bits = BitVec.ofInt bits (distance place symbol index) := by
  have hlink := linkLine_of_link h hline hword
  constructor
  · intro htarget
    rw [linkLine_of_not_branch htarget] at hlink
    cases hlink
    rfl
  · intro target htarget
    rcases linkLine_of_branch p place index htarget with
      ⟨_, linked, symbol, bits, hlinked, hrest⟩ | ⟨_, e, herror, _⟩
    · rw [hlink] at hlinked
      cases hlinked
      exact ⟨symbol, bits, hrest⟩
    · rw [hlink] at herror
      cases herror

private theorem exists_linkLine_eq_ok (hline : p.code[index]? = some line) :
    (∃ word, p.linkLine place (line, index) = .ok word) ↔
      ∀ b ∈ p.branches, b.index = index → b.Completes p place := by
  constructor
  · rintro ⟨word, hword⟩ b hb rfl
    obtain ⟨line', hline', htarget, hformat⟩ := mem_branches.mp hb
    rw [hline] at hline'
    cases hline'
    rcases linkLine_of_branch p place b.index htarget with ⟨hb, _⟩ | ⟨_, e, herror, _⟩
    · rwa [hformat] at hb
    · rw [hword] at herror
      cases herror
  · intro hall
    cases htarget : line.inst.target? with
    | none => exact ⟨_, linkLine_of_not_branch htarget⟩
    | some target =>
      have hb := hall ⟨index, target, line.inst.entry.format⟩
        (mem_branches.mpr ⟨line, hline, htarget, rfl⟩) rfl
      rcases linkLine_of_branch p place index htarget with
        ⟨_, word, _, _, hword, _⟩ | ⟨hnot, _⟩
      · exact ⟨word, hword⟩
      · exact absurd hb hnot

theorem exists_link_eq_ok (p : Program) (place : Placement) :
    (∃ words, p.link place = .ok words) ↔ ∀ b ∈ p.branches, b.Completes p place := by
  rw [link_eq, exists_mapM_eq_ok]
  constructor
  · intro hall b hb
    obtain ⟨line, hline, _⟩ := mem_branches.mp hb
    have hok := hall (line, b.index) (List.mem_zipIdx_iff_getElem?.mpr hline)
    exact (exists_linkLine_eq_ok hline).mp hok b hb rfl
  · rintro hall ⟨line, index⟩ hmem
    have hline := List.mem_zipIdx_iff_getElem?.mp hmem
    exact (exists_linkLine_eq_ok hline).mpr fun b hb _ => hall b hb

theorem link_eq_error {d : Diagnostic} (h : p.link place = .error d) :
    ∃ before b after line e, p.branches = before ++ b :: after ∧
      (∀ c ∈ before, c.Completes p place) ∧ p.code[b.index]? = some line ∧
      b.Fault p place e ∧ d = ⟨line.line, p.raw line.line, e⟩ := by
  rw [link_eq, mapM_eq_error] at h
  obtain ⟨before, ⟨line, index⟩, after, hsplit, hbefore, herror⟩ := h
  have hmem (x : CodeLine × Nat) (hx : x ∈ before ++ (line, index) :: after) :
      p.code[x.2]? = some x.1 :=
    List.mem_zipIdx_iff_getElem?.mp (hsplit ▸ hx)
  cases htarget : line.inst.target? with
  | none =>
    rw [linkLine_of_not_branch htarget] at herror
    cases herror
  | some target =>
    rcases linkLine_of_branch p place index htarget with
      ⟨_, word, _, _, hword, _⟩ | ⟨_, e, he, hfault⟩
    · rw [herror] at hword
      cases hword
    · rw [herror] at he
      cases he
      -- The branches before the failing line are those of the lines before it, which all link.
      refine ⟨before.filterMap branchOf?, ⟨index, target, line.inst.entry.format⟩,
        after.filterMap branchOf?, line, e, ?_, ?_, hmem (line, index) (by simp), hfault, rfl⟩
      · have hb : branchOf? (line, index) = some ⟨index, target, line.inst.entry.format⟩ :=
          branchOf?_eq_some.mpr ⟨rfl, htarget, rfl⟩
        rw [branches_eq, hsplit, List.filterMap_append, List.filterMap_cons, hb]
      · intro c hc
        obtain ⟨x, hx, hbranch⟩ := List.mem_filterMap.mp hc
        obtain ⟨hindex, htarget', hformat⟩ := branchOf?_eq_some.mp hbranch
        have hline := hmem x (List.mem_append_left _ hx)
        refine (exists_linkLine_eq_ok hline).mp (hbefore x hx) c ?_ hindex.symm
        exact mem_branches.mpr ⟨x.1, hindex ▸ hline, htarget', hformat⟩

end Program

end SuperH
