import SuperH.Proofs.Linking
import SuperH.Proofs.Placing
import SuperH.Proofs.Sizes

/-!
# Assembling with 32-bit arithmetic

The assembler once more, in arithmetic that traps: `none` stands for a sum, a product or a length
of 32 bits or more, for a difference below zero and for an index out of bounds. Branches are
completed one after the other in a list of words, and bytes are stored in a buffer of zeros. Each
step agrees with the plain one where its numbers are in range.
-/
namespace SuperH.Trapping

def fit (n : Nat) : Option Nat :=
  if n < 2 ^ 32 then some n else none

def add (a b : Nat) : Option Nat :=
  fit (a + b)

def mul (a b : Nat) : Option Nat :=
  fit (a * b)

def sub (a b : Nat) : Option Nat :=
  if b ≤ a then some (a - b) else none

def double (n : Nat) : Option Nat := do
  mul (← fit n) 2

private theorem fit_of_lt {n : Nat} (h : n < 2 ^ 32) : fit n = some n :=
  if_pos h

theorem add_of_lt {a b : Nat} (h : a + b < 2 ^ 32) : add a b = some (a + b) :=
  fit_of_lt h

private theorem mul_of_lt {a b : Nat} (h : a * b < 2 ^ 32) : mul a b = some (a * b) :=
  fit_of_lt h

theorem sub_of_le {a b : Nat} (h : b ≤ a) : sub a b = some (a - b) :=
  if_pos h

theorem double_of_lt {n : Nat} (h : 2 * n < 2 ^ 32) : double n = some (2 * n) := by
  have hn : n < 2 ^ 32 := by omega
  rw [double, fit_of_lt hn, Nat.mul_comm 2 n]
  exact mul_of_lt (by omega)

/-! ## Reading -/

/-- The events of a statement at the offset `here` of the code, after `bytes` bytes of data. -/
def ofStatement (here bytes : Nat) : SourceStatement → Option (List Event)
  | ⟨line, .code (some label) _⟩ => some [.defined label ⟨.text, here, line⟩]
  | ⟨line, .data label directive _⟩ => do
    let start ← fit (directive.startAt bytes)
    return label.toList.map fun name => .defined name ⟨.data, start, line⟩
  | ⟨line, .stray⟩ => some [.ignored line]
  | _ => some []

/-- Read lines after `words` instructions and `bytes` bytes of data. The offset of the code is
known before the line is read, so it is computed on faulty lines as well. -/
def readFrom (words bytes : Nat) : List (Option Section × SourceLine) →
    Option (Except Diagnostic (List SourceStatement × List Event))
  | [] => some (.ok ([], []))
  | x :: rest => do
    let here ← double words
    match readLine x with
    | .error d => return .error d
    | .ok s =>
      let events ← ofStatement here bytes s
      let later ← readFrom (words + s.code?.toList.length)
        (bytes + (s.bytesAt bytes).length) rest
      return later.map fun (ss, es) => (s :: ss, events ++ es)

def ofSource (source : String) : Option (Except Diagnostic Program) := do
  let lines := (textLines source).toArray
  let read ← readFrom 0 0 (inSections none (SourceLine.ofText source))
  return read.map fun (ss, events) =>
    { Program.ofStatements lines ss with
      symbols := events.foldl Event.apply .empty
      notices := Event.allNotices (lineText lines) .empty events }

theorem ofStatement_eq {words bytes : Nat} {s : SourceStatement}
    (h : bytes + (s.bytesAt bytes).length < 2 ^ 32) :
    ofStatement (2 * words) bytes s = some (Event.ofStatement words bytes s) := by
  match s with
  | ⟨line, .code label inst⟩ => cases label <;> rfl
  | ⟨line, .data label directive payload⟩ =>
    have hstart : directive.startAt bytes < 2 ^ 32 :=
      Nat.lt_of_le_of_lt (directive.startAt_le bytes payload line) h
    rw [ofStatement, fit_of_lt hstart]
    cases label <;> rfl
  | ⟨line, .vector name address⟩ => rfl
  | ⟨line, .stray⟩ => rfl

private theorem readFrom_eq {words bytes : Nat} {xs : List (Option Section × SourceLine)}
    (hwords : 2 * (words + xs.length) < 2 ^ 32) (hbytes : bytes + 4 * codeLength xs < 2 ^ 32) :
    readFrom words bytes xs =
      some ((xs.mapM readLine).map fun ss => (ss, Event.ofStatements words bytes ss)) := by
  induction xs generalizing words bytes with
  | nil => rfl
  | cons x xs ih =>
    have hcode : codeLength (x :: xs) = x.2.code.length + codeLength xs := rfl
    rw [List.length_cons] at hwords
    -- A line takes one word at most and four bytes for each of its characters at most.
    rw [readFrom, double_of_lt (by omega), List.mapM_cons]
    cases hread : readLine x with
    | error d => rfl
    | ok s =>
      have hline := length_bytesAt_le hread bytes
      have hone : s.code?.toList.length ≤ 1 := by cases s.code? <;> simp
      have hevents : ofStatement (2 * words) bytes s = some (Event.ofStatement words bytes s) :=
        ofStatement_eq (by omega)
      have hrest := @ih (words + s.code?.toList.length) (bytes + (s.bytesAt bytes).length)
        (by omega) (by omega)
      simp only [Option.bind_eq_bind, Option.bind_some, hevents, hrest]
      cases xs.mapM readLine <;> rfl

theorem ofSource_eq {source : String} (h : source.length < 2 ^ 30) :
    ofSource source = some (Program.ofSource source) := by
  have hcode := codeLength_le source
  have hcount := length_inSections_le source
  rw [ofSource, readFrom_eq (by omega) (by omega), Program.ofSource, readLines_eq_mapM]
  cases (inSections none (SourceLine.ofText source)).mapM readLine <;> rfl

/-! ## Placing -/

def vectableSize (l : Layout) (found : Nat) : Option (Except Error Nat) := do
  let found ← fit found
  match l.vectableEntries with
  | some n =>
    if n < found then
      return .error (.segmentOverflow .vectable (← mul 4 found) (← mul 4 n))
    else return .ok (← mul 4 n)
  | none => return .ok (← mul 4 found)

def place (p : Program) (l : Layout) : Option (Except Diagnostic Placement) := do
  match ← vectableSize l p.vectors.length with
  | .error e => return .error (p.diagnose (p.vectorLine (l.vectableEntries.getD 0)) e)
  | .ok size =>
    if l.segmentSize < size then
      return .error (p.diagnose (p.vectorLine (l.segmentSize / 4))
        (.segmentOverflow .text size l.segmentSize))
    else
      let room ← sub l.segmentSize size
      match p.code[room / 2]? with
      | some first =>
        return .error (p.diagnose first.line
          (.segmentOverflow .text (← add size (← double p.code.length)) l.segmentSize))
      | none =>
        match p.data.words[l.segmentSize / 2]? with
        | some (_, line) =>
          return .error (p.diagnose line
            (.segmentOverflow .data (← double p.data.words.length) l.segmentSize))
        | none => return .ok ⟨l.textOrigin, size, ← add l.textOrigin size, l.dataOrigin⟩

private theorem vectableSize_eq {l : Layout} (hl : l.validate = .ok ()) {found : Nat}
    (h : 4 * found < 2 ^ 32) : vectableSize l found = some (l.vectableSize found) := by
  obtain ⟨_, _, hentries, ⟨htext, _⟩, _⟩ := Layout.validate_eq_ok.mp hl
  rw [vectableSize, fit_of_lt (by omega), Layout.vectableSize]
  cases hn : l.vectableEntries with
  | none =>
    simp only [Option.bind_eq_bind, Option.bind_some, mul_of_lt h]
    rfl
  | some n =>
    have hle := hentries n hn
    have hentry : mul 4 n = some (4 * n) := by
      apply mul_of_lt
      rw [Layout.textEnd] at htext
      omega
    simp only [Option.bind_eq_bind, Option.bind_some, mul_of_lt h, hentry]
    split <;> rfl

/-- Two segments of a layout that is accepted share the address space. -/
theorem two_segments_lt {l : Layout} (hl : l.validate = .ok ()) : 2 * l.segmentSize < 2 ^ 32 := by
  obtain ⟨_, _, _, ⟨htext, hdata⟩, happart⟩ := Layout.validate_eq_ok.mp hl
  simp only [Layout.textEnd, Layout.dataEnd] at htext hdata happart
  omega

theorem place_eq {p : Program} {l : Layout} (hl : l.validate = .ok ())
    (hvectors : 4 * p.vectors.length < 2 ^ 32) (hcode : 4 * p.code.length < 2 ^ 32)
    (hdata : p.data.offset + 1 < 2 ^ 32) : place p l = some (p.place l) := by
  have hsegments := two_segments_lt hl
  obtain ⟨_, _, _, ⟨htext, _⟩, _⟩ := Layout.validate_eq_ok.mp hl
  rw [Layout.textEnd] at htext
  rw [place, vectableSize_eq hl hvectors, Program.place_eq]
  simp only [Option.bind_eq_bind, Option.bind_some]
  cases l.vectableSize p.vectors.length with
  | error e => rfl
  | ok size =>
    dsimp only
    split
    · rfl
    · rename_i hsize
      rw [sub_of_le (by omega), Option.bind_some]
      cases p.code[(l.segmentSize - size) / 2]? with
      | some first =>
        dsimp only
        rw [double_of_lt (by omega), Option.bind_some, add_of_lt (by omega)]
        rfl
      | none =>
        dsimp only
        cases p.data.words[l.segmentSize / 2]? with
        | some word =>
          have hwords : 2 * p.data.words.length < 2 ^ 32 := by
            rw [DataSection.length_words]
            omega
          dsimp only
          rw [double_of_lt hwords]
          rfl
        | none =>
          dsimp only
          rw [add_of_lt (by omega)]
          rfl

/-! ## Linking -/

def address (place : Placement) (symbol : Symbol) : Option Nat :=
  match symbol.segment with
  | .text => add place.textBase symbol.offset
  | .data => add place.dataBase symbol.offset

def codeAddress (place : Placement) (index : Nat) : Option Nat := do
  add place.textBase (← double index)

def linkBranch (p : Program) (place : Placement) (words : List Word) (b : Program.Branch) :
    Option (Except Diagnostic (List Word)) := do
  let line ← p.code[b.index]?
  match p.symbols.resolve b.target with
  | .error e => return .error (p.diagnose line.line e)
  | .ok symbol =>
    let target ← address place symbol
    let here ← codeAddress place b.index
    let word ← words[b.index]?
    match b.format.withDisp word (Int.tdiv ((target : Int) - here) 2) with
    | .error e => return .error (p.diagnose line.line (.ofEncodeError e))
    | .ok word => return .ok (words.set b.index word)

def linkBranches (p : Program) (place : Placement) (words : List Word) :
    List Program.Branch → Option (Except Diagnostic (List Word))
  | [] => some (.ok words)
  | b :: rest => do
    match ← linkBranch p place words b with
    | .error d => return .error d
    | .ok words => linkBranches p place words rest

def link (p : Program) (place : Placement) : Option (Except Diagnostic (List Word)) :=
  linkBranches p place (p.code.map (·.inst.word)) p.branches

theorem address_eq {place : Placement} {symbol : Symbol} (h : place.address symbol < 2 ^ 32) :
    address place symbol = some (place.address symbol) := by
  unfold Placement.address at h ⊢
  unfold address
  cases hsegment : symbol.segment with
  | text =>
    rw [hsegment] at h
    exact add_of_lt h
  | data =>
    rw [hsegment] at h
    exact add_of_lt h

theorem codeAddress_eq {place : Placement} {index : Nat} (h : place.codeAddress index < 2 ^ 32) :
    codeAddress place index = some (place.codeAddress index) := by
  unfold Placement.codeAddress at h ⊢
  rw [codeAddress, double_of_lt (by omega)]
  exact add_of_lt h

section Link

variable {p : Program} {place : Placement}

private theorem linkBranch_eq
    (haddress : ∀ name symbol, p.symbols.get? name = some symbol → place.address symbol < 2 ^ 32)
    (hcode : ∀ i < p.code.length, place.codeAddress i < 2 ^ 32) {i : Nat} {line : CodeLine}
    (hline : p.code[i]? = some line) {target : String} (htarget : line.inst.target? = some target)
    {words : List Word} (hword : words[i]? = some line.inst.word) :
    linkBranch p place words ⟨i, target, line.inst.entry.format⟩ =
      some ((p.linkLine place (line, i)).map (words.set i)) := by
  have hhere := codeAddress_eq (hcode i (List.getElem?_eq_some_iff.mp hline).1)
  simp only [linkBranch, Program.linkLine, Program.linkWord, htarget, hline, Option.bind_eq_bind,
    Option.bind_some]
  cases hsymbol : p.symbols.get? target with
  | none =>
    simp only [SymbolTable.resolve, hsymbol]
    rfl
  | some symbol =>
    have hthere := address_eq (haddress target symbol hsymbol)
    simp only [SymbolTable.resolve, hsymbol, hthere, hhere, hword, Option.bind_some, bind,
      Except.bind]
    cases line.inst.entry.format.withDisp line.inst.word _ <;> rfl

/-- The words before an instruction are complete when its branch is due, the others are as read. -/
theorem linkBranches_eq
    (haddress : ∀ name symbol, p.symbols.get? name = some symbol → place.address symbol < 2 ^ 32)
    (hcode : ∀ i < p.code.length, place.codeAddress i < 2 ^ 32) {before rest : List CodeLine}
    (hsplit : p.code = before ++ rest) {done : List Word} (hdone : done.length = before.length) :
    linkBranches p place (done ++ rest.map (·.inst.word))
        ((rest.zipIdx before.length).filterMap Program.branchOf?) =
      some (((rest.zipIdx before.length).mapM (p.linkLine place)).map (done ++ ·)) := by
  induction rest generalizing before done with
  | nil => simp [linkBranches, pure, Except.pure, Except.map]
  | cons line rest ih =>
    have hrest (word : Word) := @ih (before ++ [line]) (by simp [hsplit]) (done ++ [word])
      (by simp [hdone])
    simp only [List.length_append, List.length_singleton, List.append_assoc,
      List.singleton_append] at hrest
    rw [List.zipIdx_cons, List.mapM_cons, List.map_cons]
    cases htarget : line.inst.target? with
    | none =>
      rw [List.filterMap_cons_none (by simp [Program.branchOf?, htarget]), hrest,
        Program.linkLine_of_not_branch htarget]
      cases (rest.zipIdx (before.length + 1)).mapM (p.linkLine place) <;>
        simp [bind, Except.bind, Except.map, pure, Except.pure]
    | some target =>
      have hline : p.code[before.length]? = some line := by simp [hsplit]
      have hword : (done ++ line.inst.word :: rest.map (·.inst.word))[before.length]? =
          some line.inst.word := by
        rw [← hdone]
        simp
      rw [List.filterMap_cons_some (b := ⟨before.length, target, line.inst.entry.format⟩)
        (by simp [Program.branchOf?, htarget]), linkBranches,
        linkBranch_eq haddress hcode hline htarget hword]
      cases p.linkLine place (line, before.length) with
      | error d => rfl
      | ok word =>
        have hset : (done ++ line.inst.word :: rest.map (·.inst.word)).set before.length word =
            done ++ word :: rest.map (·.inst.word) := by
          rw [← hdone]
          simp
        simp only [Option.bind_eq_bind, Option.bind_some, Except.map, hset, hrest]
        cases (rest.zipIdx (before.length + 1)).mapM (p.linkLine place) <;>
          simp [bind, Except.bind, pure, Except.pure]

theorem link_eq
    (haddress : ∀ name symbol, p.symbols.get? name = some symbol → place.address symbol < 2 ^ 32)
    (hcode : ∀ i < p.code.length, place.codeAddress i < 2 ^ 32) :
    link p place = some (p.link place) := by
  have hloop := @linkBranches_eq p place haddress hcode [] p.code rfl [] rfl
  rw [List.nil_append, List.length_nil] at hloop
  rw [link, Program.branches_eq, Program.link_eq, hloop]
  cases p.code.zipIdx.mapM (p.linkLine place) <;> rfl

end Link

end SuperH.Trapping
