import SuperH.Proofs.Joining
import SuperH.Proofs.Linking
import SuperH.Proofs.Placing
import SuperH.Proofs.Streams

/-!
# Code in another place

A branch within the code keeps its distance wherever the code stands. So the words of a program
whose branches stay inside its own code do not depend on the layout, and a source that two such
sources are joined to has the words of both, one after the other.
-/
namespace SuperH

namespace Program

def BranchesToText (p : Program) : Prop :=
  ∀ b ∈ p.branches, ∃ symbol ∈ p.symbols.get? b.target, symbol.segment = .text

instance (p : Program) : Decidable p.BranchesToText :=
  inferInstanceAs (Decidable (∀ b ∈ p.branches, _))

/-- The label stands in the code of both programs, `start` instructions later in the second. -/
def LabelMoves (start : Nat) (s t : SymbolTable) (name : String) : Prop :=
  ∃ symbol symbol', s.get? name = some symbol ∧ t.get? name = some symbol' ∧
    symbol.segment = .text ∧ symbol'.segment = .text ∧
    symbol'.offset = 2 * start + symbol.offset

/-- A branch and its label that move together keep their distance. -/
theorem linkWord_moved {s t : SymbolTable} {inst : Instruction} {start : Nat}
    (h : ∀ name, inst.target? = some name → LabelMoves start s t name)
    (place place' : Placement) (i : Nat) :
    linkWord t place' (place'.codeAddress (start + i)) inst =
      linkWord s place (place.codeAddress i) inst := by
  unfold linkWord
  cases htarget : inst.target? with
  | none => rfl
  | some name =>
    obtain ⟨symbol, symbol', hs, ht, htext, htext', hoffset⟩ := h name htarget
    have hdistance : (place'.address symbol' : Int) - place'.codeAddress (start + i) =
        place.address symbol - place.codeAddress i := by
      simp only [Placement.address, htext, htext', hoffset, Placement.codeAddress]
      push_cast
      omega
    simp only [SymbolTable.resolve, hs, ht, bind, Except.bind, hdistance]

private theorem forall₂_linkWord_moved {p : Program} {place : Placement} {words : List Word}
    (h : p.link place = .ok words) {t : SymbolTable} {start : Nat}
    (hlabels : ∀ b ∈ p.branches, LabelMoves start p.symbols t b.target) (place' : Placement) :
    List.Forall₂ (fun x word => linkWord t place' (place'.codeAddress x.2) x.1 = .ok word)
      ((p.code.map (·.inst)).zipIdx start) words := by
  have hmoves : ∀ x ∈ (p.code.map (·.inst)).zipIdx, ∀ name, x.1.target? = some name →
      LabelMoves start p.symbols t name := by
    rintro ⟨inst, i⟩ hx name hname
    rw [List.mem_zipIdx_iff_getElem?, List.getElem?_map, Option.map_eq_some_iff] at hx
    obtain ⟨line, hline, rfl⟩ := hx
    exact hlabels ⟨i, name, line.inst.entry.format⟩ (mem_branches.mpr ⟨line, hline, hname, rfl⟩)
  rw [List.zipIdx_eq_map_add, List.forall₂_map_left_iff]
  refine ((List.forall₂_and_left _ _).mpr ⟨hmoves, link_eq_ok.mp h⟩).imp ?_
  rintro ⟨inst, i⟩ word ⟨hmoves, hword⟩
  rw [← hword]
  exact linkWord_moved hmoves place place' i

end Program

/-! ## Labels of joined sources -/

/-- The label stands at the same place of the same segment; in the code, `start` instructions
later. -/
def SpotMoves (start : Nat) (x y : String × Segment × Nat) : Prop :=
  x.1 = y.1 ∧ x.2.1 = y.2.1 ∧ (x.2.1 = .text → y.2.2 = 2 * start + x.2.2)

private theorem labelSpots_moved (start words bytes bytes' : Nat) (ss : List SourceStatement) :
    List.Forall₂ (SpotMoves start) (labelSpots words bytes ss)
      (labelSpots (start + words) bytes' ss) := by
  induction ss generalizing words bytes bytes' with
  | nil => exact .nil
  | cons s ss ih =>
    rw [labelSpots_cons, labelSpots_cons, Nat.add_assoc]
    refine List.rel_append ?_ (ih _ _ _)
    rcases s with ⟨line, ⟨_ | name, inst⟩ | ⟨_ | name, directive, payload⟩ | _ | _⟩
    · exact .nil
    · exact .cons ⟨rfl, rfl, fun _ => Nat.mul_add 2 start words⟩ .nil
    · exact .nil
    · exact .cons ⟨rfl, rfl, fun h => by cases h⟩ .nil
    · exact .nil
    · exact .nil

private theorem labelSpots_append (words bytes : Nat) (ss tt : List SourceStatement) :
    labelSpots words bytes (ss ++ tt) = labelSpots words bytes ss ++
      labelSpots (words + (ss.filterMap SourceStatement.code?).length)
        (bytes + (dataFrom bytes ss).length) tt := by
  rw [labelSpots, Event.ofStatements_append, List.filterMap_append, List.map_append]
  rfl

private theorem labelSpots_moveDown (n words bytes : Nat) (ss : List SourceStatement) :
    labelSpots words bytes (ss.map (.moveDown n)) = labelSpots words bytes ss := by
  induction ss generalizing words bytes with
  | nil => rfl
  | cons s ss ih =>
    have hcode : (s.moveDown n).code?.toList.length = s.code?.toList.length := by
      rcases s with ⟨line, ⟨_, _ | inst⟩ | _ | _ | _⟩ <;> rfl
    have hbytes : ((s.moveDown n).bytesAt bytes).length = (s.bytesAt bytes).length := by
      rcases s with ⟨line, _ | ⟨label, directive, payload⟩ | _ | _⟩
      · rfl
      · simp only [SourceStatement.moveDown, SourceStatement.bytesAt, Directive.length_bytesAt]
      · rfl
      · rfl
    rw [List.map_cons, labelSpots_cons, labelSpots_cons, hcode, hbytes, ih]
    rfl

private theorem exists_getLast?_of_forall₂ {α β : Type} {R : α → β → Prop} {xs : List α}
    {ys : List β} (h : List.Forall₂ R xs ys) {x : α} (hx : xs.getLast? = some x) :
    ∃ y, ys.getLast? = some y ∧ R x y := by
  rw [← List.forall₂_reverse_iff] at h
  rw [← List.head?_reverse] at hx ⊢
  generalize xs.reverse = xs', ys.reverse = ys' at h hx ⊢
  cases h with
  | nil => cases hx
  | cons hhead _ =>
    cases hx
    exact ⟨_, rfl, hhead⟩

private theorem labelMoves_of_spots {lines lines' : Array String} {ss tt : List SourceStatement}
    {start : Nat} {name : String} {symbol : Symbol}
    (hsymbol : (Program.ofStatements lines ss).symbols.get? name = some symbol)
    (htext : symbol.segment = .text)
    (hmoves : ∀ x, ((labelSpots 0 0 ss).filter (·.1 = Text.upcase name)).getLast? = some x →
      ∃ y, ((labelSpots 0 0 tt).filter (·.1 = Text.upcase name)).getLast? = some y ∧
        SpotMoves start x y) :
    Program.LabelMoves start (Program.ofStatements lines ss).symbols
      (Program.ofStatements lines' tt).symbols name := by
  have hspot := map_spot_get? lines ss name
  have hspot' := map_spot_get? lines' tt name
  rw [hsymbol, Option.map_some, eq_comm, Option.map_eq_some_iff] at hspot
  obtain ⟨x, hx, hxspot⟩ := hspot
  obtain ⟨y, hy, _, hsegment, hoffset⟩ := hmoves x hx
  rw [hy, Option.map_some, Option.map_eq_some_iff] at hspot'
  obtain ⟨symbol', hsymbol', hyspot⟩ := hspot'
  have hxtext : x.2.1 = .text := by
    rw [hxspot]
    exact htext
  refine ⟨symbol, symbol', hsymbol, hsymbol', htext, ?_, ?_⟩
  · rw [← hxtext, hsegment, ← hyspot]
    rfl
  · have hoffset := hoffset hxtext
    rw [hxspot, ← hyspot] at hoffset
    exact hoffset

def sourceLabels (source : String) : List String :=
  definedLabels .text source ++ definedLabels .data source

private theorem exists_mem_sourceLabels {source : String} {ss : List SourceStatement}
    (h : readLines none (SourceLine.ofText source) = .ok ss) {words bytes : Nat}
    {x : String × Segment × Nat} (hx : x ∈ labelSpots words bytes ss) :
    ∃ a ∈ sourceLabels source, x.1 = Text.upcase a := by
  obtain ⟨s, hs, name, hname, hkey⟩ := exists_label_of_mem_labelSpots hx
  refine ⟨name, ?_, hkey⟩
  have hmem (sec : Section) (hsec : s.statement.section? = some sec) :
      name ∈ definedLabels sec source := by
    have hstream : ⟨0, s.statement⟩ ∈ stream sec ss :=
      List.mem_map.mpr ⟨s, List.mem_filter.mpr ⟨hs, by simp [hsec]⟩, rfl⟩
    exact mem_definedLabels h hstream hname
  rcases s with ⟨line, _ | _ | _ | _⟩
  · exact List.mem_append_left _ (hmem .text rfl)
  · exact List.mem_append_right _ (hmem .data rfl)
  · cases hname
  · cases hname

/-! ## Programs of joined sources -/

theorem map_inst_moveDown (n : Nat) (ss : List SourceStatement) :
    ((ss.map (.moveDown n)).filterMap SourceStatement.code?).map (·.inst) =
      (ss.filterMap SourceStatement.code?).map (·.inst) := by
  induction ss with
  | nil => rfl
  | cons s ss ih =>
    rcases s with ⟨line, ⟨label, _ | inst⟩ | _ | _ | _⟩
    · exact ih
    · exact congrArg (inst :: ·) ih
    · exact ih
    · exact ih
    · exact ih

/-- The code of joined sources is the code of both, and labels of the code move along with it. -/
theorem Program.exists_join {first second : String} (hfirst : EndsLine first)
    (hsecond : OpensSection second)
    (hlabels : ∀ a ∈ sourceLabels first, ∀ b ∈ sourceLabels second, Text.upcase a ≠ Text.upcase b)
    {p q : Program} (hp : Program.ofSource first = .ok p) (hq : Program.ofSource second = .ok q) :
    ∃ r, Program.ofSource (first ++ second) = .ok r ∧
      r.code.map (·.inst) = p.code.map (·.inst) ++ q.code.map (·.inst) ∧
      (∀ name symbol, p.symbols.get? name = some symbol → symbol.segment = .text →
        LabelMoves 0 p.symbols r.symbols name) ∧
      ∀ name symbol, q.symbols.get? name = some symbol → symbol.segment = .text →
        LabelMoves p.code.length q.symbols r.symbols name := by
  obtain ⟨ss, hss, rfl⟩ := Program.ofSource_eq_ok.mp hp
  obtain ⟨tt, htt, rfl⟩ := Program.ofSource_eq_ok.mp hq
  have hspots := labelSpots_append 0 0 ss (tt.map (.moveDown (textLines first).length))
  rw [labelSpots_moveDown] at hspots
  refine ⟨_, Program.ofSource_eq_ok.mpr ⟨_, readLines_join hfirst hsecond hss htt, rfl⟩, ?_, ?_, ?_⟩
  · simp only [ofStatements, List.filterMap_append, List.map_append, map_inst_moveDown]
  · intro name symbol hsymbol htext
    apply labelMoves_of_spots hsymbol htext
    intro x hx
    -- The later source does not define a name of the earlier one again.
    have hnone : (labelSpots (0 + (ss.filterMap SourceStatement.code?).length)
        (0 + (dataFrom 0 ss).length) tt).filter (·.1 = Text.upcase name) = [] := by
      obtain ⟨hmem, hkey⟩ := List.mem_filter.mp (List.mem_of_getLast? hx)
      obtain ⟨a, ha, hxa⟩ := exists_mem_sourceLabels hss hmem
      rw [List.filter_eq_nil_iff]
      intro y hy hykey
      obtain ⟨b, hb, hyb⟩ := exists_mem_sourceLabels htt hy
      apply hlabels a ha b hb
      rw [← hxa, ← hyb, of_decide_eq_true hkey, of_decide_eq_true hykey]
    refine ⟨x, ?_, rfl, rfl, fun _ => by omega⟩
    rw [hspots, List.filter_append, hnone, List.append_nil, hx]
  · intro name symbol hsymbol htext
    apply labelMoves_of_spots hsymbol htext
    intro x hx
    have hmoved := labelSpots_moved (ss.filterMap SourceStatement.code?).length 0 0
      (0 + (dataFrom 0 ss).length) tt
    have hfilter := List.rel_filter (p := (·.1 = Text.upcase name))
      (q := (·.1 = Text.upcase name)) (fun x y h => by simp [h.1]) hmoved
    obtain ⟨y, hy, hmoves⟩ := exists_getLast?_of_forall₂ hfilter hx
    refine ⟨y, ?_, hmoves⟩
    rw [hspots, List.filter_append, List.getLast?_append, Nat.zero_add,
      ← Nat.add_zero (ss.filterMap SourceStatement.code?).length, hy]
    rfl

/-- If the branches of two sources stay inside their own code, the words of the two joined are those
of the first and then those of the second, whatever the three layouts. With nothing in the first
source, the words of the second one do not depend on the layout. -/
theorem assemble_append {first second : String} (hfirst : EndsLine first)
    (hsecond : OpensSection second)
    (hlabels : ∀ a ∈ sourceLabels first, ∀ b ∈ sourceLabels second, Text.upcase a ≠ Text.upcase b)
    {l₁ l₂ l : Layout} {a b : Assembly} (ha : assemble first l₁ = .ok a)
    (hb : assemble second l₂ = .ok b) (hatext : a.program.BranchesToText)
    (hbtext : b.program.BranchesToText) (hl : l.validate = .ok ())
    (hfits : ∀ p, Program.ofSource (first ++ second) = .ok p → ∃ place, p.place l = .ok place) :
    ∃ c, assemble (first ++ second) l = .ok c ∧ c.words = a.words ++ b.words ∧
      (first = "" → c.words = b.words) := by
  obtain ⟨_, hp, _, hplink, _⟩ := assemble_eq_ok.mp ha
  obtain ⟨_, hq, _, hqlink, _⟩ := assemble_eq_ok.mp hb
  obtain ⟨r, hr, hcode, hfirstMoves, hsecondMoves⟩ :=
    Program.exists_join hfirst hsecond hlabels hp hq
  obtain ⟨place, hplace⟩ := hfits r hr
  have hlink : r.link place = .ok (a.words ++ b.words) := by
    rw [Program.link_eq_ok, hcode, List.zipIdx_append, List.length_map, Nat.zero_add]
    apply List.rel_append
    · apply Program.forall₂_linkWord_moved hplink
      intro branch hbranch
      obtain ⟨symbol, hsymbol, htext⟩ := hatext branch hbranch
      exact hfirstMoves branch.target symbol hsymbol htext
    · apply Program.forall₂_linkWord_moved hqlink
      intro branch hbranch
      obtain ⟨symbol, hsymbol, htext⟩ := hbtext branch hbranch
      exact hsecondMoves branch.target symbol hsymbol htext
  refine ⟨_, assemble_of_link hl hr hplace hlink, rfl, ?_⟩
  rintro rfl
  have hempty : Program.ofSource "" = .ok (.ofStatements #[] []) := rfl
  rw [hempty, Except.ok.injEq] at hp
  rw [← hp] at hplink
  have hnil : [] = a.words := Except.ok.inj hplink
  rw [← hnil, List.nil_append]

/-- Two loops, of which the second comes after the data of the first and behind a vector table. -/
theorem assemble_append_loops :
    ∃ a b c, assemble ".data\nD: .byte 1\n.text\nA: NOP\nBRA A\n" {} = .ok a ∧
      assemble ".vectable\nV: 4\n.text\nBT x\nB: NOP\nX: BF B\n" { vectableEntries := some 9 } =
        .ok b ∧
      assemble (".data\nD: .byte 1\n.text\nA: NOP\nBRA A\n" ++
        ".vectable\nV: 4\n.text\nBT x\nB: NOP\nX: BF B\n")
        { segmentSize := 32, textOrigin := 32, dataOrigin := 0 } = .ok c ∧
      c.words = a.words ++ b.words ∧ a.words = [0x0009, 0xAFFF] ∧
      b.words = [0x8902, 0x0009, 0x8BFF] := by
  have hfirst : (assemble ".data\nD: .byte 1\n.text\nA: NOP\nBRA A\n" {}).toOption.map
      (fun a => (a.words, decide a.program.BranchesToText)) = some ([0x0009, 0xAFFF], true) := by
    decide +kernel
  have hsecond : (assemble ".vectable\nV: 4\n.text\nBT x\nB: NOP\nX: BF B\n"
      { vectableEntries := some 9 }).toOption.map
      (fun a => (a.words, decide a.program.BranchesToText)) =
        some ([0x8902, 0x0009, 0x8BFF], true) := by
    decide +kernel
  have hplace : ((Program.ofSource (".data\nD: .byte 1\n.text\nA: NOP\nBRA A\n" ++
      ".vectable\nV: 4\n.text\nBT x\nB: NOP\nX: BF B\n")).toOption.bind fun p => (p.place
        { segmentSize := 32, textOrigin := 32, dataOrigin := 0 }).toOption).isSome = true := by
    decide +kernel
  obtain ⟨a, ha, hawords⟩ := Option.map_eq_some_iff.mp hfirst
  obtain ⟨b, hb, hbwords⟩ := Option.map_eq_some_iff.mp hsecond
  rw [Prod.mk.injEq, decide_eq_true_iff] at hawords hbwords
  have hfits : ∀ p, Program.ofSource (".data\nD: .byte 1\n.text\nA: NOP\nBRA A\n" ++
      ".vectable\nV: 4\n.text\nBT x\nB: NOP\nX: BF B\n") = .ok p →
      ∃ place, p.place { segmentSize := 32, textOrigin := 32, dataOrigin := 0 } = .ok place := by
    intro p hp
    rw [hp] at hplace
    obtain ⟨place, h⟩ := Option.isSome_iff_exists.mp hplace
    exact ⟨place, toOption_eq_some.mp h⟩
  obtain ⟨c, hc, hwords, _⟩ := assemble_append
    (.inr ⟨".data\nD: .byte 1\n.text\nA: NOP\nBRA A", by decide⟩)
    (by decide +kernel) (by decide +kernel) (toOption_eq_some.mp ha) (toOption_eq_some.mp hb)
    hawords.2 hbwords.2 rfl hfits
  exact ⟨a, b, c, toOption_eq_some.mp ha, toOption_eq_some.mp hb, hc, hwords, hawords.1, hbwords.1⟩

end SuperH
