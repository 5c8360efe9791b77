import SuperH.Proofs.ImageBuffer

/-!
# The address space is never left

With a layout that is accepted and a source of less than a gigabyte, assembling in 32-bit
arithmetic never traps: it gives what assembling with unbounded numbers gives. Labels and
instructions lie in their segments; a label after the last instruction may lie at the very end.
-/
namespace SuperH

def Trapping.assemble (source : String) (l : Layout) : Option (Except Failure Assembly) := do
  match l.validate with
  | .error e => return .error (.setup e)
  | .ok _ =>
    match ← ofSource source with
    | .error d => return .error (.source d)
    | .ok p =>
      match ← place p l with
      | .error d => return .error (.source d)
      | .ok place =>
        match ← link p place with
        | .error d => return .error (.source d)
        | .ok words => return .ok ⟨p, place, words, ← build p words place l⟩

theorem Program.length_link {p : Program} {place : Placement} {words : List Word}
    (h : p.link place = .ok words) : words.length = p.code.length := by
  rw [Program.link_eq] at h
  rw [length_mapM h, List.length_zipIdx]

theorem Image.apart_build {p : Program} {l : Layout} {place : Placement} {words : List Word}
    (hl : l.validate = .ok ()) (hplace : p.place l = .ok place)
    (hwords : words.length = p.code.length) : Trapping.Apart (Image.build p words place l) := by
  have htext := Image.length_textWords hplace hwords
  have hdata := Image.length_dataWords hplace
  obtain ⟨⟨hpos, heven⟩, _, _, ⟨htextEnd, hdataEnd⟩, happart⟩ := Layout.validate_eq_ok.mp hl
  simp only [Layout.textEnd, Layout.dataEnd] at htextEnd hdataEnd happart
  constructor
  all_goals
    simp only [build, htext, hdata]
    omega

private theorem assemble_of_validate {l : Layout} (hl : l.validate = .ok ()) (source : String) :
    assemble source l =
      match Program.ofSource source with
      | .error d => .error (.source d)
      | .ok p =>
        match p.place l with
        | .error d => .error (.source d)
        | .ok place =>
          match p.link place with
          | .error d => .error (.source d)
          | .ok words => .ok ⟨p, place, words, Image.build p words place l⟩ := by
  rw [assemble, hl]
  cases Program.ofSource source with
  | error d => rfl
  | ok p =>
    simp only [Except.mapError, bind, Except.bind]
    cases p.place l with
    | error d => rfl
    | ok place =>
      dsimp only
      cases p.link place <;> rfl

namespace Trapping

private theorem assemble_eq {source : String} {l : Layout} (hl : l.validate = .ok ())
    (hsource : source.length < 2 ^ 30) : assemble source l = some (SuperH.assemble source l) := by
  rw [assemble, hl, ofSource_eq hsource, assemble_of_validate hl]
  simp only [Option.bind_eq_bind, Option.bind_some]
  cases hp : Program.ofSource source with
  | error d => rfl
  | ok p =>
    obtain ⟨hcode, hvectors, hdata⟩ := Program.lengths_le hp
    have hplaced : place p l = some (p.place l) :=
      place_eq hl (by omega) (by omega) (by omega)
    simp only [hplaced, Option.bind_some]
    cases hplace : p.place l with
    | error d => rfl
    | ok place =>
      have hlinked : link p place = some (p.link place) := by
        apply link_eq
        · intro name symbol hsymbol
          exact Program.address_lt hl hplace (Program.inBounds_of_get? hp hsymbol)
        · intro i hi
          exact Program.codeAddress_lt hl hplace hi
      simp only [hlinked, Option.bind_some]
      cases hlink : p.link place with
      | error d => rfl
      | ok words =>
        have hbuilt := build_eq hl hplace (Program.length_link hlink)
        simp only [hbuilt, Option.bind_some]
        rfl

end Trapping

/-- Assembling never leaves the address space, and no access is out of bounds. -/
theorem assemble_never_traps {source : String} {l : Layout} (hl : l.validate = .ok ())
    (hsource : source.utf8ByteSize < 2 ^ 30) :
    Trapping.assemble source l = some (assemble source l) ∧
    (∀ p place, Program.ofSource source = .ok p → p.place l = .ok place →
      (∀ x ∈ p.symbols.entries, Trapping.address place x.2 = some (place.address x.2) ∧
        (x.2.segment = .text →
          place.textBase ≤ place.address x.2 ∧ place.address x.2 ≤ l.textEnd) ∧
        (x.2.segment = .data →
          l.dataOrigin ≤ place.address x.2 ∧ place.address x.2 ≤ l.dataEnd)) ∧
      ∀ i < p.code.length, Trapping.codeAddress place i = some (place.codeAddress i) ∧
        place.textBase ≤ place.codeAddress i ∧ place.codeAddress i ≤ l.textEnd - 2) ∧
    ∀ out, assemble source l = .ok out →
      Trapping.toBytes out.image = some out.image.toBytes := by
  refine ⟨Trapping.assemble_eq hl ((length_le_utf8ByteSize source).trans_lt hsource), ?_, ?_⟩
  · intro p place hp hplace
    constructor
    · intro x hx
      have hbounds := Program.inBounds_of_mem_entries hp hx
      exact ⟨Trapping.address_eq (Program.address_lt hl hplace hbounds),
        Program.address_mem hl hplace hbounds⟩
    · intro i hi
      exact ⟨Trapping.codeAddress_eq (Program.codeAddress_lt hl hplace hi),
        Program.codeAddress_mem hplace hi⟩
  · intro out hout
    obtain ⟨_, _, hplace, hlink, himage⟩ := assemble_eq_ok.mp hout
    rw [himage]
    exact Trapping.toBytes_eq (Image.apart_build hl hplace (Program.length_link hlink))

/-- A full text segment at the top of the address space, with a label at its end. -/
theorem assemble_never_traps_top :
    Trapping.assemble ".text\nbra end\nnop\nend:" ⟨4, 4294967290, 0, none⟩ =
        some (assemble ".text\nbra end\nnop\nend:" ⟨4, 4294967290, 0, none⟩) ∧
      (assemble ".text\nbra end\nnop\nend:" ⟨4, 4294967290, 0, none⟩).toOption.map
        (fun out => (out.words, out.place.address ⟨.text, 4, 4⟩)) =
          some ([0xA002, 0x0009], 4294967294) := by
  refine ⟨(assemble_never_traps rfl (by decide)).1, ?_⟩
  decide +kernel

end SuperH
