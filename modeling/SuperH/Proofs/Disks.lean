import Mathlib.Data.List.Basic
import SuperH.Disk

/-!
# Locations on a disk

Whether a file can be created depends only on which locations are directories, and creating one
changes none of them. So files are created at the same locations whatever was created before, a
file can be read from where it was created, and every other location stays as it was.
-/
namespace SuperH.Disk

/-! ## Following paths -/

theorem lookup_filter_ne {loc other : Location} (h : other ≠ loc)
    (nodes : List (Location × Node)) :
    (nodes.filter (·.1 != loc)).lookup other = nodes.lookup other := by
  induction nodes with
  | nil => rfl
  | cons entry nodes ih =>
    by_cases hentry : entry.1 = loc
    · have hother : (other == entry.1) = false := by simpa [hentry] using h
      rw [List.filter_cons_of_neg (by simpa using hentry), List.lookup_cons, hother, ih]
    · rw [List.filter_cons_of_pos (by simpa using hentry), List.lookup_cons, List.lookup_cons, ih]

private theorem node?_put_of_ne {disk : Disk} {loc other : Location} (h : other ≠ loc)
    (node : Node) :
    (disk.put loc node).node? other = disk.node? other := by
  have hother : (other == loc) = false := by simpa using h
  rw [node?, node?, put, List.lookup_cons, hother, lookup_filter_ne h]

private theorem node?_put_self {disk : Disk} {loc : Location} (h : disk.node? loc ≠ some .directory)
    (node : Node) : (disk.put loc node).node? loc = some node := by
  unfold node? at h ⊢
  split at h
  · exact absurd rfl h
  · rw [if_neg ‹_›, put, List.lookup_cons_self]

theorem follow_cons_eq_ok {disk : Disk} {loc dir : Location} {name : String} {rest : List String} :
    disk.follow loc (name :: rest) = .ok dir ↔
      disk.node? loc = some .directory ∧ isName name ∧
        disk.follow (step loc name) rest = .ok dir := by
  rw [follow]
  split
  · simp [*]
  · simp [*]
  · split <;> simp [*]

theorem follow_append_eq_ok {disk : Disk} {loc dir : Location} {steps rest : List String} :
    disk.follow loc (steps ++ rest) = .ok dir ↔
      ∃ mid, disk.follow loc steps = .ok mid ∧ disk.follow mid rest = .ok dir := by
  induction steps generalizing loc with
  | nil => simp [follow]
  | cons name steps ih =>
    simp only [List.cons_append, follow_cons_eq_ok, ih]
    grind

def SameDirectories (a b : Disk) : Prop :=
  ∀ loc, a.node? loc = some .directory ↔ b.node? loc = some .directory

theorem SameDirectories.follow_eq_ok {a b : Disk} (h : a.SameDirectories b) {loc dir : Location}
    {steps : List String} (hfollow : a.follow loc steps = .ok dir) :
    b.follow loc steps = .ok dir := by
  induction steps generalizing loc with
  | nil => exact hfollow
  | cons name steps ih =>
    obtain ⟨hdir, hname, hrest⟩ := follow_cons_eq_ok.mp hfollow
    exact follow_cons_eq_ok.mpr ⟨(h loc).mp hdir, hname, ih hrest⟩

/-- The path of a file `name` in a directory `dir` that is there. -/
structure Entry (disk : Disk) (path : String) (dir : Location) (name : String) : Prop where
  path_valid : isPath path
  name_valid : isName name
  plain : name ≠ "" ∧ name ≠ "." ∧ name ≠ ".."
  last_name : (names path).2.getLast? = some name
  directory_eq : disk.follow (names path).1 (names path).2.dropLast = .ok dir
  directory : disk.node? dir = some .directory

theorem exists_entry_of_target? {disk : Disk} {path : String} {loc : Location}
    (h : disk.target? path = some loc) :
    ∃ dir name, disk.Entry path dir name ∧ loc = name :: dir ∧
      disk.node? loc ≠ some .directory := by
  unfold target? at h
  dsimp only at h
  split at h
  · cases h
  rename_i name hlast
  split at h
  · cases h
  rename_i hvalid
  simp only [Bool.or_eq_true, Bool.not_eq_true', decide_eq_true_eq, not_or,
    Bool.not_eq_false] at hvalid
  obtain ⟨⟨⟨⟨hpath, hname⟩, hempty⟩, hdot⟩, hdots⟩ := hvalid
  split at h
  · cases h
  rename_i dir hfollow
  split at h
  · cases h
  · rename_i hdir hfree
    obtain rfl := Option.some.inj h
    exact ⟨dir, name, ⟨hpath, hname, ⟨hempty, hdot, hdots⟩, hlast, hfollow, hdir⟩, rfl, hfree⟩
  · cases h

theorem Entry.target?_eq {disk : Disk} {path name : String} {dir : Location}
    (h : disk.Entry path dir name) (hfree : disk.node? (name :: dir) ≠ some .directory) :
    disk.target? path = some (name :: dir) := by
  have hvalid : (!isPath path || !isName name || name = "" || name = "." || name = "..") =
      false := by
    simp [h.path_valid, h.name_valid, h.plain]
  rw [target?]
  simp only [h.last_name, hvalid, h.directory_eq, h.directory]
  cases hnode : disk.node? (name :: dir) with
  | none => rfl
  | some node =>
    cases node with
    | file => rfl
    | directory => exact absurd hnode hfree

theorem target?_eq_some_iff {disk : Disk} {path : String} {loc : Location} :
    disk.target? path = some loc ↔
      ∃ dir name, disk.Entry path dir name ∧ loc = name :: dir ∧
        disk.node? loc ≠ some .directory := by
  refine ⟨exists_entry_of_target?, ?_⟩
  rintro ⟨dir, name, hentry, rfl, hfree⟩
  exact hentry.target?_eq hfree

private theorem Entry.of_sameDirectories {a b : Disk} (h : a.SameDirectories b) {path name : String}
    {dir : Location} (hentry : a.Entry path dir name) : b.Entry path dir name :=
  { hentry with
    directory_eq := h.follow_eq_ok hentry.directory_eq
    directory := (h dir).mp hentry.directory }

theorem Entry.read_eq {disk : Disk} {path name : String} {dir : Location}
    (h : disk.Entry path dir name) :
    disk.read path =
      match disk.node? (name :: dir) with
      | none => .error .missing
      | some .directory => .error .directory
      | some (.file contents) => .ok contents := by
  have hstep : step dir name = name :: dir := by
    rw [step, if_neg (by simp [h.plain]), if_neg h.plain.2.2]
  have hnames : (names path).2.dropLast ++ [name] = (names path).2 :=
    List.dropLast_append_getLast? name h.last_name
  have hfollow : disk.follow (names path).1 (names path).2 = .ok (name :: dir) := by
    rw [← hnames, follow_append_eq_ok]
    refine ⟨dir, h.directory_eq, follow_cons_eq_ok.mpr ⟨h.directory, h.name_valid, ?_⟩⟩
    rw [hstep, follow]
  have hne : path ≠ "" := by
    rintro rfl
    have hlast : (names "").2.getLast? = some "" := by decide
    exact h.plain.1 (Option.some.inj (h.last_name.symm.trans hlast))
  rw [read, h.path_valid]
  simp only [hne, hfollow, bind, Except.bind]
  cases disk.node? (name :: dir) with
  | none => rfl
  | some node => cases node <;> rfl

/-! ## Writing files -/

/-- The files have been written, each at the location of its path, and nothing else has changed. -/
structure Wrote (before : Disk) (files : List (String × ByteArray)) (after : Disk) : Prop where
  written : ∀ file ∈ files, ∃ loc, before.target? file.1 = some loc ∧
    after.node? loc = some (.file file.2)
  unchanged : ∀ loc, (∀ file ∈ files, before.target? file.1 ≠ some loc) →
    after.node? loc = before.node? loc

private theorem Wrote.sameDirectories {before after : Disk} {files : List (String × ByteArray)}
    (h : before.Wrote files after) : before.SameDirectories after := by
  intro loc
  by_cases hloc : ∀ file ∈ files, before.target? file.1 ≠ some loc
  · rw [h.unchanged loc hloc]
  · push Not at hloc
    obtain ⟨file, hfile, htarget⟩ := hloc
    obtain ⟨written, hwritten, hnode⟩ := h.written file hfile
    obtain rfl := Option.some.inj (hwritten.symm.trans htarget)
    obtain ⟨_, _, _, _, hfree⟩ := exists_entry_of_target? htarget
    simp [hnode, hfree]

theorem Wrote.target?_eq {before after : Disk} {files : List (String × ByteArray)}
    (h : before.Wrote files after) (path : String) : after.target? path = before.target? path := by
  have hsame := h.sameDirectories
  ext loc
  simp only [target?_eq_some_iff, ne_eq, hsame loc]
  have hentry (dir : Location) (name : String) :
      after.Entry path dir name ↔ before.Entry path dir name :=
    ⟨.of_sameDirectories fun loc => (hsame loc).symm, .of_sameDirectories hsame⟩
  simp only [hentry]

theorem Wrote.read {before after : Disk} {files : List (String × ByteArray)}
    (h : before.Wrote files after) {file : String × ByteArray} (hfile : file ∈ files) :
    after.read file.1 = .ok file.2 := by
  obtain ⟨loc, htarget, hnode⟩ := h.written file hfile
  obtain ⟨dir, name, hentry, rfl, _⟩ := exists_entry_of_target? htarget
  rw [(hentry.of_sameDirectories h.sameDirectories).read_eq, hnode]

theorem wrote_nil (disk : Disk) : disk.Wrote [] disk :=
  ⟨by simp, fun _ _ => rfl⟩

theorem wrote_put {disk : Disk} {path : String} {loc : Location}
    (h : disk.target? path = some loc) (contents : ByteArray) :
    disk.Wrote [(path, contents)] (disk.put loc (.file contents)) := by
  obtain ⟨_, _, _, _, hfree⟩ := exists_entry_of_target? h
  refine ⟨?_, ?_⟩
  · intro file hfile
    obtain rfl := List.mem_singleton.mp hfile
    exact ⟨loc, h, node?_put_self hfree _⟩
  · intro other hother
    apply node?_put_of_ne
    rintro rfl
    exact hother _ List.mem_cons_self h

/-- Two paths at which no file can be created at the same location. -/
def Apart (disk : Disk) (path other : String) : Prop :=
  ∀ loc, disk.target? path = some loc → disk.target? other ≠ some loc

/-- What is written first stays if the files written after it have other locations. -/
theorem Wrote.trans {a b c : Disk} {files more : List (String × ByteArray)}
    (hab : a.Wrote files b) (hbc : b.Wrote more c)
    (hapart : ∀ file ∈ files, ∀ other ∈ more, a.Apart file.1 other.1) :
    a.Wrote (files ++ more) c := by
  refine ⟨?_, ?_⟩
  · intro file hfile
    rcases List.mem_append.mp hfile with hfile | hfile
    · obtain ⟨loc, htarget, hnode⟩ := hab.written file hfile
      refine ⟨loc, htarget, ?_⟩
      rw [hbc.unchanged loc, hnode]
      intro other hother
      rw [hab.target?_eq]
      exact hapart file hfile other hother loc htarget
    · obtain ⟨loc, htarget, hnode⟩ := hbc.written file hfile
      exact ⟨loc, hab.target?_eq file.1 ▸ htarget, hnode⟩
  · intro loc hloc
    rw [hbc.unchanged loc, hab.unchanged loc]
    · exact fun file hfile => hloc file (List.mem_append_left _ hfile)
    · intro file hfile
      rw [hab.target?_eq]
      exact hloc file (List.mem_append_right _ hfile)

end SuperH.Disk
