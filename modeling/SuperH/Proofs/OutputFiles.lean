import SuperH.Assembly.File
import SuperH.Proofs.Disks
import SuperH.Proofs.Lexing

/-!
# Output files

Outputs are created one after the other. A run that succeeds changes its outputs and nothing else;
one that fails changes nothing, unless a directory has the name of an output after the first. The
outputs differ in the end of their names only, so nothing else can stop a later one.
-/
namespace SuperH

/-! ## Runs on a state -/

section Runs
variable {ε ε' σ α β : Type} {x : ExceptT ε (StateM σ) α} {s s' : σ}

private theorem run_liftM (y : StateM σ α) (s : σ) :
    (liftM y : ExceptT ε (StateM σ) α).run.run s = (.ok (y.run s).1, (y.run s).2) := by
  rfl

private theorem run_bind_of_ok {a : α} (h : x.run.run s = (.ok a, s'))
    (f : α → ExceptT ε (StateM σ) β) :
    (x >>= f).run.run s = (f a).run.run s' := by
  rw [ExceptT.run_bind, StateT.run_bind, h]
  rfl

private theorem run_bind_of_error {e : ε} (h : x.run.run s = (.error e, s'))
    (f : α → ExceptT ε (StateM σ) β) : (x >>= f).run.run s = (.error e, s') := by
  rw [ExceptT.run_bind, StateT.run_bind, h]
  rfl

private theorem run_adapt {answer : Except ε α} (h : x.run.run s = (answer, s')) (f : ε → ε') :
    (x.adapt f).run.run s = (answer.mapError f, s') := by
  rw [ExceptT.run_adapt, StateT.run_map, h]
  rfl

end Runs

namespace Disk

/-! ## Writing files in turn -/

theorem run_writeFiles_cons (disk : Disk) (path : String) (contents : ByteArray)
    (rest : List (String × ByteArray)) :
    (writeFiles ((path, contents) :: rest) : ExceptT Error (StateM Disk) Unit).run.run disk =
      match disk.target? path with
      | none => (.error (.fileCreate path), disk)
      | some loc =>
        (writeFiles rest : ExceptT Error (StateM Disk) Unit).run.run
          (disk.put loc (.file contents)) := by
  have hwrite : (Storage.write path contents : StateM Disk _).run disk =
      match disk.target? path with
      | none => (.error .create, disk)
      | some loc => (.ok (), disk.put loc (.file contents)) := by
    simp only [Storage.write, StateT.run_bind, StateT.run_get, pure_bind, Disk.write]
    cases disk.target? path <;> rfl
  rw [writeFiles, run_bind_of_ok (run_liftM _ disk), hwrite]
  cases disk.target? path <;> rfl

/-- Files at different locations are all written, or those before the first that cannot be
created. -/
theorem run_writeFiles {disk : Disk} {files : List (String × ByteArray)}
    (hapart : files.Pairwise fun file other => disk.Apart file.1 other.1) :
    ∃ after,
      (writeFiles files : ExceptT Error (StateM Disk) Unit).run.run disk = (.ok (), after) ∧
        disk.Wrote files after ∨
      ∃ done path contents rest,
        (writeFiles files : ExceptT Error (StateM Disk) Unit).run.run disk =
          (.error (.fileCreate path), after) ∧
        files = done ++ (path, contents) :: rest ∧ disk.target? path = none ∧
        (done = [] → after = disk) ∧ disk.Wrote done after := by
  induction files generalizing disk with
  | nil => exact ⟨disk, .inl ⟨rfl, wrote_nil disk⟩⟩
  | cons file files ih =>
    obtain ⟨path, contents⟩ := file
    rw [run_writeFiles_cons]
    obtain ⟨hfirst, hrest⟩ := List.pairwise_cons.mp hapart
    cases htarget : disk.target? path with
    | none =>
      exact ⟨disk, .inr ⟨[], path, contents, files, rfl, rfl, htarget, fun _ => rfl,
        wrote_nil disk⟩⟩
    | some loc =>
      -- The same files can be created after this one, so the hypotheses carry over to the rest.
      have hput := wrote_put htarget contents
      have hnext : files.Pairwise fun file other =>
          (disk.put loc (.file contents)).Apart file.1 other.1 := by
        simpa only [Apart, hput.target?_eq] using hrest
      obtain ⟨after, ⟨hrun, hwrote⟩ | ⟨done, failed, bytes, rest, hrun, rfl, hnone, _, hwrote⟩⟩ :=
        ih hnext
      · refine ⟨after, .inl ⟨hrun, hput.trans hwrote ?_⟩⟩
        simpa using hfirst
      · refine ⟨after, .inr ⟨(path, contents) :: done, failed, bytes, rest, hrun, rfl, ?_, nofun,
          hput.trans hwrote ?_⟩⟩
        · rw [← hput.target?_eq, hnone]
        · intro file hfile other hother
          obtain rfl := List.mem_singleton.mp hfile
          exact hfirst other (List.mem_append_left _ hother)

/-! ## Names of outputs -/

def lastName (path : String) : String :=
  (names path).2.getLast?.getD ""

/-- A text that ends a name without changing the directory of the path. It is longer than `..`, so
the name is an ordinary one. -/
def IsExtension (ext : String) : Prop :=
  '/' ∉ ext.toList ∧ '\x00' ∉ ext.toList ∧ 2 < ext.utf8ByteSize

instance (ext : String) : Decidable (IsExtension ext) :=
  inferInstanceAs (Decidable (_ ∧ _))

private theorem names_append {ext : String} (h : IsExtension ext) (base : String) :
    names (base ++ ext) =
      ((names base).1, (names base).2.dropLast ++ [lastName base ++ ext]) := by
  obtain ⟨pieces, last, hsplit⟩ := Text.splitOn_append_last '/' base.toList
  have hbase : (names base).2 = pieces.map String.ofList ++ [String.ofList last] := by
    have hsplit := hsplit [] List.not_mem_nil
    rw [List.append_nil, List.append_nil] at hsplit
    rw [names, hsplit, List.map_append]
    rfl
  have hstart : (base.toList ++ ext.toList).head? = some '/' ↔ base.toList.head? = some '/' := by
    cases base.toList with
    | nil =>
      have hhead : ext.toList.head? ≠ some '/' := fun hhead => h.1 (List.mem_of_mem_head? hhead)
      simp [hhead]
    | cons c rest => rfl
  rw [lastName, hbase, names, names, String.toList_append]
  simp only [hsplit ext.toList h.1, hstart]
  simp

private theorem Entry.name_eq {disk : Disk} {base ext name : String} {dir : Location}
    (hext : IsExtension ext) (h : disk.Entry (base ++ ext) dir name) :
    name = lastName base ++ ext := by
  have hlast := h.last_name
  rw [names_append hext, List.getLast?_concat] at hlast
  exact (Option.some.inj hlast).symm

/-- If the path with one extension is good, so is the path with another that is not longer. -/
theorem Entry.sibling {disk : Disk} {base ext other name : String} {dir : Location}
    (hext : IsExtension ext) (hother : IsExtension other)
    (hsize : other.utf8ByteSize ≤ ext.utf8ByteSize) (h : disk.Entry (base ++ ext) dir name) :
    disk.Entry (base ++ other) dir (lastName base ++ other) := by
  obtain rfl := h.name_eq hext
  have hpath := h.path_valid
  have hname := h.name_valid
  have hfollow := h.directory_eq
  simp only [isPath, isName, Bool.and_eq_true, decide_eq_true_eq, String.utf8ByteSize_append,
    String.toList_append, List.all_append] at hpath hname
  rw [names_append hext, List.dropLast_concat] at hfollow
  have hplain (short : String) (hshort : short.utf8ByteSize ≤ 2) :
      lastName base ++ other ≠ short := by
    have hlong := hother.2.2
    rintro rfl
    rw [String.utf8ByteSize_append] at hshort
    omega
  refine ⟨?_, ?_, ?_, ?_, ?_, h.directory⟩
  · have hzero : other.toList.all (· != '\x00') = true := by
      simpa using fun c hc => ne_of_mem_of_not_mem hc hother.2.1
    simp only [isPath, Bool.and_eq_true, decide_eq_true_eq, String.utf8ByteSize_append,
      String.toList_append, List.all_append]
    exact ⟨by omega, hpath.2.1, hzero⟩
  · rw [isName, decide_eq_true_eq, String.utf8ByteSize_append]
    omega
  · exact ⟨hplain "" (by decide), hplain "." (by decide), hplain ".." (by decide)⟩
  · rw [names_append hother, List.getLast?_concat]
  · rw [names_append hother, List.dropLast_concat, hfollow]

private theorem apart_of_ne {ext other : String} (hext : IsExtension ext)
    (hother : IsExtension other) (hne : ext ≠ other) (disk : Disk) (base : String) :
    disk.Apart (base ++ ext) (base ++ other) := by
  intro loc htarget hsame
  obtain ⟨dir, name, hentry, rfl, _⟩ := exists_entry_of_target? htarget
  obtain ⟨dir', name', hentry', hloc, _⟩ := exists_entry_of_target? hsame
  obtain ⟨hname, _⟩ := List.cons.inj hloc
  rw [hentry.name_eq hext, hentry'.name_eq hother] at hname
  exact hne (String.append_right_inj _ |>.mp hname)

/-! ## Assembling files -/

def text? (disk : Disk) (path : String) : Option String :=
  (disk.read path).toOption.bind String.fromUTF8?

private theorem run_readText (disk : Disk) (path : String) :
    ∃ e, (readText path : ExceptT Error (StateM Disk) String).run.run disk =
      (match disk.text? path with
        | some source => .ok source
        | none => .error e, disk) := by
  have hread : (Storage.read path : StateM Disk _).run disk = (disk.read path, disk) := rfl
  rw [readText, run_bind_of_ok (run_liftM _ disk), hread, text?]
  cases disk.read path with
  | error fault => cases fault <;> exact ⟨_, rfl⟩
  | ok bytes =>
    dsimp only [Except.toOption, Option.bind_some]
    cases String.fromUTF8? bytes with
    | none => exact ⟨_, rfl⟩
    | some source => exact ⟨.fileRead path, rfl⟩

end Disk

private theorem Image.exists_extension {image : Image} {base : String} {bin : Bool}
    {file : String × ByteArray} (h : file ∈ image.files base bin) :
    ∃ ext, Disk.IsExtension ext ∧ ext.utf8ByteSize ≤ "_mem0.txt".utf8ByteSize ∧
      file.1 = base ++ ext := by
  have hcases : file.1 = base ++ "_mem0.txt" ∨ file.1 = base ++ "_mem1.txt" ∨
      file.1 = base ++ ".bin" := by
    rw [Image.files, List.mem_append] at h
    rcases h with h | h
    · simp only [List.mem_cons, List.not_mem_nil, or_false] at h
      rcases h with rfl | rfl
      · exact .inl rfl
      · exact .inr (.inl rfl)
    · cases bin with
      | false => cases h
      | true => exact .inr (.inr (congrArg Prod.fst (List.mem_singleton.mp h)))
  rcases hcases with h | h | h
  · exact ⟨_, by decide, by decide, h⟩
  · exact ⟨_, by decide, by decide, h⟩
  · exact ⟨_, by decide, by decide, h⟩

private theorem Image.pairwise_apart (image : Image) (base : String) (bin : Bool) (disk : Disk) :
    (image.files base bin).Pairwise fun file other => disk.Apart file.1 other.1 := by
  have htexts : disk.Apart (base ++ "_mem0.txt") (base ++ "_mem1.txt") :=
    Disk.apart_of_ne (by decide) (by decide) (by decide) disk base
  have hfirst : disk.Apart (base ++ "_mem0.txt") (base ++ ".bin") :=
    Disk.apart_of_ne (by decide) (by decide) (by decide) disk base
  have hsecond : disk.Apart (base ++ "_mem1.txt") (base ++ ".bin") :=
    Disk.apart_of_ne (by decide) (by decide) (by decide) disk base
  cases bin <;> simp [Image.files, htexts, hfirst, hsecond]

section AssembleFile
variable {disk : Disk} {input source : String} {l : Layout}

theorem run_assembleFile_of_unread (h : disk.text? input = none) (base : String) (l : Layout)
    (bin : Bool) :
    ∃ e, (assembleFile input base l bin : ExceptT Failure (StateM Disk) _).run.run disk =
      (.error e, disk) := by
  obtain ⟨e, hread⟩ := disk.run_readText input
  rw [h] at hread
  exact ⟨_, run_bind_of_error (run_adapt hread _) _⟩

theorem run_assembleFile_of_error {e : Failure} (h : disk.text? input = some source)
    (hassemble : assemble source l = .error e) (base : String) (bin : Bool) :
    (assembleFile input base l bin : ExceptT Failure (StateM Disk) _).run.run disk =
      (.error e, disk) := by
  obtain ⟨_, hread⟩ := disk.run_readText input
  rw [h] at hread
  rw [assembleFile, run_bind_of_ok (run_adapt hread _)]
  apply run_bind_of_error
  rw [hassemble]
  rfl

theorem run_assembleFile_of_ok {assembly : Assembly} (h : disk.text? input = some source)
    (hassemble : assemble source l = .ok assembly) (base : String) (bin : Bool)
    {answer : Except Error Unit} {after : Disk}
    (hwrite : (writeFiles (assembly.image.files base bin) :
      ExceptT Error (StateM Disk) Unit).run.run disk = (answer, after)) :
    (assembleFile input base l bin : ExceptT Failure (StateM Disk) _).run.run disk =
      ((answer.mapError .setup).map
        fun _ => (assembly, (assembly.image.files base bin).map Prod.fst), after) := by
  obtain ⟨_, hread⟩ := disk.run_readText input
  rw [h] at hread
  rw [assembleFile, run_bind_of_ok (run_adapt hread _)]
  have hassembled : (ExceptT.mk (pure (assemble source l)) :
      ExceptT Failure (StateM Disk) Assembly).run.run disk = (.ok assembly, disk) := by
    rw [hassemble]
    rfl
  rw [run_bind_of_ok hassembled]
  cases answer with
  | ok => exact run_bind_of_ok (run_adapt hwrite _) _
  | error e => exact run_bind_of_error (run_adapt hwrite _) _

end AssembleFile

def Disk.Assembles (disk : Disk) (input : String) (l : Layout) (assembly : Assembly) : Prop :=
  ∃ source, disk.text? input = some source ∧ assemble source l = .ok assembly

private theorem Disk.Assembles.unique {disk : Disk} {input : String} {l : Layout} {a b : Assembly}
    (ha : disk.Assembles input l a) (hb : disk.Assembles input l b) : a = b := by
  obtain ⟨source, hsource, ha⟩ := ha
  obtain ⟨other, hother, hb⟩ := hb
  cases hsource.symm.trans hother
  exact Except.ok.inj (ha.symm.trans hb)

def Disk.assembleFile (disk : Disk) (input base : String) (l : Layout) (bin : Bool) :
    Except Failure (Assembly × List String) × Disk :=
  (SuperH.assembleFile input base l bin : ExceptT Failure (StateM Disk) _).run.run disk

def outputPaths (base : String) (bin : Bool) : List String :=
  [base ++ "_mem0.txt", base ++ "_mem1.txt"] ++ if bin then [base ++ ".bin"] else []

private theorem Image.map_fst_files (image : Image) (base : String) (bin : Bool) :
    (image.files base bin).map Prod.fst = outputPaths base bin := by
  cases bin <;> rfl

private theorem Disk.read_ne_directory {disk : Disk} {path : String} {loc : Location}
    (h : disk.target? path = some loc) : disk.read path ≠ .error .directory := by
  obtain ⟨dir, name, hentry, rfl, hnode⟩ := exists_entry_of_target? h
  rw [hentry.read_eq]
  intro hread
  split at hread
  · cases hread
  · exact hnode ‹_›
  · cases hread

/-- If the first output can be created, only a directory can be in the way of another. -/
theorem Disk.read_eq_directory {disk after : Disk} {image : Image} {base path : String} {bin : Bool}
    {contents : ByteArray} {done rest : List (String × ByteArray)}
    (hfiles : image.files base bin = done ++ (path, contents) :: rest) (hdone : done ≠ [])
    (hwrote : disk.Wrote done after) (hfailed : disk.target? path = none) :
    disk.read path = .error .directory := by
  have hpath : (path, contents) ∈ image.files base bin := by
    rw [hfiles]
    exact List.mem_append_right _ List.mem_cons_self
  obtain ⟨first, others, rfl⟩ := List.exists_cons_of_ne_nil hdone
  obtain ⟨loc, hfirst, _⟩ := hwrote.written first List.mem_cons_self
  obtain ⟨rfl, _⟩ := List.cons.inj hfiles
  obtain ⟨dir, name, hentry, _, _⟩ := exists_entry_of_target? hfirst
  obtain ⟨ext, hext, hsize, rfl⟩ := Image.exists_extension hpath
  have hsibling := hentry.sibling (by decide) hext hsize
  have hdirectory : disk.node? ((lastName base ++ ext) :: dir) = some .directory := by
    by_contra hfree
    rw [hsibling.target?_eq hfree] at hfailed
    cases hfailed
  rw [hsibling.read_eq, hdirectory]

theorem Disk.assembleFile_cases (disk : Disk) (input base : String) (l : Layout) (bin : Bool) :
    (∃ e, disk.assembleFile input base l bin = (.error e, disk) ∧
      ∀ assembly, ¬ disk.Assembles input l assembly) ∨
    ∃ assembly after, disk.Assembles input l assembly ∧
      (disk.assembleFile input base l bin = (.ok (assembly, outputPaths base bin), after) ∧
        disk.Wrote (assembly.image.files base bin) after ∨
      ∃ done path contents rest,
        disk.assembleFile input base l bin = (.error (.setup (.fileCreate path)), after) ∧
        assembly.image.files base bin = done ++ (path, contents) :: rest ∧
        disk.target? path = none ∧ (done = [] → after = disk) ∧ disk.Wrote done after) := by
  cases htext : disk.text? input with
  | none =>
    obtain ⟨e, hrun⟩ := run_assembleFile_of_unread htext base l bin
    exact .inl ⟨e, hrun, by simp [Assembles, htext]⟩
  | some source =>
    cases hassemble : assemble source l with
    | error e =>
      have hrun := run_assembleFile_of_error htext hassemble base bin
      exact .inl ⟨e, hrun, by simp [Assembles, htext, hassemble]⟩
    | ok assembly =>
      obtain ⟨after, ⟨hwrite, hwrote⟩ | ⟨done, path, contents, rest, hwrite, hfailure⟩⟩ :=
        run_writeFiles (assembly.image.pairwise_apart base bin disk)
      all_goals
        have hrun := run_assembleFile_of_ok htext hassemble base bin hwrite
        refine .inr ⟨assembly, after, ⟨source, htext, hassemble⟩, ?_⟩
      · rw [assembly.image.map_fst_files] at hrun
        exact .inl ⟨hrun, hwrote⟩
      · exact .inr ⟨done, path, contents, rest, hrun, hfailure⟩

theorem Disk.assembleFile_eq_ok {disk after : Disk} {input base : String} {l : Layout} {bin : Bool}
    {assembly : Assembly} {written : List String}
    (h : disk.assembleFile input base l bin = (.ok (assembly, written), after)) :
    disk.Assembles input l assembly ∧ written = outputPaths base bin ∧
      disk.Wrote (assembly.image.files base bin) after := by
  rcases disk.assembleFile_cases input base l bin with
    ⟨_, hrun, _⟩ | ⟨_, _, hassembles, ⟨hrun, hwrote⟩ | ⟨_, _, _, _, hrun, _⟩⟩
  · cases h.symm.trans hrun
  · cases h.symm.trans hrun
    exact ⟨hassembles, rfl, hwrote⟩
  · cases h.symm.trans hrun

theorem Disk.assembleFile_eq_error {disk after : Disk} {input base : String} {l : Layout}
    {bin : Bool} {e : Failure} (h : disk.assembleFile input base l bin = (.error e, after)) :
    after = disk ∨
      ∃ assembly done path contents rest, disk.Assembles input l assembly ∧
        assembly.image.files base bin = done ++ (path, contents) :: rest ∧ done ≠ [] ∧
        disk.read path = .error .directory ∧ e = .setup (.fileCreate path) ∧
        disk.Wrote done after := by
  rcases disk.assembleFile_cases input base l bin with
    ⟨_, hrun, _⟩ | ⟨assembly, _, hassembles, ⟨hrun, _⟩ |
      ⟨done, path, contents, rest, hrun, hfiles, hfailed, hnone, hwrote⟩⟩
  · exact .inl (congrArg Prod.snd (h.symm.trans hrun))
  · cases h.symm.trans hrun
  · cases h.symm.trans hrun
    by_cases hdone : done = []
    · exact .inl (hnone hdone)
    · exact .inr ⟨assembly, done, path, contents, rest, hassembles, hfiles, hdone,
        read_eq_directory hfiles hdone hwrote hfailed, rfl, hwrote⟩

/-- A directory with the name of a later output is met after the outputs before it are written. -/
theorem Disk.assembleFile_of_directory {disk : Disk} {input base : String} {l : Layout} {bin : Bool}
    {assembly : Assembly} (hassembles : disk.Assembles input l assembly)
    (hfirst : (disk.target? (base ++ "_mem0.txt")).isSome)
    (hdirectory : ∃ path ∈ outputPaths base bin, disk.read path = .error .directory) :
    ∃ done path contents rest after,
      assembly.image.files base bin = done ++ (path, contents) :: rest ∧ done ≠ [] ∧
      disk.read path = .error .directory ∧
      disk.assembleFile input base l bin = (.error (.setup (.fileCreate path)), after) ∧
      disk.Wrote done after := by
  obtain ⟨path, hpath, hdirectory⟩ := hdirectory
  rcases disk.assembleFile_cases input base l bin with
    ⟨_, _, hnone⟩ | ⟨other, after, hother, hcases⟩
  · exact absurd hassembles (hnone assembly)
  obtain rfl := hassembles.unique hother
  rcases hcases with ⟨_, hwrote⟩ | ⟨done, failed, contents, rest, hrun, hfiles, hfailed, _, hwrote⟩
  · rw [← assembly.image.map_fst_files] at hpath
    obtain ⟨file, hfile, rfl⟩ := List.mem_map.mp hpath
    obtain ⟨loc, htarget, _⟩ := hwrote.written file hfile
    exact absurd hdirectory (read_ne_directory htarget)
  · have hdone : done ≠ [] := by
      rintro rfl
      obtain ⟨hhead, _⟩ := List.cons.inj hfiles
      obtain ⟨rfl, _⟩ := Prod.mk.inj hhead
      rw [hfailed] at hfirst
      cases hfirst
    exact ⟨done, failed, contents, rest, after, hfiles, hdone,
      read_eq_directory hfiles hdone hwrote hfailed, hrun, hwrote⟩

theorem Disk.exists_assembleFile_eq_ok_iff {disk : Disk} {input base : String} {l : Layout}
    {bin : Bool} :
    (∃ answer after, disk.assembleFile input base l bin = (.ok answer, after)) ↔
      (∃ assembly, disk.Assembles input l assembly) ∧
        ∀ path ∈ outputPaths base bin, (disk.target? path).isSome := by
  constructor
  · rintro ⟨⟨assembly, written⟩, after, h⟩
    obtain ⟨hassembles, _, hwrote⟩ := assembleFile_eq_ok h
    refine ⟨⟨assembly, hassembles⟩, fun path hpath => ?_⟩
    rw [← assembly.image.map_fst_files] at hpath
    obtain ⟨file, hfile, rfl⟩ := List.mem_map.mp hpath
    obtain ⟨loc, htarget, _⟩ := hwrote.written file hfile
    exact Option.isSome_of_eq_some htarget
  · rintro ⟨⟨assembly, hassembles⟩, hall⟩
    rcases disk.assembleFile_cases input base l bin with
      ⟨_, _, hnone⟩ | ⟨other, after, _, ⟨hrun, _⟩ | ⟨done, path, _, rest, _, hfiles, hfailed, _⟩⟩
    · exact absurd hassembles (hnone assembly)
    · exact ⟨_, after, hrun⟩
    · have hpath : path ∈ outputPaths base bin := by
        rw [← other.image.map_fst_files, hfiles]
        simp
      have hsome := hall path hpath
      rw [hfailed] at hsome
      cases hsome

/-- If the answer is an assembly, the outputs hold its image and nothing else has changed. If it is
an error, nothing has changed at all, or a directory stands where an output after the first should
be and just the outputs before it are written. The run succeeds just if its source assembles and
every output can be created. -/
theorem Disk.assembleFile_outcome (disk : Disk) (input base : String) (l : Layout) (bin : Bool) :
    (∀ assembly written after,
      disk.assembleFile input base l bin = (.ok (assembly, written), after) →
        disk.Assembles input l assembly ∧ written = outputPaths base bin ∧
        after.read (base ++ "_mem0.txt") = .ok (MemoryWord.render assembly.image.text).toUTF8 ∧
        after.read (base ++ "_mem1.txt") = .ok (MemoryWord.render assembly.image.data).toUTF8 ∧
        (bin → after.read (base ++ ".bin") = .ok ⟨assembly.image.toBytes.toArray⟩) ∧
        ∀ loc, (∀ path ∈ written, disk.target? path ≠ some loc) →
          after.node? loc = disk.node? loc) ∧
    (∀ e after, disk.assembleFile input base l bin = (.error e, after) →
      after = disk ∨
      ∃ assembly done path contents rest, disk.Assembles input l assembly ∧
        assembly.image.files base bin = done ++ (path, contents) :: rest ∧ done ≠ [] ∧
        disk.read path = .error .directory ∧ e = .setup (.fileCreate path) ∧
        disk.Wrote done after) ∧
    (∀ assembly, disk.Assembles input l assembly →
      (disk.target? (base ++ "_mem0.txt")).isSome →
      (∃ path ∈ outputPaths base bin, disk.read path = .error .directory) →
      ∃ done path contents rest after,
        assembly.image.files base bin = done ++ (path, contents) :: rest ∧ done ≠ [] ∧
        disk.read path = .error .directory ∧
        disk.assembleFile input base l bin = (.error (.setup (.fileCreate path)), after) ∧
        disk.Wrote done after) ∧
    ((∃ answer after, disk.assembleFile input base l bin = (.ok answer, after)) ↔
      (∃ assembly, disk.Assembles input l assembly) ∧
        ∀ path ∈ outputPaths base bin, (disk.target? path).isSome) := by
  refine ⟨?_, fun e after => assembleFile_eq_error, fun assembly => assembleFile_of_directory,
    exists_assembleFile_eq_ok_iff⟩
  intro assembly written after h
  obtain ⟨hassembles, rfl, hwrote⟩ := assembleFile_eq_ok h
  have hread (path : String) (contents : ByteArray)
      (hfile : (path, contents) ∈ assembly.image.files base bin) :
      after.read path = .ok contents := hwrote.read hfile
  refine ⟨hassembles, rfl, ?_, ?_, ?_, ?_⟩
  · exact hread _ _ List.mem_cons_self
  · exact hread _ _ (List.mem_cons_of_mem _ List.mem_cons_self)
  · rintro rfl
    exact hread _ _ (List.mem_append_right _ List.mem_cons_self)
  · intro loc hloc
    refine hwrote.unchanged loc fun file hfile => hloc file.1 ?_
    rw [← assembly.image.map_fst_files]
    exact List.mem_map_of_mem hfile

/-- A directory has the name of the second output. The run fails, and the first output is there
although it was not before. -/
theorem Disk.assembleFile_writes_before_failing :
    let disk : Disk :=
      ⟨[(["a.asm"], .file ".text\nNOP\n".toUTF8), (["o_mem1.txt"], .directory)]⟩
    let text := "0000000000001001\t; 0x00000000 : NOP\n"
    disk.assembleFile "a.asm" "o" { segmentSize := 2, dataOrigin := 2 } false =
        (.error (.setup (.fileCreate "o_mem1.txt")), disk.put ["o_mem0.txt"] (.file text.toUTF8)) ∧
      disk.read "o_mem0.txt" = .error .missing := by
  intro disk text
  have hsource : disk.text? "a.asm" = some ".text\nNOP\n" := by
    have hread : disk.read "a.asm" = .ok ".text\nNOP\n".toByteArray := rfl
    rw [text?, hread, Except.toOption, Option.bind_some, String.fromUTF8?,
      dif_pos (String.isValidUTF8 _)]
    rfl
  obtain ⟨assembly, hassemble, htext⟩ : ∃ assembly,
      assemble ".text\nNOP\n" { segmentSize := 2, dataOrigin := 2 } = .ok assembly ∧
        MemoryWord.render assembly.image.text = text :=
    ⟨_, rfl, by decide⟩
  have hwrite : (writeFiles (assembly.image.files "o" false) :
      ExceptT Error (StateM Disk) Unit).run.run disk =
        (.error (.fileCreate "o_mem1.txt"), disk.put ["o_mem0.txt"] (.file text.toUTF8)) := by
    rw [Image.files, htext]
    rfl
  exact ⟨run_assembleFile_of_ok hsource hassemble "o" false hwrite, rfl⟩

end SuperH
