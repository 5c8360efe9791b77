import SuperH.Storage
import SuperH.Text.Blank

/-!
# Disks

A place for files that is a plain value: files and directories below a working directory. A path is
followed name by name, and every name on the way has to be a directory. A path has at most 4095
bytes, a name in it at most 255, and none of them is zero.
-/
namespace SuperH

/-- Names from a place back to where the path started, the last name first. A path that leaves the
working directory upward holds `..`, and one from the root ends in `/`. -/
abbrev Location := List String

inductive Node where
  | file (contents : ByteArray)
  | directory

structure Disk where
  nodes : List (Location × Node)

namespace Disk

def empty : Disk := ⟨[]⟩

/-- What stands at a location. The working directory and those above it are always there. -/
def node? (disk : Disk) (loc : Location) : Option Node :=
  if loc.all (· == "..") || loc == ["/"] then some .directory else disk.nodes.lookup loc

def parent : Location → Location
  | ["/"] => ["/"]
  | [] => [".."]
  | name :: rest => if name = ".." then ".." :: name :: rest else rest

def step (loc : Location) (name : String) : Location :=
  if name = "" ∨ name = "." then loc else if name = ".." then parent loc else name :: loc

def isPath (path : String) : Bool :=
  path.utf8ByteSize ≤ 4095 && path.toList.all (· != '\x00')

def isName (name : String) : Bool :=
  name.utf8ByteSize ≤ 255

/-- Follow the names of a path, each of which has to start from a directory. -/
def follow (disk : Disk) (loc : Location) : List String → Except ReadFault Location
  | [] => .ok loc
  | name :: rest =>
    match disk.node? loc with
    | none => .error .missing
    | some (.file _) => .error .blocked
    | some .directory =>
      if isName name then follow disk (step loc name) rest else .error .badPath

/-- Where a path starts, and the names on it. -/
def names (path : String) : Location × List String :=
  let chars := path.toList
  (if chars.head? = some '/' then ["/"] else [], (Text.splitOn '/' chars).map String.ofList)

def read (disk : Disk) (path : String) : Except ReadFault ByteArray := do
  if !isPath path then throw .badPath
  if path = "" then throw .missing
  let (start, steps) := names path
  match disk.node? (← disk.follow start steps) with
  | none => throw .missing
  | some .directory => throw .directory
  | some (.file contents) => return contents

def put (disk : Disk) (loc : Location) (node : Node) : Disk :=
  ⟨(loc, node) :: disk.nodes.filter (·.1 != loc)⟩

/-- The location of a file to create: its directory has to exist, and its name not to be one. -/
def target? (disk : Disk) (path : String) : Option Location :=
  let (start, steps) := names path
  match steps.getLast? with
  | none => none
  | some name =>
    if !isPath path || !isName name || name = "" || name = "." || name = ".." then none
    else
      match disk.follow start steps.dropLast with
      | .error _ => none
      | .ok dir =>
        match disk.node? dir, disk.node? (name :: dir) with
        | some .directory, some .directory => none
        | some .directory, _ => some (name :: dir)
        | _, _ => none

def write (disk : Disk) (path : String) (contents : ByteArray) : Option Disk :=
  (disk.target? path).map fun loc => disk.put loc (.file contents)

def makeDirs (disk : Disk) (loc : Location) : List String → Disk
  | [] => disk
  | name :: rest =>
    let loc := step loc name
    let disk := if (disk.node? loc).isSome then disk else disk.put loc .directory
    makeDirs disk loc rest

/-- Put a file where a path says, with the directories on the way to it. -/
def install (disk : Disk) (path : String) (contents : ByteArray) : Disk :=
  let (start, steps) := names path
  let disk := disk.makeDirs start steps.dropLast
  (disk.write path contents).getD disk

/-- Relative paths and contents of the files below the working directory. -/
def files (disk : Disk) : List (String × ByteArray) :=
  disk.nodes.filterMap fun (loc, node) =>
    match node with
    | .file contents =>
      if loc.any fun name => name == ".." || name == "/" then none
      else some ("/".intercalate loc.reverse, contents)
    | .directory => none

/-- The files of `disk` that are not in `before`, or not with the same contents. -/
def changedSince (disk before : Disk) : List (String × ByteArray) :=
  let old := before.files
  disk.files.filter fun (path, contents) => old.lookup path != some contents

end Disk

instance : Storage (StateM Disk) where
  read path := return (← get).read path
  write path contents := do
    match (← get).write path contents with
    | some disk => set disk; return .ok ()
    | none => return .error .create

end SuperH
