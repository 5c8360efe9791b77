/-!
# Base names

The name of a source without its extension, from which the names of its output files are made.
-/
namespace SuperH.Path

/-- Drop the slashes and single dots that a path ends in; the path is given from its end. -/
def dropTail : List Char → List Char
  | '/' :: rest => dropTail rest
  | '.' :: '/' :: rest => dropTail ('/' :: rest)
  | rest => rest
termination_by path => path.length

/-- A file name without its extension, and the extension. A dot that starts the name starts no
extension. -/
def splitExtension (name : List Char) : List Char × Option (List Char) :=
  let after := (name.reverse.takeWhile (· != '.')).reverse
  match (name.reverse.dropWhile (· != '.')).reverse.dropLast with
  | [] => (name, none)
  | stem => (stem, some after)

/-- The path of a file without its extension. A path whose last name is missing or `.` or `..` stays
as it is, and so do both dots of a name such as `..x`. -/
def baseOf (path : String) : String :=
  let fromEnd := path.toList.reverse
  let kept := dropTail fromEnd
  let name := (kept.takeWhile (· != '/')).reverse
  let dir := (kept.dropWhile (· != '/')).reverse
  if name = [] ∨ name = ['.'] ∨ name = ['.', '.'] then path
  else
    let stem := (splitExtension name).1
    if stem = ['.'] ∧ name ≠ stem ∧ kept.length = fromEnd.length then
      String.ofList (dir ++ ['.', '.'])
    else
      String.ofList (dir ++ stem)

end SuperH.Path
