import SuperH.Text.CaseTable

/-!
# Letter case

Full Unicode case mappings. Upper case works character by character; lower case also looks at
the neighbours of a capital sigma, which has a form of its own at the end of a word.
-/
namespace SuperH.Text

def CaseRun.contains (run : CaseRun) (n : Nat) : Bool :=
  run.first ≤ n && n ≤ run.last && (n - run.first) % run.step == 0

/-- The character that `runs` maps `c` to, or `c` itself. -/
def shiftCase (runs : List CaseRun) (c : Char) : Char :=
  match runs.find? (·.contains c.toNat) with
  | some run => Char.ofNat (c.toNat + run.shift).toNat
  | none => c

def upperChar (c : Char) : List Char :=
  if c.toNat < 128 then [c.toUpper]
  else match upperExpansions.lookup c.toNat with
    | some expansion => expansion.map Char.ofNat
    | none => [shiftCase upperRuns c]

def upper (s : List Char) : List Char :=
  s.flatMap upperChar

def upcase (s : String) : String :=
  String.ofList (upper s.toList)

def inRanges (ranges : List (Nat × Nat)) (c : Char) : Bool :=
  ranges.any fun range => range.1 ≤ c.toNat && c.toNat ≤ range.2

/-- The first character that case does not ignore is a cased one. -/
def startsCased (s : List Char) : Bool :=
  match s.dropWhile (inRanges caseIgnorableRanges) with
  | [] => false
  | c :: _ => inRanges casedRanges c

/-- Lower-case form of `c` between the text `before` it, nearest character first, and `after` it. -/
def lowerChar (before : List Char) (c : Char) (after : List Char) : List Char :=
  if c.toNat < 128 then [c.toLower]
  else if c = 'Σ' then [if startsCased before && !startsCased after then 'ς' else 'σ']
  else if c = 'İ' then ['i', '\u0307']
  else [shiftCase lowerRuns c]

def lowerAfter (before : List Char) : List Char → List Char
  | [] => []
  | c :: rest => lowerChar before c rest ++ lowerAfter (c :: before) rest

def lower (s : List Char) : List Char :=
  lowerAfter [] s

/-- Both texts are the same up to the case of ASCII letters. -/
def sameIgnoringCase (s t : String) : Bool :=
  s.toList.map Char.toLower == t.toList.map Char.toLower

end SuperH.Text
