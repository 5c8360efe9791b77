import SuperH.Text.Digits
import SuperH.Yaml.Scalar.Spacing

/-!
# Quoted scalars

Between single quotes a quote is written twice. Between double quotes a backslash starts an escape.
-/
namespace SuperH.Yaml

/-- The character that a backslash and one character stand for. -/
def escaped? : Char → Option Char
  | '0' => some '\x00'
  | 'a' => some '\x07'
  | 'b' => some '\x08'
  | 't' => some '\t'
  | '\t' => some '\t'
  | 'n' => some '\n'
  | 'v' => some '\x0b'
  | 'f' => some '\x0c'
  | 'r' => some '\r'
  | 'e' => some '\x1b'
  | ' ' => some ' '
  | '"' => some '"'
  | '/' => some '/'
  | '\\' => some '\\'
  | 'N' => some '\u0085'
  | '_' => some '\u00a0'
  | 'L' => some '\u2028'
  | 'P' => some '\u2029'
  | _ => none

/-- The number of hexadecimal digits that follow an escape. -/
def codeLength? : Char → Option Nat
  | 'x' => some 2
  | 'u' => some 4
  | 'U' => some 8
  | _ => none

def charOfCode? (code : Nat) : Option Char :=
  if code < 0xD800 || (0xDFFF < code && code < 0x110000) then some (Char.ofNat code) else none

/-- The text of a quoted scalar from here to its closing `quote`, and what follows. Inside the
digits of an escape, `code` holds how many are still to come and the number they write so far. -/
def quoted? (quote : Char) (code : Option (Nat × Nat)) (spacing : Spacing) :
    List Glyph → Option (List Char × List Glyph)
  | [] => none
  | g :: rest =>
    match code with
    | some (left, high) => do
      let n := 16 * high + (← Text.digit? 16 g.char)
      if left ≤ 1 then
        let c ← charOfCode? n
        let (text, after) ← quoted? quote none .tight rest
        return (c :: text, after)
      else quoted? quote (some (left - 1, n)) .tight rest
    | none =>
      if isGap g.char || isBreak g.char then quoted? quote none (spacing.push g.char) rest
      else if atDocumentMark (g :: rest) then none
      else
        let after? : Option (List Char × List Glyph) :=
          if g.char == quote then
            match rest with
            | [] => some ([], [])
            | next :: rest' =>
              if quote == '\'' && next.char == quote then do
                let (text, after) ← quoted? quote none .tight rest'
                return (quote :: text, after)
              else some ([], next :: rest')
          else if quote == '"' && g.char == '\\' then
            match rest with
            | [] => none
            | next :: rest' =>
              if isBreak next.char then quoted? quote none (.breaks none []) rest'
              else
                match codeLength? next.char with
                | some n => quoted? quote (some (n, 0)) .tight rest'
                | none => do
                  let c ← escaped? next.char
                  let (text, after) ← quoted? quote none .tight rest'
                  return (c :: text, after)
          else do
            let (text, after) ← quoted? quote none .tight rest
            return (g.char :: text, after)
        after?.map fun (text, after) => (spacing.text ++ text, after)

end SuperH.Yaml
