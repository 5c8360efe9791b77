import SuperH.Literal

/-!
# Reading operands

An operand is read with its blanks removed and its letters in upper case. What fits no addressing
mode is a label.
-/
namespace SuperH.Operand

def regOf? (s : List Char) : Option Reg :=
  Reg.parse? (String.ofList s)

/-- What stands in the parentheses of an address: an offset or `R0`, a comma and a base. -/
def inParens? (inner : List Char) : Option Operand :=
  match Text.splitOn ',' inner with
  | [offset, base] =>
    if offset = ['R', '0'] then
      if base = ['G', 'B', 'R'] then some .indexGbr else (regOf? base).map .indexReg
    else
      (Literal.number? offset).bind fun disp =>
        if base = ['G', 'B', 'R'] then some (.dispGbr disp)
        else if base = ['P', 'C'] then some (.dispPc disp)
        else (regOf? base).map (.dispReg disp)
  | _ => none

/-- The operand that a text in upper case and without blanks writes, labels apart. -/
def addressed? : List Char → Option Operand
  | '#' :: digits => (Literal.number? digits).map .imm
  | '@' :: '-' :: r => (regOf? r).map .preDec
  | '@' :: '(' :: rest =>
    if rest.getLast? = some ')' then inParens? rest.dropLast else none
  | '@' :: r =>
    if r.getLast? = some '+' then (regOf? r.dropLast).map .postInc else (regOf? r).map .indirect
  | r => ((regOf? r).map .reg).or ((SysReg.parse? (String.ofList r)).map .sys)

def read (token : String) : Operand :=
  let plain := Text.upper (token.toList.filter (!Text.isBlank ·))
  (addressed? plain).getD (.label (String.ofList plain))

end SuperH.Operand
