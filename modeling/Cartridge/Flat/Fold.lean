import Cartridge.Pascal.Expr
import Cartridge.Text.Alphanumeric
import Cartridge.Text.Number

/-!
# Constant folding in operand text

Reads an operand from left to right and keeps, for every open parenthesis, the
text before it. When a group closes it is replaced by its value if it has the
exact shape `(number operator number)` with an arithmetic operator and a value
that exists in 64 bits. The argument list of a call is told by the letter,
digit or underscore before its parenthesis and stays, but groups inside it
fold.
-/

namespace Cartridge.Flat

open Pascal (Operator)

/-- The value of an operator on two words, if there is one: division goes
toward zero, and overflow and a zero divisor leave none. -/
def evaluate (op : Operator) (a b : Int64) : Option Int64 :=
  match op with
  | .add => Text.fit (a.toInt + b.toInt)
  | .sub => Text.fit (a.toInt - b.toInt)
  | .mul => Text.fit (a.toInt * b.toInt)
  | .slash | .div => if b = 0 then none else Text.fit (a.toInt.tdiv b.toInt)
  | .mod =>
    if b = 0 ∨ (a = Int64.minValue ∧ b = -1) then none else Text.fit (a.toInt.tmod b.toInt)
  | _ => none

/-- The parts of a text between single blanks. -/
def splitBlanks (cs : List Char) : List (List Char) :=
  cs.splitOn ' '

/-- The value of a group, if it has the shape that folds. -/
def groupValue? (inner : List Char) : Option Int64 :=
  match splitBlanks inner with
  | [a, op, b] => do
    let op ← Operator.ofSymbol? (String.ofList op)
    evaluate op (← Text.readInt 10 a) (← Text.readInt 10 b)
  | _ => none

/-- What has been read, with the groups that closed so far folded, and for
every open parenthesis the text before it, the innermost first. All texts have
their last character first. -/
structure Scan where
  text : List Char := []
  opened : List (List Char) := []

/-- Whether a parenthesis after this text opens an argument list. -/
def opensArguments (before : List Char) : Bool :=
  match before with
  | [] => false
  | c :: _ => Text.isAlphanumeric c || c == '_'

def isParenthesis (c : Char) : Bool :=
  c == '(' || c == ')'

/-- The value of the group that stands open at the end of a text, if it has
the shape that folds. A group that closed inside it without a value leaves its
parenthesis, and then there is none. -/
def closingValue? (text : List Char) : Option Int64 :=
  match text.dropWhile (!isParenthesis ·) with
  | '(' :: _ => groupValue? (text.takeWhile (!isParenthesis ·)).reverse
  | _ => none

/-- Reads a closing parenthesis; `before` is the text before the one it closes. -/
def Scan.close (s : Scan) (before : List Char) (outer : List (List Char)) : Scan :=
  if opensArguments before then ⟨')' :: s.text, outer⟩
  else
    match closingValue? s.text with
    | some v => ⟨(toString v.toInt).toList.reverse ++ before, outer⟩
    | none => ⟨')' :: s.text, outer⟩

/-- Reads one more character. -/
def Scan.step (s : Scan) (c : Char) : Scan :=
  match c with
  | '(' => ⟨'(' :: s.text, s.text :: s.opened⟩
  | ')' =>
    match s.opened with
    | [] => ⟨')' :: s.text, []⟩
    | before :: outer => s.close before outer
  | c => ⟨c :: s.text, s.opened⟩

/-- An operand with every group that has a value replaced by it, innermost first. -/
def foldConstants (source : String) : String :=
  String.ofList (source.toList.foldl Scan.step {}).text.reverse

end Cartridge.Flat
