/-!
# Expressions

Operators, literals and expression trees, with one writer that fixes the shape
of expression text: a binary expression stands in parentheses with single
blanks around its operator, arguments are separated by a comma and a blank.
How leaves are written is the writer's parameter.
-/

namespace Cartridge.Pascal

inductive Operator where
  | add | sub | mul
  /-- Division written `/`. -/
  | slash
  /-- Division written `div`. -/
  | div
  | mod | eq | ne | lt | le | gt | ge | and | or
deriving DecidableEq, Repr, Inhabited

namespace Operator

def all : List Operator :=
  [add, sub, mul, slash, div, mod, eq, ne, lt, le, gt, ge, and, or]

def symbol : Operator → String
  | add => "+"
  | sub => "-"
  | mul => "*"
  | slash => "/"
  | div => "div"
  | mod => "mod"
  | eq => "="
  | ne => "<>"
  | lt => "<"
  | le => "<="
  | gt => ">"
  | ge => ">="
  | and => "and"
  | or => "or"

/-- Whether the operator computes an integer. -/
def isArithmetic : Operator → Bool
  | add | sub | mul | slash | div | mod => true
  | _ => false

/-- The operator written `s`. -/
def ofSymbol? (s : String) : Option Operator :=
  all.find? fun op => op.symbol == s

theorem ofSymbol?_symbol (op : Operator) : ofSymbol? op.symbol = some op := by
  cases op <;> rfl

end Operator

inductive Literal where
  | int (value : Int64)
  | bool (value : Bool)
  | str (value : String)
deriving DecidableEq, Repr, Inhabited

/-- A literal as an operand: numbers in decimal, truth values as the bytes that
stand for them, strings bare. -/
def Literal.operand : Literal → String
  | int v => toString v.toInt
  | bool true => "1"
  | bool false => "0"
  | str s => s

/-- A literal in program text: as an operand, but strings are quoted. -/
def Literal.text : Literal → String
  | str s => s!"'{s}'"
  | l => l.operand

inductive Expr where
  | lit (value : Literal)
  | ident (name : String)
  | binary (op : Operator) (left right : Expr)
  | call (callee : String) (args : List Expr)
deriving Repr, Inhabited

/-- An integer literal. -/
abbrev Expr.int (v : Int64) : Expr := .lit (.int v)

mutual

/-- Writes an expression, its literals and names as told. -/
def Expr.write (lit : Literal → String) (ident : String → String) : Expr → String
  | .lit l => lit l
  | .ident name => ident name
  | .binary op l r =>
    "(" ++ l.write lit ident ++ " " ++ op.symbol ++ " " ++ r.write lit ident ++ ")"
  | .call callee args => callee ++ "(" ++ ", ".intercalate (Expr.writeAll lit ident args) ++ ")"

/-- Writes each expression of a list. -/
def Expr.writeAll (lit : Literal → String) (ident : String → String) : List Expr → List String
  | [] => []
  | e :: es => e.write lit ident :: Expr.writeAll lit ident es

end

theorem Expr.writeAll_eq_map (lit : Literal → String) (ident : String → String)
    (es : List Expr) : Expr.writeAll lit ident es = es.map (Expr.write lit ident) := by
  induction es with
  | nil => rfl
  | cons e es ih => simp [Expr.writeAll, ih]

/-- An expression as program text. -/
def Expr.text (e : Expr) : String :=
  e.write Literal.text fun name => name

end Cartridge.Pascal
