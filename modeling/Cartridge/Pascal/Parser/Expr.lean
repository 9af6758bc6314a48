import Cartridge.Pascal.Expr
import Cartridge.Pascal.Parser.Rule

/-!
# Reading expressions

```
expr           = additive [ relation additive ]
additive       = multiplicative { ( "+" | "-" | "or" ) multiplicative }
multiplicative = factor { ( "*" | "/" | "div" | "mod" | "and" ) factor }
factor         = number | string | "true" | "false" | name [ arguments ]
               | "(" expr ")" | "-" factor
arguments      = "(" [ expr { "," expr } ] ")"
```

Operators of one level associate to the left, relations do not associate. A
minus before a number is part of the number; before anything else it subtracts
from zero.
-/

namespace Cartridge.Pascal

def relation? : Kind → Option Operator
  | .sign .eq => some .eq
  | .sign .ne => some .ne
  | .sign .lt => some .lt
  | .sign .le => some .le
  | .sign .gt => some .gt
  | .sign .ge => some .ge
  | _ => none

def additive? : Kind → Option Operator
  | .sign .plus => some .add
  | .sign .minus => some .sub
  | .keyword .or => some .or
  | _ => none

def multiplicative? : Kind → Option Operator
  | .sign .star => some .mul
  | .sign .slash => some .slash
  | .keyword .div => some .div
  | .keyword .mod => some .mod
  | .keyword .and => some .and
  | _ => none

/-- The literal that a token is. -/
def literal? : Kind → Option Literal
  | .int v => some (.int v)
  | .str s => some (.str s)
  | .keyword .true => some (.bool true)
  | .keyword .false => some (.bool false)
  | _ => none

/-- The value of a minus and its operand. -/
def negate : Expr → Expr
  | .lit (.int v) => .int (-v)
  | e => .binary .sub (.int 0) e

mutual

def expr (ts : List Token) : Reads Expr ts := do
  let left ← additive ts
  match left.uncons? with
  | none => return left
  | some (t, past) =>
    match relation? t.kind with
    | none => return left
    | some op =>
      have := past.fewer
      let right ← additive past.rest
      return past.next (right.map (.binary op left.value))
termination_by 5 * ts.length + 3

def additive (ts : List Token) : Reads Expr ts := do
  let left ← multiplicative ts
  have := left.fewer
  let sum ← additiveTail left.value left.rest
  return left.nextMay sum
termination_by 5 * ts.length + 2

/-- The operands that follow `left`. -/
def additiveTail (left : Expr) (ts : List Token) : MayRead Expr ts :=
  match ts with
  | [] => .ok (.nothing left)
  | t :: rest =>
    match additive? t.kind with
    | none => .ok (.nothing left)
    | some op => do
      let right ← multiplicative rest
      have := right.fewer
      let sum ← additiveTail (.binary op left right.value) right.rest
      return (right.nextMay sum).behind.relax
termination_by 5 * ts.length

def multiplicative (ts : List Token) : Reads Expr ts := do
  let left ← factor ts
  have := left.fewer
  let product ← multiplicativeTail left.value left.rest
  return left.nextMay product
termination_by 5 * ts.length + 1

/-- The factors that follow `left`. -/
def multiplicativeTail (left : Expr) (ts : List Token) : MayRead Expr ts :=
  match ts with
  | [] => .ok (.nothing left)
  | t :: rest =>
    match multiplicative? t.kind with
    | none => .ok (.nothing left)
    | some op => do
      let right ← factor rest
      have := right.fewer
      let product ← multiplicativeTail (.binary op left right.value) right.rest
      return (right.nextMay product).behind.relax
termination_by 5 * ts.length

def factor (ts : List Token) : Reads Expr ts :=
  match ts with
  | ⟨.ident name, _⟩ :: ⟨.sign .openParen, _⟩ :: rest => do
    let args ← arguments rest
    return (args.map (.call name)).behind.behind
  | ⟨.ident name, _⟩ :: _ => .ok (.one (.ident name))
  | ⟨.sign .openParen, _⟩ :: rest => do
    let inner ← expr rest
    let close ← sign .closeParen inner.rest
    return (inner.next (close.map fun _ => inner.value)).behind
  | ⟨.sign .minus, _⟩ :: rest => do
    let operand ← factor rest
    return (operand.map negate).behind
  | [] => .error (.expected .expression [])
  | t :: rest =>
    match literal? t.kind with
    | some value => .ok (.one (.lit value))
    | none => .error (.expected .expression (t :: rest))
termination_by 5 * ts.length

/-- The arguments of a call after their opening parenthesis. -/
def arguments (ts : List Token) : Reads (List Expr) ts :=
  match ts with
  | ⟨.sign .closeParen, _⟩ :: _ => .ok (.one [])
  | ts => do
    let first ← expr ts
    have := first.fewer
    let more ← argumentsTail first.rest
    return first.next (more.map (first.value :: ·))
termination_by 5 * ts.length + 4

/-- The arguments that follow the first. -/
def argumentsTail (ts : List Token) : Reads (List Expr) ts :=
  match ts with
  | ⟨.sign .comma, _⟩ :: rest => do
    let next ← expr rest
    have := next.fewer
    let more ← argumentsTail next.rest
    return (next.next (more.map (next.value :: ·))).behind
  | ts => do return (← sign .closeParen ts).map fun _ => []
termination_by 5 * ts.length

end

end Cartridge.Pascal
