import Cartridge.Pascal.Parser.Expr
import Cartridge.Pascal.Program

/-!
# Reading statements

```
block      = "begin" statements "end"
statements = statement { ";" statement }
statement  = name ":=" expr | name [ arguments ] | block
           | "if" expr "then" statement [ "else" statement ]
           | "while" expr "do" statement | (* empty *)
```

An `else` belongs to the nearest `if`. The empty statement leaves nothing
behind, and a block that is the branch of an `if` or `while` is spliced into it.
-/

namespace Cartridge.Pascal

/-- The statements of a branch. -/
def branchOf : Option Stmt → List Stmt
  | none => []
  | some (.block body) => body
  | some s => [s]

/-- The tokens in front of which a statement may be empty. -/
def endsStatement : Kind → Bool
  | .sign .semicolon | .keyword .end_ | .keyword .else_ => true
  | _ => false

mutual

/-- One statement, `none` if it is empty. -/
def statement (ts : List Token) : MayRead (Option Stmt) ts :=
  match ts with
  | ⟨.ident name, _⟩ :: ⟨.sign .assign, _⟩ :: rest => do
    let value ← expr rest
    return (value.map fun e => some (.assign name e)).behind.behind.relax
  | ⟨.ident name, _⟩ :: ⟨.sign .openParen, _⟩ :: rest => do
    let args ← arguments rest
    return (args.map fun es => some (.eval (.call name es))).behind.behind.relax
  | ⟨.ident name, _⟩ :: _ => .ok (Parsed.one (some (.eval (.call name [])))).relax
  | ⟨.keyword .begin, _⟩ :: rest => do
    let body ← statements rest
    let close ← keyword .end_ body.rest
    return (body.next (close.map fun _ => some (.block body.value))).relax
  | ⟨.keyword .if_, _⟩ :: rest => do
    let cond ← expr rest
    have := cond.fewer
    let then_ ← keyword .then_ cond.rest
    have := then_.fewer
    let yes ← statement then_.rest
    have := yes.fewer
    match yes.uncons? with
    | some (⟨.keyword .else_, _⟩, past) =>
      have := past.fewer
      let no ← statement past.rest
      let whole := some (.ifElse cond.value (branchOf yes.value) (branchOf no.value))
      return (cond.next (then_.nextMay (past.nextMay (no.map fun _ => whole)))).behind.relax
    | _ =>
      let whole := some (.ifThen cond.value (branchOf yes.value))
      return (cond.next (then_.nextMay (yes.map fun _ => whole))).behind.relax
  | ⟨.keyword .while, _⟩ :: rest => do
    let cond ← expr rest
    have := cond.fewer
    let do_ ← keyword .do_ cond.rest
    have := do_.fewer
    let body ← statement do_.rest
    let whole := some (.loop cond.value (branchOf body.value))
    return (cond.next (do_.nextMay (body.map fun _ => whole))).behind.relax
  | [] => .error (.expected .statement [])
  | t :: rest =>
    if endsStatement t.kind then .ok (.nothing none)
    else .error (.expected .statement (t :: rest))
termination_by 3 * ts.length

def statements (ts : List Token) : MayRead (List Stmt) ts := do
  let first ← statement ts
  have := first.fewer
  let more ← statementsTail first.rest
  return first.nextMay (more.map (first.value.toList ++ ·))
termination_by 3 * ts.length + 2

/-- The statements after the first, each behind its semicolon. -/
def statementsTail (ts : List Token) : MayRead (List Stmt) ts :=
  match ts with
  | ⟨.sign .semicolon, _⟩ :: rest => do
    let next ← statement rest
    have := next.fewer
    let more ← statementsTail next.rest
    return (next.nextMay (more.map (next.value.toList ++ ·))).relax
  | _ => .ok (.nothing [])
termination_by 3 * ts.length + 1

end

def block (ts : List Token) : Reads (List Stmt) ts := do
  let begin_ ← keyword .begin ts
  let body ← statements begin_.rest
  let end_ ← keyword .end_ body.rest
  return begin_.nextMay (body.next (end_.map fun _ => body.value))

end Cartridge.Pascal
