import Cartridge.Capability.Tier
import Cartridge.Module
import Cartridge.Pascal.Expr

/-!
# Structured programs

Statements keep their structure, expressions are trees, and every routine
declares the tier it needs and the extension that may stand in for it. The
text form is an indented dump, two blanks a level.
-/

namespace Cartridge.Pascal

inductive Stmt where
  | assign (target : String) (value : Expr)
  | ifThen (cond : Expr) (body : List Stmt)
  | ifElse (cond : Expr) (yes no : List Stmt)
  | loop (cond : Expr) (body : List Stmt)
  /-- An expression for its effect; only calls have one. -/
  | eval (expr : Expr)
  | block (body : List Stmt)
deriving Repr, Inhabited

/-- Named compile-time values, in declaration order; names may repeat. -/
abbrev Constants := List (String × Literal)

/-- The first declaration of `name`. -/
def Constants.first? (cs : Constants) (name : String) : Option Literal :=
  cs.lookup name

/-- The last declaration of `name`. -/
def Constants.last? (cs : Constants) (name : String) : Option Literal :=
  cs.foldl (fun found c => if c.1 == name then some c.2 else found) none

structure Routine where
  name : String
  body : List Stmt
  /-- The tier the routine needs. -/
  tier : Tier := .l1
  /-- The extension that may grant what the tier would. -/
  extension? : Option String := none
deriving Repr, Inhabited

structure Program where
  sourceFile : String := ""
  constants : Constants := []
  modules : List (Module Routine) := []
deriving Repr, Inhabited

/-- All routines, in declaration order. -/
def Program.routines (p : Program) : List Routine :=
  Module.allRoutines p.modules

/-- Blanks for `depth` levels. -/
def indent (depth : Nat) : String :=
  String.ofList (List.replicate (2 * depth) ' ')

mutual

/-- The dump of a statement at a depth, line by line. -/
def Stmt.lines (depth : Nat) : Stmt → List String
  | .assign target value => [indent depth ++ target ++ " := " ++ value.text]
  | .ifThen cond body =>
    (indent depth ++ "if " ++ cond.text) :: Stmt.allLines (depth + 1) body ++
      [indent depth ++ "end"]
  | .ifElse cond yes no =>
    (indent depth ++ "if " ++ cond.text) :: Stmt.allLines (depth + 1) yes ++
      (indent depth ++ "else") :: Stmt.allLines (depth + 1) no ++ [indent depth ++ "end"]
  | .loop cond body =>
    (indent depth ++ "while " ++ cond.text) :: Stmt.allLines (depth + 1) body ++
      [indent depth ++ "end"]
  | .eval expr => [indent depth ++ expr.text]
  | .block body =>
    (indent depth ++ "block") :: Stmt.allLines (depth + 1) body ++ [indent depth ++ "end"]

/-- The dump of statements that follow one another. -/
def Stmt.allLines (depth : Nat) : List Stmt → List String
  | [] => []
  | s :: rest => s.lines depth ++ Stmt.allLines depth rest

end

def Routine.header (r : Routine) : String :=
  match r.extension? with
  | some ext => s!"  fn {r.name} [{r.tier.text} via {ext}]"
  | none => s!"  fn {r.name} [{r.tier.text}]"

def Routine.lines (r : Routine) : List String :=
  r.header :: Stmt.allLines 2 r.body

def constantLine (c : String × Literal) : String :=
  s!"const {c.1} = {c.2.operand}"

def Program.lines (p : Program) : List String :=
  p.constants.map constantLine ++
    p.modules.flatMap fun m => s!"module {m.name}" :: m.routines.flatMap Routine.lines

end Cartridge.Pascal
