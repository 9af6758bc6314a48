import Cartridge.Flat.Program
import Cartridge.Pascal.Program

/-!
# From structured to flat programs

Expressions become operand text without being evaluated; a name that a
constant bears becomes the constant's value. An `if` or `while` becomes labels
and branches whose names carry the number of instructions in front of the
statement, which keeps them apart within a routine. Blocks are spliced in, and
an expression that is no call leaves nothing behind.
-/

namespace Cartridge

open Flat (Instr)

namespace Pascal

/-- A name as an operand: the value of the constant it names, or itself. -/
def Constants.operand (cs : Constants) (name : String) : String :=
  match cs.last? name with
  | some value => value.operand
  | none => name

/-- An expression as an operand. -/
def Expr.operand (cs : Constants) (e : Expr) : String :=
  e.write Literal.operand cs.operand

mutual

/-- The instructions of a statement that `n` instructions precede. -/
def Stmt.lower (cs : Constants) (n : Nat) : Stmt → List Instr
  | .assign target value => [.assign target (value.operand cs)]
  | .eval (.call callee args) => [.call callee (args.map (·.operand cs))]
  | .eval _ => []
  | .block body => Stmt.lowerAll cs n body
  | .ifThen cond body =>
    .branchIf s!"then_{n}" (cond.operand cs) :: .jump s!"endif_{n}" :: .label s!"then_{n}" ::
      Stmt.lowerAll cs (n + 3) body ++ [.label s!"endif_{n}"]
  | .ifElse cond yes [] =>
    .branchIf s!"then_{n}" (cond.operand cs) :: .jump s!"endif_{n}" :: .label s!"then_{n}" ::
      Stmt.lowerAll cs (n + 3) yes ++ [.label s!"endif_{n}"]
  | .ifElse cond yes (first :: more) =>
    let yesCode := Stmt.lowerAll cs (n + 3) yes
    .branchIf s!"then_{n}" (cond.operand cs) :: .jump s!"else_{n}" :: .label s!"then_{n}" ::
      yesCode ++ .jump s!"endif_{n}" :: .label s!"else_{n}" ::
      Stmt.lowerAll cs (n + 3 + yesCode.length + 2) (first :: more) ++ [.label s!"endif_{n}"]
  | .loop cond body =>
    .label s!"while_start_{n}" :: .branchIf s!"while_body_{n}" (cond.operand cs) ::
      .jump s!"while_end_{n}" :: .label s!"while_body_{n}" ::
      Stmt.lowerAll cs (n + 4) body ++
      [.jump s!"while_start_{n}", .label s!"while_end_{n}"]

/-- The instructions of statements that follow one another. -/
def Stmt.lowerAll (cs : Constants) (n : Nat) : List Stmt → List Instr
  | [] => []
  | s :: rest =>
    let code := s.lower cs n
    code ++ Stmt.lowerAll cs (n + code.length) rest

end

def Routine.lower (cs : Constants) (r : Routine) : Flat.Routine :=
  ⟨r.name, Stmt.lowerAll cs 0 r.body⟩

def Program.lower (p : Program) : Flat.Program :=
  { sourceFile := p.sourceFile
    modules := p.modules.map (Module.map (Routine.lower p.constants)) }

end Pascal

end Cartridge
