import Cartridge.Module

/-!
# Flat programs

One ordered instruction list per routine. Structured control flow has become
labels and branches; operands are text.
-/

namespace Cartridge.Flat

inductive Instr where
  /-- A place that branches name. -/
  | label (name : String)
  /-- Goes to `target` if `cond` holds, always if there is none. -/
  | branch (target : String) (cond : Option String)
  | assign (target source : String)
  | call (callee : String) (args : List String)
deriving DecidableEq, Repr, Inhabited

namespace Instr

/-- A branch that is always taken. -/
abbrev jump (target : String) : Instr := branch target none

/-- A branch taken if `cond` holds. -/
abbrev branchIf (target cond : String) : Instr := branch target (some cond)

/-- Whether control never passes to what follows. -/
def isJump : Instr → Bool
  | branch _ none => true
  | _ => false

def isLabel : Instr → Bool
  | label _ => true
  | _ => false

def text : Instr → String
  | label name => s!"{name}:"
  | branch target none => s!"  br {target}"
  | branch target (some cond) => s!"  br {target} if {cond}"
  | assign target source => s!"  {target} := {source}"
  | call callee args => "  call " ++ callee ++ "(" ++ ", ".intercalate args ++ ")"

end Instr

structure Routine where
  name : String
  instrs : List Instr
deriving DecidableEq, Repr, Inhabited

structure Program where
  sourceFile : String := ""
  modules : List (Module Routine) := []
deriving DecidableEq, Repr, Inhabited

namespace Program

/-- All routines, in declaration order. -/
def routines (p : Program) : List Routine :=
  Module.allRoutines p.modules

/-- The program with every routine replaced, in place. -/
def map (f : Routine → Routine) (p : Program) : Program :=
  { p with modules := p.modules.map (Module.map f) }

def lines (p : Program) : List String :=
  p.modules.flatMap fun m =>
    s!"module {m.name}" ::
      m.routines.flatMap fun r => s!"fn {r.name}" :: r.instrs.map Instr.text

end Program

end Cartridge.Flat
