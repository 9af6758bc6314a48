import Cartridge.Module

/-!
# Register programs

Every assignment has become a load and a store, and every target an address.
Beside the routines a program holds its instruction stream: each routine in
declaration order, headed by a label with its name.
-/

namespace Cartridge

/-- The registers of the processor; `a` is the accumulator. -/
inductive Register where
  | a | x | y
deriving DecidableEq, Repr, Inhabited

namespace Register

def all : List Register := [a, x, y]

def text : Register → String
  | a => "A"
  | x => "X"
  | y => "Y"

/-- The register called `s`. -/
def ofText? (s : String) : Option Register :=
  all.find? fun r => r.text == s

inductive Instr where
  | load (reg : Register) (value : String)
  | store (reg : Register) (address : String)
  | call (callee : String)
  | label (name : String)
  /-- Goes to `target` if `cond` holds, always if there is none. -/
  | jump (target : String) (cond : Option String)
deriving DecidableEq, Repr, Inhabited

def Instr.text : Instr → String
  | load reg value => s!"  load {reg.text}, {value}"
  | store reg address => s!"  store {reg.text}, {address}"
  | call callee => s!"  call {callee}"
  | label name => s!"{name}:"
  | jump target none => s!"  jump {target}"
  | jump target (some cond) => s!"  jump {target} if {cond}"

structure Routine where
  name : String
  instrs : List Instr
deriving DecidableEq, Repr, Inhabited

/-- A routine as it stands in the stream. -/
def Routine.stream (r : Routine) : List Instr :=
  .label r.name :: r.instrs

structure Program where
  sourceFile : String
  modules : List (Module Routine)
  stream : List Instr
deriving DecidableEq, Repr, Inhabited

namespace Program

/-- The program of some modules, with the stream that they make. -/
def ofModules (sourceFile : String) (modules : List (Module Routine)) : Program :=
  ⟨sourceFile, modules, (Module.allRoutines modules).flatMap Routine.stream⟩

/-- All routines, in declaration order. -/
def routines (p : Program) : List Routine :=
  Module.allRoutines p.modules

/-- The program with every routine replaced and the stream made anew. -/
def map (f : Routine → Routine) (p : Program) : Program :=
  ofModules p.sourceFile (p.modules.map (Module.map f))

/-- The dump shows the stream. -/
def lines (p : Program) : List String :=
  p.stream.map Instr.text

end Program

end Register

end Cartridge
