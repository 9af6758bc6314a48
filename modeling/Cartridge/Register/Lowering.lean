import Cartridge.Flat.Program
import Cartridge.Register.Program
import Cartridge.Register.ZeroPage

/-!
# From flat to register programs

All targets of a program, over its modules and routines in order, share one
address map. With it every assignment is a load of the accumulator and a store
from it; labels, branches and calls go over one by one, calls without their
arguments.
-/

namespace Cartridge

/-- The targets that instructions assign, in order. -/
def Flat.targets (instrs : List Flat.Instr) : List String :=
  instrs.filterMap fun
    | .assign target _ => some target
    | _ => none

/-- The targets of a whole program, in order. -/
def Flat.Program.targets (p : Flat.Program) : List String :=
  p.routines.flatMap fun r => Flat.targets r.instrs

namespace Register

/-- The counterpart of an instruction under an address map. -/
def lowerInstr (m : AddressMap) : Flat.Instr → List Instr
  | .assign target source => [.load .a source, .store .a (m.operand target)]
  | .label name => [.label name]
  | .call callee _ => [.call callee]
  | .branch target cond => [.jump target cond]

def lowerRoutine (m : AddressMap) (r : Flat.Routine) : Routine :=
  ⟨r.name, r.instrs.flatMap (lowerInstr m)⟩

/-- The register program of a flat one; fails if its targets do not fit in RAM. -/
def lower (p : Flat.Program) : Except ZeroPageExhausted Program :=
  match AddressMap.bindAll {} p.targets with
  | .ok m => .ok (.ofModules p.sourceFile (p.modules.map (Module.map (lowerRoutine m))))
  | .error e => .error e

end Register

end Cartridge
