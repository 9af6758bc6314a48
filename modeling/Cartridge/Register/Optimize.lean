import Cartridge.Options
import Cartridge.Partial
import Cartridge.Register.Program

/-!
# Optimizing register programs

From `basic` on, a load directly in front of a store from the same register is
dropped.
-/

namespace Cartridge.Register

/-- Drops every load that a store from the same register follows at once. -/
def dropLoads : List Instr → List Instr
  | [] => []
  | .load reg value :: rest =>
    match rest with
    | .store reg' _ :: _ =>
      if reg = reg' then dropLoads rest else .load reg value :: dropLoads rest
    | _ => .load reg value :: dropLoads rest
  | i :: rest => i :: dropLoads rest

def Routine.optimize (r : Routine) : Routine :=
  ⟨r.name, dropLoads r.instrs⟩

/-- The program at a level; with the optimizer off it keeps the stream it came with. -/
def Program.optimize (level : OptLevel) (p : Program) : Program :=
  if level = .off then p else p.map Routine.optimize

/-- The routine without its superfluous loads, which are counted for the log. -/
def Routine.tryOptimize (r : Routine) : Except Crash Routine := do
  let instrs := dropLoads r.instrs
  let _ ← Partial.difference r.instrs.length instrs.length
  return ⟨r.name, instrs⟩

/-- The program at a level, with a count for every routine. -/
def Program.tryOptimize (level : OptLevel) (p : Program) : Except Crash Program :=
  if level = .off then .ok p
  else do
    let modules ← p.modules.mapM (Module.mapM Routine.tryOptimize)
    return .ofModules p.sourceFile modules

end Cartridge.Register
