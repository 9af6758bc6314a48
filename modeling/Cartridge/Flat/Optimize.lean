import Cartridge.Flat.Fold
import Cartridge.Flat.Program
import Cartridge.Options

/-!
# Optimizing flat programs

From `basic` on, assigned operands are folded and, within a run of
assignments, only the last one to each target is kept. From `aggressive` on,
what follows a jump up to the next label is dropped in between.
-/

namespace Cartridge.Flat

/-- Folds the operand of an assignment. -/
def foldInstr : Instr → Instr
  | .assign target source => .assign target (foldConstants source)
  | i => i

/-- Drops what control cannot fall into; `live` tells whether it reaches the first instruction. -/
def prune (live : Bool) : List Instr → List Instr
  | [] => []
  | i :: rest => if live || i.isLabel then i :: prune (!i.isJump) rest else prune false rest

/-- Drops what stands between a jump and the next label. -/
def pruneUnreachable (instrs : List Instr) : List Instr :=
  prune true instrs

/-- Whether `target` is assigned again before anything but an assignment happens. -/
def reassigned (target : String) : List Instr → Bool
  | .assign t _ :: rest => t == target || reassigned target rest
  | _ => false

/-- Keeps the last assignment to each target within a run of assignments. -/
def dropReassigned : List Instr → List Instr
  | [] => []
  | .assign target source :: rest =>
    if reassigned target rest then dropReassigned rest
    else .assign target source :: dropReassigned rest
  | i :: rest => i :: dropReassigned rest

/-- The optimized instructions of a routine. -/
def optimizeInstrs (level : OptLevel) (instrs : List Instr) : List Instr :=
  if level = .off then instrs
  else
    let folded := instrs.map foldInstr
    dropReassigned (if OptLevel.aggressive ≤ level then pruneUnreachable folded else folded)

def Routine.optimize (level : OptLevel) (r : Routine) : Routine :=
  ⟨r.name, optimizeInstrs level r.instrs⟩

def Program.optimize (level : OptLevel) (p : Program) : Program :=
  if level = .off then p else p.map (Routine.optimize level)

end Cartridge.Flat
