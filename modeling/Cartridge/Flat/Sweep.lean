import Cartridge.Flat.Buffer
import Cartridge.Flat.Optimize

/-!
# Sweeping over flat programs

The passes as they run. Reassigned targets are dropped in one sweep: a run of
assignments collects in slots, and for each target of the run the slot of its
last assignment is known; the next assignment to it empties that slot. What is
no assignment ends the run, whose full slots then go out.
-/

namespace Cartridge.Flat

/-- The instructions that are out, the slots of the current run, and for each target the slot of
its last assignment, the newest entry in front. -/
structure Sweep where
  out : Array Instr := #[]
  slots : Array (Option Instr) := #[]
  pending : List (String × Nat) := []
deriving DecidableEq, Repr

namespace Sweep

/-- Ends the run. -/
def flush (s : Sweep) : Sweep where
  out := s.out ++ s.slots.filterMap id

/-- The slots of the run with the one emptied that is known for `target`. -/
def vacate (s : Sweep) (target : String) : Except Crash (Array (Option Instr)) :=
  match s.pending.lookup target with
  | some previous => Partial.set s.slots previous none
  | none => .ok s.slots

/-- Takes in one more instruction. -/
def step (s : Sweep) (i : Instr) : Except Crash Sweep :=
  match i with
  | .assign target _ =>
    (s.vacate target).map fun slots =>
      { s with slots := slots.push (some i), pending := (target, s.slots.size) :: s.pending }
  | _ => .ok { out := s.flush.out.push i }

end Sweep

/-- The instructions without assignments to targets that their run assigns again. -/
def tryDrop (instrs : List Instr) : Except Crash (List Instr) := do
  let s ← instrs.foldlM Sweep.step {}
  return s.flush.out.toList

/-- An instruction with its operand folded. -/
def tryFoldInstr : Instr → Except Crash Instr
  | .assign target source => (tryFold source).map (.assign target)
  | i => .ok i

def tryOptimizeInstrs (level : OptLevel) (instrs : List Instr) : Except Crash (List Instr) :=
  if level = .off then .ok instrs
  else do
    let folded ← instrs.mapM tryFoldInstr
    tryDrop (if OptLevel.aggressive ≤ level then pruneUnreachable folded else folded)

def Routine.tryOptimize (level : OptLevel) (r : Routine) : Except Crash Routine :=
  (tryOptimizeInstrs level r.instrs).map (Routine.mk r.name)

def Program.tryOptimize (level : OptLevel) (p : Program) : Except Crash Program :=
  if level = .off then .ok p
  else do
    let modules ← p.modules.mapM (Module.mapM (Routine.tryOptimize level))
    return { p with modules }

end Cartridge.Flat
