import Cartridge.Flat.Sweep
import Cartridge.Proofs.Flat.Buffer
import Cartridge.Proofs.Flat.Overwriting

/-!
# Sweeping drops what is reassigned

The slots of a run hold its assignments, but for those whose target the run
assigns again, and for each target the sweep knows the one slot that is full.
That is kept by every assignment, so a slot that is emptied exists and holds the
assignment that is overwritten. What is out, and the full slots behind it, are the
instructions read so far without their reassigned targets.
-/

namespace Cartridge.Flat

-- ---------------------------------------------------------------------------
-- Runs
-- ---------------------------------------------------------------------------

/-- The slots of a run: those of assignments to targets that are assigned again are empty. -/
def slotsOf : List Instr → List (Option Instr)
  | [] => []
  | .assign target source :: rest =>
    (if reassigned target rest then none else some (.assign target source)) :: slotsOf rest
  | i :: rest => some i :: slotsOf rest

theorem filterMap_slotsOf (run : List Instr) : (slotsOf run).filterMap id = dropReassigned run := by
  induction run with
  | nil => rfl
  | cons i rest ih =>
    cases i with
    | assign target source =>
      rw [slotsOf, dropReassigned]
      split
      · exact ih
      · exact congrArg (Instr.assign target source :: ·) ih
    | label name => exact congrArg (Instr.label name :: ·) ih
    | branch target cond => exact congrArg (Instr.branch target cond :: ·) ih
    | call callee args => exact congrArg (Instr.call callee args :: ·) ih

/-- A run of assignments assigns its targets again if its last assignment does. -/
theorem reassigned_concat {run : List Instr} (hrun : ∀ i ∈ run, i.target?.isSome) :
    reassigned x (run ++ [.assign target source]) = (reassigned x run || target == x) := by
  induction run with
  | nil => simp [reassigned]
  | cons i rest ih =>
    obtain ⟨hi, hrest⟩ := List.forall_mem_cons.mp hrun
    cases i with
    | assign t s => simp [reassigned, ih hrest, Bool.or_assoc]
    | _ => cases hi

/-- The slot without an assignment to `target`. -/
def clear (target : String) : Option Instr → Option Instr
  | some i => if i.target? = some target then none else some i
  | none => none

theorem slotsOf_concat {run : List Instr} (hrun : ∀ i ∈ run, i.target?.isSome) :
    slotsOf (run ++ [.assign target source]) =
      (slotsOf run).map (clear target) ++ [some (.assign target source)] := by
  induction run with
  | nil => rfl
  | cons i rest ih =>
    obtain ⟨hi, hrest⟩ := List.forall_mem_cons.mp hrun
    cases i with
    | assign t s =>
      rw [List.cons_append, slotsOf, slotsOf, ih hrest, reassigned_concat hrest]
      cases reassigned t rest with
      | true => rfl
      | false => by_cases ht : target = t <;> simp [clear, ht, Ne.symm]
    | _ => cases hi

-- ---------------------------------------------------------------------------
-- The ends of runs
-- ---------------------------------------------------------------------------

theorem reassigned_append {i : Instr} (hi : i.target? = none) (code rest : List Instr) :
    reassigned x (code ++ i :: rest) = reassigned x code := by
  induction code with
  | nil => cases i <;> simp_all [reassigned]
  | cons j code ih => cases j <;> simp [reassigned, ih]

/-- What is no assignment ends the run in front of it. -/
theorem dropReassigned_append {i : Instr} (hi : i.target? = none) (code rest : List Instr) :
    dropReassigned (code ++ i :: rest) = dropReassigned code ++ i :: dropReassigned rest := by
  induction code with
  | nil => cases i <;> simp_all [dropReassigned]
  | cons j code ih =>
    cases j with
    | assign t s =>
      simp only [List.cons_append, dropReassigned, reassigned_append hi]
      split <;> simp [ih]
    | _ => simp [dropReassigned, ih]

theorem dropReassigned_concat {i : Instr} (hi : i.target? = none) (code : List Instr) :
    dropReassigned (code ++ [i]) = dropReassigned code ++ [i] :=
  dropReassigned_append hi code []

-- ---------------------------------------------------------------------------
-- Sweeping
-- ---------------------------------------------------------------------------

/-- The slot that is known for a target is the one that holds an assignment to it. -/
def Linked (pending : List (String × Nat)) (slots : List (Option Instr)) : Prop :=
  ∀ target i, pending.lookup target = some i ↔
    ∃ source, slots[i]? = some (some (.assign target source))

theorem clear_ne (target source : String) (slot : Option Instr) :
    clear target slot ≠ some (.assign target source) := by
  unfold clear
  split
  · split
    · nofun
    · next h =>
      rintro ⟨⟩
      exact h rfl
  · nofun

theorem clear_eq_iff {slot : Option Instr} (h : target' ≠ target) :
    clear target slot = some (.assign target' source) ↔ slot = some (.assign target' source) := by
  constructor
  · intro hclear
    unfold clear at hclear
    split at hclear
    · split at hclear
      · cases hclear
      · exact hclear
    · cases hclear
  · rintro rfl
    simp [clear, h]

theorem clear_eq_self {slot : Option Instr} (h : ∀ source, slot ≠ some (.assign target source)) :
    clear target slot = slot := by
  unfold clear
  split
  · next i =>
    refine if_neg fun hi => ?_
    cases i with
    | assign t source =>
      cases hi
      exact h source rfl
    | _ => cases hi
  · rfl

/-- Emptying the slot that is known for a target leaves no slot for it. -/
theorem Linked.set (h : Linked pending slots) (hlookup : pending.lookup target = some previous) :
    slots.set previous none = slots.map (clear target) := by
  obtain ⟨source, hslot⟩ := (h target previous).mp hlookup
  refine List.ext_getElem? fun i => ?_
  rw [List.getElem?_map, List.getElem?_set]
  split
  · next heq =>
    subst heq
    rw [if_pos (List.getElem?_eq_some_iff.mp hslot).1, hslot]
    simp [clear]
  · next hne =>
    cases hi : slots[i]? with
    | none => rfl
    | some slot =>
      have hother : ∀ source, slot ≠ some (.assign target source) := by
        rintro source rfl
        have hknown := (h target i).mpr ⟨source, hi⟩
        rw [hlookup] at hknown
        exact hne (Option.some.inj hknown)
      simp [clear_eq_self hother]

theorem Linked.keep (h : Linked pending slots) (hlookup : pending.lookup target = none) :
    slots = slots.map (clear target) := by
  refine (List.map_id' slots).symm.trans (List.map_congr_left fun slot hslot => ?_)
  obtain ⟨i, hi⟩ := List.mem_iff_getElem?.mp hslot
  refine (clear_eq_self ?_).symm
  rintro source rfl
  have hknown := (h target i).mpr ⟨source, hi⟩
  rw [hlookup] at hknown
  cases hknown

/-- The next assignment to a target fills a slot of its own, and no other slot is left for it. -/
theorem Linked.push (h : Linked pending slots) (target source : String) :
    Linked ((target, slots.length) :: pending)
      (slots.map (clear target) ++ [some (.assign target source)]) := by
  intro target' i
  rw [List.lookup_cons, List.getElem?_append, List.length_map, List.getElem?_map]
  by_cases ht : target' = target
  · subst ht
    simp only [beq_self_eq_true, Option.some.injEq]
    constructor
    · rintro rfl
      exact ⟨source, by simp⟩
    · rintro ⟨source', hslot⟩
      split at hslot
      · obtain ⟨slot, -, hclear⟩ := Option.map_eq_some_iff.mp hslot
        exact absurd hclear (clear_ne _ _ _)
      · have hlt := (List.getElem?_eq_some_iff.mp hslot).1
        rw [List.length_singleton] at hlt
        omega
  · simp only [beq_eq_false_iff_ne.mpr ht, h target' i]
    refine exists_congr fun source' => ?_
    split
    · simp only [Option.map_eq_some_iff, clear_eq_iff ht, exists_eq_right]
    · next hi =>
      rw [List.getElem?_eq_none (Nat.not_lt.mp hi)]
      simp [List.getElem?_singleton, Ne.symm ht]

/-- What is out is settled up to the end of a run, and the slots are those of the run behind it. -/
structure Sweep.Holds (s : Sweep) (before run : List Instr) : Prop where
  out : s.out.toList = dropReassigned before
  ended : ∀ rest, dropReassigned (before ++ rest) = dropReassigned before ++ dropReassigned rest
  assigns : ∀ i ∈ run, i.target?.isSome
  slots : s.slots.toList = slotsOf run
  linked : Linked s.pending (slotsOf run)

theorem Sweep.Holds.flush (h : Sweep.Holds s before run) :
    s.flush.out.toList = dropReassigned (before ++ run) := by
  rw [Sweep.flush, Array.toList_append, Array.toList_filterMap, h.out, h.slots, filterMap_slotsOf,
    h.ended]

/-- The slot that an assignment empties exists. -/
theorem Sweep.Holds.vacate (h : Sweep.Holds s before run) (target : String) :
    ∃ slots, s.vacate target = .ok slots ∧ slots.toList = (slotsOf run).map (clear target) := by
  unfold Sweep.vacate
  cases hlookup : s.pending.lookup target with
  | none => exact ⟨s.slots, rfl, h.slots.trans (h.linked.keep hlookup)⟩
  | some previous =>
    obtain ⟨source, hslot⟩ := (h.linked target previous).mp hlookup
    have hlt : previous < s.slots.size := by
      rw [← Array.length_toList, h.slots]
      exact (List.getElem?_eq_some_iff.mp hslot).1
    refine ⟨s.slots.set previous none, dif_pos hlt, ?_⟩
    rw [Array.toList_set, h.slots, h.linked.set hlookup]

theorem Sweep.Holds.assign (h : Sweep.Holds s before run) (target source : String) :
    ∃ s', s.step (.assign target source) = .ok s' ∧
      s'.Holds before (run ++ [.assign target source]) := by
  obtain ⟨slots, hvacate, hslots⟩ := h.vacate target
  have hsize : s.slots.size = (slotsOf run).length := by rw [← h.slots, Array.length_toList]
  have hstep : s.step (.assign target source) = .ok { s with
      slots := slots.push (some (.assign target source)),
      pending := (target, s.slots.size) :: s.pending } := by
    rw [Sweep.step, hvacate]
    rfl
  refine ⟨_, hstep, h.out, h.ended, ?_, ?_, ?_⟩
  · exact List.forall_mem_append.mpr ⟨h.assigns, by simp⟩
  · rw [Array.toList_push, hslots, slotsOf_concat h.assigns]
  · rw [hsize, slotsOf_concat h.assigns]
    exact h.linked.push target source

theorem Sweep.Holds.other (h : Sweep.Holds s before run) {i : Instr} (hi : i.target? = none) :
    ∃ s', s.step i = .ok s' ∧ s'.Holds (before ++ run ++ [i]) [] := by
  have hstep : s.step i = .ok { out := s.flush.out.push i } := by
    cases i with
    | assign target source => cases hi
    | _ => rfl
  refine ⟨_, hstep, ?_, fun rest => ?_, nofun, rfl, ?_⟩
  · rw [Array.toList_push, h.flush, dropReassigned_concat hi]
  · rw [List.append_assoc _ [i], List.singleton_append, dropReassigned_append hi,
      dropReassigned_concat hi, List.append_assoc, List.singleton_append]
  · intro target i
    simp [slotsOf]

theorem Sweep.Holds.sweep (h : Sweep.Holds s before run) (code : List Instr) :
    ∃ s', code.foldlM Sweep.step s = .ok s' ∧
      s'.flush.out.toList = dropReassigned (before ++ run ++ code) := by
  induction code generalizing s before run with
  | nil => exact ⟨s, rfl, by rw [List.append_nil, h.flush]⟩
  | cons i code ih =>
    have hstep : ∃ s' before' run', s.step i = .ok s' ∧ Sweep.Holds s' before' run' ∧
        before' ++ run' = before ++ run ++ [i] := by
      cases hi : i.target? with
      | none =>
        obtain ⟨s', hs', hholds⟩ := h.other hi
        exact ⟨s', _, [], hs', hholds, List.append_nil _⟩
      | some target =>
        cases i with
        | assign target source =>
          obtain ⟨s', hs', hholds⟩ := h.assign target source
          exact ⟨s', _, _, hs', hholds, (List.append_assoc _ _ _).symm⟩
        | _ => cases hi
    obtain ⟨s', before', run', hs', hholds, hcode⟩ := hstep
    obtain ⟨s'', hs'', hout⟩ := ih hholds
    refine ⟨s'', by rw [List.foldlM_cons, hs']; exact hs'', ?_⟩
    rw [hout, hcode, List.append_assoc, List.singleton_append]

/-- A sweep does not crash, and drops what is reassigned. -/
theorem tryDrop_eq (code : List Instr) : tryDrop code = .ok (dropReassigned code) := by
  have hholds : Sweep.Holds {} [] [] := ⟨rfl, fun _ => rfl, nofun, rfl, by simp [Linked, slotsOf]⟩
  obtain ⟨s, hs, hout⟩ := hholds.sweep code
  rw [List.nil_append, List.nil_append] at hout
  rw [tryDrop, hs, ← hout]
  rfl

/-- The sweep keeps exactly the assignments that are not overwritten: what stays is what stands at
their positions, in order, with everything that is no assignment. -/
theorem tryDrop_keeps_lasting (code : List Instr) :
    ∃ kept, tryDrop code = .ok kept ∧ kept = (lasting code).filterMap (code[·]?) ∧
      kept.filter (·.target?.isNone) = code.filter (·.target?.isNone) :=
  ⟨_, tryDrop_eq code, dropReassigned_eq_lasting code, filter_dropReassigned code⟩

/-- A run ends at a call, so the assignment in front of it stays. -/
example :
    tryDrop [.assign "x" "1", .assign "y" "x", .assign "x" "2", .call "f" [], .assign "x" "3"] =
      .ok [.assign "y" "x", .assign "x" "2", .call "f" [], .assign "x" "3"] := by
  rfl

-- ---------------------------------------------------------------------------
-- All passes
-- ---------------------------------------------------------------------------

theorem tryFoldInstr_eq (i : Instr) : tryFoldInstr i = .ok (foldInstr i) := by
  cases i with
  | assign target source =>
    rw [tryFoldInstr, tryFold_eq]
    rfl
  | _ => rfl

theorem tryOptimizeInstrs_eq (level : OptLevel) (instrs : List Instr) :
    tryOptimizeInstrs level instrs = .ok (optimizeInstrs level instrs) := by
  have hfold : tryFoldInstr = fun i => pure (foldInstr i) := funext tryFoldInstr_eq
  unfold tryOptimizeInstrs optimizeInstrs
  split
  · rfl
  · rw [hfold, List.mapM_pure]
    exact tryDrop_eq _

theorem Routine.tryOptimize_eq (level : OptLevel) (r : Routine) :
    r.tryOptimize level = .ok (r.optimize level) := by
  rw [Routine.tryOptimize, tryOptimizeInstrs_eq]
  rfl

/-- The optimizer does not crash, and optimizes. -/
theorem Program.tryOptimize_eq (level : OptLevel) (p : Program) :
    p.tryOptimize level = .ok (p.optimize level) := by
  unfold Program.tryOptimize Program.optimize
  split
  · rfl
  · rw [Module.mapM_eq_ok (Routine.tryOptimize_eq level)]
    rfl

end Cartridge.Flat
