import Cartridge.Flat.Optimize
import Cartridge.Proofs.Flat.Labels
import Cartridge.Proofs.Register.Lowering

/-!
# Labels from level to level

A routine is well labelled if its labels are distinct and every branch goes to
exactly one of them. Routines are well labelled when they are lowered from
statements. After that no pass adds, drops or moves a label, and none adds a
branch, so they stay so down to the optimized register program.
-/

namespace Cartridge

open Pascal (Constants Stmt)

/-- Distinct labels, of which every destination is one. -/
structure WellLabelled (labels destinations : List String) : Prop where
  nodup : labels.Nodup
  defined : ∀ name ∈ destinations, labels.count name = 1

theorem wellLabelled_of_subset (hnodup : labels.Nodup) (hdefined : destinations ⊆ labels) :
    WellLabelled labels destinations where
  nodup := hnodup
  defined _ hname := hnodup.count.trans (if_pos (hdefined hname))

theorem WellLabelled.fewer (h : WellLabelled labels destinations)
    (hsub : destinations' ⊆ destinations) : WellLabelled labels destinations' where
  nodup := h.nodup
  defined name hname := h.defined name (hsub hname)

-- ---------------------------------------------------------------------------
-- Flat routines
-- ---------------------------------------------------------------------------

namespace Flat

/-- The names that branches go to, in order. -/
def destinations (code : List Instr) : List String :=
  code.filterMap fun
    | .branch target _ => some target
    | _ => none

@[simp] theorem destinations_nil : destinations [] = [] := rfl

@[simp] theorem destinations_label : destinations (.label name :: code) = destinations code := rfl

@[simp] theorem destinations_branch :
    destinations (.branch target c :: code) = target :: destinations code := rfl

@[simp] theorem destinations_assign :
    destinations (.assign target source :: code) = destinations code := rfl

@[simp] theorem destinations_call :
    destinations (.call callee args :: code) = destinations code := rfl

@[simp] theorem destinations_append (code code' : List Instr) :
    destinations (code ++ code') = destinations code ++ destinations code' :=
  List.filterMap_append

theorem destinations_ifThen {body : List Stmt} (c : Pascal.Expr)
    (h : destinations (Stmt.lowerAll cs (n + 3) body) ⊆ labels (Stmt.lowerAll cs (n + 3) body)) :
    destinations ((Stmt.ifThen c body).lower cs n) ⊆ labels ((Stmt.ifThen c body).lower cs n) := by
  intro name hname
  have hbody := @h name
  rw [Stmt.lower_ifThen] at hname ⊢
  simp only [destinations_branch, destinations_label, destinations_append, destinations_nil,
    labels_branch, labels_label, labels_append, labels_nil, List.mem_cons, List.mem_append]
    at hname ⊢
  grind

mutual

theorem destinations_lower (cs : Constants) (n : Nat) : (s : Stmt) →
    destinations (s.lower cs n) ⊆ labels (s.lower cs n)
  | .assign target value => by
    rw [Stmt.lower]
    exact List.nil_subset _
  | .eval e => by
    cases e with
    | call callee args =>
      rw [Stmt.lower]
      exact List.nil_subset _
    | _ =>
      simp only [Stmt.lower]
      exact List.nil_subset _
  | .block body => by
    rw [Stmt.lower]
    exact destinations_lowerAll cs n body
  | .ifThen c body => destinations_ifThen c (destinations_lowerAll cs (n + 3) body)
  | .ifElse c yes [] => by
    rw [Stmt.lower_ifElse_nil]
    exact destinations_ifThen c (destinations_lowerAll cs (n + 3) yes)
  | .ifElse c yes (first :: more) => by
    intro name hname
    have hyes := @destinations_lowerAll cs (n + 3) yes name
    have hno := @destinations_lowerAll cs (n + 3 + (Stmt.lowerAll cs (n + 3) yes).length + 2)
      (first :: more) name
    rw [Stmt.lower_ifElse c yes (by simp)] at hname ⊢
    simp only [destinations_branch, destinations_label, destinations_append, destinations_nil,
      labels_branch, labels_label, labels_append, labels_nil, List.mem_cons, List.mem_append]
      at hname ⊢
    grind
  | .loop c body => by
    intro name hname
    have hbody := @destinations_lowerAll cs (n + 4) body name
    -- The jump back to the start goes to the label in front of the body.
    rw [Stmt.lower_loop] at hname ⊢
    simp only [destinations_branch, destinations_label, destinations_append, destinations_nil,
      labels_branch, labels_label, labels_append, labels_nil, List.mem_cons, List.mem_append]
      at hname ⊢
    grind

/-- Every branch of lowered statements goes to a label among them. -/
theorem destinations_lowerAll (cs : Constants) (n : Nat) : (ss : List Stmt) →
    destinations (Stmt.lowerAll cs n ss) ⊆ labels (Stmt.lowerAll cs n ss)
  | [] => by
    rw [Stmt.lowerAll]
    exact List.nil_subset _
  | s :: rest => by
    have hs := destinations_lower cs n s
    have hrest := destinations_lowerAll cs (n + (s.lower cs n).length) rest
    rw [Stmt.lowerAll]
    simp only [labels_append, destinations_append]
    exact List.append_subset.mpr ⟨List.Subset.trans hs (List.subset_append_left _ _),
      List.Subset.trans hrest (List.subset_append_right _ _)⟩

end

-- Every pass keeps the labels and drops branches at most.

theorem labels_fold (code : List Instr) : labels (code.map foldInstr) = labels code := by
  induction code with
  | nil => rfl
  | cons i rest ih => cases i <;> simp [foldInstr, ih]

theorem labels_prune (live : Bool) (code : List Instr) :
    labels (prune live code) = labels code := by
  induction code generalizing live with
  | nil => rfl
  | cons i rest ih =>
    rw [prune]
    split
    · cases i <;> simp [ih]
    · next hdropped =>
      cases i with
      | label name => simp [Instr.isLabel] at hdropped
      | branch target cond => exact ih false
      | assign target source => exact ih false
      | call callee args => exact ih false

theorem prune_sublist (live : Bool) (code : List Instr) : (prune live code).Sublist code := by
  induction code generalizing live with
  | nil => exact .refl _
  | cons i rest ih =>
    rw [prune]
    split
    · exact (ih _).cons_cons i
    · exact (ih false).cons i

theorem labels_dropReassigned (code : List Instr) : labels (dropReassigned code) = labels code := by
  induction code with
  | nil => rfl
  | cons i rest ih =>
    cases i with
    | assign target source =>
      rw [dropReassigned]
      split <;> simp [ih]
    | label name => simp [dropReassigned, ih]
    | branch target cond => simp [dropReassigned, ih]
    | call callee args => simp [dropReassigned, ih]

theorem dropReassigned_sublist (code : List Instr) : (dropReassigned code).Sublist code := by
  induction code with
  | nil => exact .refl _
  | cons i rest ih =>
    cases i with
    | assign target source =>
      rw [dropReassigned]
      split
      · exact ih.cons _
      · exact ih.cons_cons _
    | label name => exact ih.cons_cons _
    | branch target cond => exact ih.cons_cons _
    | call callee args => exact ih.cons_cons _

theorem labels_optimizeInstrs (level : OptLevel) (code : List Instr) :
    labels (optimizeInstrs level code) = labels code := by
  simp only [optimizeInstrs, pruneUnreachable]
  split
  · rfl
  · split <;> simp only [labels_dropReassigned, labels_prune, labels_fold]

/-- What folding leaves alone, the passes keep in its order or drop. -/
theorem filterMap_optimizeInstrs (f : Instr → Option α) (hfold : ∀ i, f (foldInstr i) = f i)
    (level : OptLevel) (code : List Instr) :
    ((optimizeInstrs level code).filterMap f).Sublist (code.filterMap f) := by
  have hfolded : (code.map foldInstr).filterMap f = code.filterMap f := by
    rw [List.filterMap_map]
    congr 1
    funext i
    exact hfold i
  simp only [optimizeInstrs, pruneUnreachable]
  split
  · exact .refl _
  · -- The other passes only take instructions out.
    rw [← hfolded]
    refine .filterMap _ ((dropReassigned_sublist _).trans ?_)
    split
    · exact prune_sublist true _
    · exact .refl _

theorem destinations_optimizeInstrs (level : OptLevel) (code : List Instr) :
    destinations (optimizeInstrs level code) ⊆ destinations code :=
  (filterMap_optimizeInstrs _ (fun i => by cases i <;> rfl) level code).subset

def Program.WellLabelled (p : Program) : Prop :=
  ∀ r ∈ p.routines, Cartridge.WellLabelled (labels r.instrs) (destinations r.instrs)

/-- The labels of every routine, beside its name. -/
def Program.labels (p : Program) : List (String × List String) :=
  p.routines.map fun r => (r.name, Flat.labels r.instrs)

theorem wellLabelled_lower (p : Pascal.Program) : p.lower.WellLabelled := by
  intro r hr
  rw [Program.routines, Pascal.Program.lower, Module.allRoutines_map] at hr
  obtain ⟨s, -, rfl⟩ := List.mem_map.mp hr
  exact wellLabelled_of_subset (nodup_labels_lowerAll _ 0 s.body)
    (destinations_lowerAll p.constants 0 s.body)

theorem routines_optimize (level : OptLevel) (p : Program) :
    (p.optimize level).routines = p.routines.map (Routine.optimize level) := by
  unfold Program.optimize
  split
  · next hoff =>
    subst hoff
    have hid : Routine.optimize .off = id := by
      funext r
      simp [Routine.optimize, optimizeInstrs]
    rw [hid, List.map_id]
  · exact Module.allRoutines_map _ p.modules

theorem Program.WellLabelled.optimize {p : Program} (h : p.WellLabelled) (level : OptLevel) :
    (p.optimize level).WellLabelled := by
  intro r hr
  rw [routines_optimize] at hr
  obtain ⟨s, hs, rfl⟩ := List.mem_map.mp hr
  simp only [Routine.optimize, labels_optimizeInstrs]
  exact (h s hs).fewer (destinations_optimizeInstrs level s.instrs)

theorem labels_optimize (level : OptLevel) (p : Program) :
    (p.optimize level).labels = p.labels := by
  simp [Program.labels, routines_optimize, Function.comp_def, Routine.optimize,
    labels_optimizeInstrs]

end Flat

-- ---------------------------------------------------------------------------
-- Register routines
-- ---------------------------------------------------------------------------

namespace Register

def labels (code : List Instr) : List String :=
  code.filterMap fun
    | .label name => some name
    | _ => none

def destinations (code : List Instr) : List String :=
  code.filterMap fun
    | .jump target _ => some target
    | _ => none

theorem filterMap_lowerInstr {f : Instr → Option α} {g : Flat.Instr → Option α} {m : AddressMap}
    (h : ∀ i, (lowerInstr m i).filterMap f = (g i).toList) (code : List Flat.Instr) :
    (code.flatMap (lowerInstr m)).filterMap f = code.filterMap g := by
  induction code with
  | nil => rfl
  | cons i rest ih =>
    rw [List.flatMap_cons, List.filterMap_append, h i, ih]
    cases hi : g i <;> simp [hi]

theorem labels_lowerInstr (m : AddressMap) (code : List Flat.Instr) :
    labels (code.flatMap (lowerInstr m)) = Flat.labels code :=
  filterMap_lowerInstr (fun i => by cases i <;> rfl) code

theorem destinations_lowerInstr (m : AddressMap) (code : List Flat.Instr) :
    destinations (code.flatMap (lowerInstr m)) = Flat.destinations code :=
  filterMap_lowerInstr (fun i => by cases i <;> rfl) code

theorem dropLoads_load (reg : Register) (value : String) (rest : List Instr) :
    dropLoads (.load reg value :: rest) = dropLoads rest ∨
      dropLoads (.load reg value :: rest) = .load reg value :: dropLoads rest := by
  cases rest with
  | nil => exact .inr (by simp only [dropLoads])
  | cons i rest =>
    cases i with
    | store reg' address =>
      simp only [dropLoads]
      split
      · exact .inl rfl
      · exact .inr rfl
    | _ => exact .inr (by simp only [dropLoads])

/-- Whatever loads have no part in stays as it is. -/
theorem filterMap_dropLoads (f : Instr → Option α) (hload : ∀ reg value, f (.load reg value) = none)
    (code : List Instr) : (dropLoads code).filterMap f = code.filterMap f := by
  induction code with
  | nil => rfl
  | cons i rest ih =>
    cases i with
    | load reg value =>
      obtain hdrop | hkeep := dropLoads_load reg value rest
      · rw [hdrop, ih, List.filterMap_cons_none (hload reg value)]
      · rw [hkeep, List.filterMap_cons, List.filterMap_cons, ih]
    | store reg address => simp only [dropLoads, List.filterMap_cons, ih]
    | call callee => simp only [dropLoads, List.filterMap_cons, ih]
    | label name => simp only [dropLoads, List.filterMap_cons, ih]
    | jump target cond => simp only [dropLoads, List.filterMap_cons, ih]

def Program.WellLabelled (p : Program) : Prop :=
  ∀ r ∈ p.routines, Cartridge.WellLabelled (labels r.instrs) (destinations r.instrs)

def Program.labels (p : Program) : List (String × List String) :=
  p.routines.map fun r => (r.name, Register.labels r.instrs)

theorem wellLabelled_of_lower (h : lower p = .ok q) (hp : p.WellLabelled) : q.WellLabelled := by
  obtain ⟨m, -, hroutines, -⟩ := lower_cases h
  intro r hr
  rw [hroutines] at hr
  obtain ⟨s, hs, rfl⟩ := List.mem_map.mp hr
  simp only [lowerRoutine, labels_lowerInstr, destinations_lowerInstr]
  exact hp s hs

theorem labels_of_lower (h : lower p = .ok q) : q.labels = p.labels := by
  obtain ⟨m, -, hroutines, -⟩ := lower_cases h
  simp [Program.labels, Flat.Program.labels, hroutines, Function.comp_def, lowerRoutine,
    labels_lowerInstr]

theorem routines_optimize (level : OptLevel) (p : Program) :
    (p.optimize level).routines =
      if level = .off then p.routines else p.routines.map Routine.optimize := by
  unfold Program.optimize
  split
  · rfl
  · exact Module.allRoutines_map _ p.modules

theorem labels_dropLoads (code : List Instr) : labels (dropLoads code) = labels code :=
  filterMap_dropLoads _ (fun _ _ => rfl) code

theorem destinations_dropLoads (code : List Instr) :
    destinations (dropLoads code) = destinations code :=
  filterMap_dropLoads _ (fun _ _ => rfl) code

theorem Program.WellLabelled.optimize {p : Program} (h : p.WellLabelled) (level : OptLevel) :
    (p.optimize level).WellLabelled := by
  intro r hr
  rw [routines_optimize] at hr
  split at hr
  · exact h r hr
  · obtain ⟨s, hs, rfl⟩ := List.mem_map.mp hr
    simp only [Routine.optimize, labels_dropLoads, destinations_dropLoads]
    exact h s hs

theorem labels_optimize (level : OptLevel) (p : Program) :
    (p.optimize level).labels = p.labels := by
  rw [Program.labels, routines_optimize]
  split
  · rfl
  · simp [Program.labels, Function.comp_def, Routine.optimize, labels_dropLoads]

/-- From the lowered statements of a program down to its optimized register program, every
routine is well labelled, and its labels are the same at every level. -/
theorem wellLabelled_levels (p : Pascal.Program) (level level' : OptLevel) :
    p.lower.WellLabelled ∧
    (p.lower.optimize level).WellLabelled ∧
    (p.lower.optimize level).labels = p.lower.labels ∧
    ∀ q, lower (p.lower.optimize level) = .ok q →
      q.WellLabelled ∧
      q.labels = p.lower.labels ∧
      (q.optimize level').WellLabelled ∧
      (q.optimize level').labels = p.lower.labels := by
  have hlow := Flat.wellLabelled_lower p
  have hopt := hlow.optimize level
  have hlabels := Flat.labels_optimize level p.lower
  refine ⟨hlow, hopt, hlabels, fun q hq => ?_⟩
  have hreg := wellLabelled_of_lower hq hopt
  have hregLabels := (labels_of_lower hq).trans hlabels
  exact ⟨hreg, hregLabels, hreg.optimize level', (labels_optimize level' q).trans hregLabels⟩

theorem wellLabelled_levels_nested :
    let p : Pascal.Program := { modules := [⟨"demo", [{ name := "main", body :=
      [.loop (.ident "x") [.ifElse (.ident "y") [.assign "x" (.int 1)] [.assign "y" (.int 2)]],
        .ifThen (.ident "y") []] }]⟩] }
    p.lower.labels = [("main", ["while_start_0", "while_body_0", "then_4", "else_4", "endif_4",
      "while_end_0", "then_14", "endif_14"])] ∧
    ∃ q, lower (p.lower.optimize .aggressive) = .ok q ∧
      q.WellLabelled ∧ q.labels = p.lower.labels ∧
      (q.optimize .basic).WellLabelled ∧ (q.optimize .basic).labels = p.lower.labels := by
  intro p
  obtain ⟨q, hq⟩ : ∃ q, lower (p.lower.optimize .aggressive) = .ok q :=
    ⟨_, by with_unfolding_all rfl⟩
  refine ⟨by decide +kernel, q, hq, ?_⟩
  exact (wellLabelled_levels p .aggressive .basic).2.2.2 q hq

end Register

end Cartridge
