import Mathlib.Data.List.Chain
import Cartridge.Flat.Optimize
import Cartridge.Proofs.Flat.Labels

/-!
# What stands behind a branch

In lowered statements a jump stands behind every branch with a condition, and a
label behind every jump. So there is nothing to prune, and all levels above
`off` optimize a routine in the same way.
-/

namespace Cartridge.Flat

open Pascal (Constants Stmt)

/-- What may stand behind an instruction. -/
def Instr.leadsTo : Instr → Instr → Bool
  | .branch _ none, next => next.isLabel
  | .branch _ (some _), next => next.isJump
  | _, _ => true

/-- A jump stands behind every branch with a condition, and a label behind every jump. -/
def Joined (code : List Instr) : Prop :=
  code.IsChain (·.leadsTo · = true)

/-- A label stands behind every jump. -/
def Pruned (code : List Instr) : Prop :=
  code.IsChain (·.isJump → ·.isLabel)

theorem joined_label : Joined (.label name :: code) ↔ Joined code := by
  simp [Joined, List.isChain_cons, Instr.leadsTo]

theorem joined_assign : Joined (.assign target source :: code) ↔ Joined code := by
  simp [Joined, List.isChain_cons, Instr.leadsTo]

theorem joined_call : Joined (.call callee args :: code) ↔ Joined code := by
  simp [Joined, List.isChain_cons, Instr.leadsTo]

theorem joined_jump : Joined (.jump target :: .label name :: code) ↔ Joined code := by
  simp [Joined, List.isChain_cons, Instr.leadsTo, Instr.isLabel]

theorem joined_branchIf :
    Joined (.branchIf target c :: .jump target' :: code) ↔ Joined (.jump target' :: code) := by
  simp [Joined, List.isChain_cons, Instr.leadsTo, Instr.isJump]

theorem joined_ifThen {body : List Stmt} (c : Pascal.Expr)
    (hbody : ∀ rest, Joined rest → Joined (Stmt.lowerAll cs (n + 3) body ++ rest))
    (h : Joined rest) : Joined ((Stmt.ifThen c body).lower cs n ++ rest) := by
  rw [Stmt.lower_ifThen]
  simp only [List.cons_append, List.append_assoc, List.nil_append, joined_branchIf, joined_jump]
  exact hbody _ (joined_label.mpr h)

mutual

theorem joined_lower_append (cs : Constants) (n : Nat) (s : Stmt) (h : Joined rest) :
    Joined (s.lower cs n ++ rest) := by
  match s with
  | .assign target value =>
    rw [Stmt.lower]
    exact joined_assign.mpr h
  | .eval e =>
    cases e with
    | call callee args =>
      rw [Stmt.lower]
      exact joined_call.mpr h
    | _ => simpa [Stmt.lower] using h
  | .block body =>
    rw [Stmt.lower]
    exact joined_lowerAll_append cs n body h
  | .ifThen c body => exact joined_ifThen c (fun _ => joined_lowerAll_append cs (n + 3) body) h
  | .ifElse c yes [] =>
    rw [Stmt.lower_ifElse_nil]
    exact joined_ifThen c (fun _ => joined_lowerAll_append cs (n + 3) yes) h
  | .ifElse c yes (first :: more) =>
    rw [Stmt.lower_ifElse c yes (by simp)]
    simp only [List.cons_append, List.append_assoc, List.nil_append, joined_branchIf, joined_jump]
    refine joined_lowerAll_append cs _ yes (joined_jump.mpr ?_)
    exact joined_lowerAll_append cs _ (first :: more) (joined_label.mpr h)
  | .loop c body =>
    rw [Stmt.lower_loop]
    simp only [List.cons_append, List.append_assoc, List.nil_append, joined_label, joined_branchIf,
      joined_jump]
    exact joined_lowerAll_append cs _ body (joined_jump.mpr h)

theorem joined_lowerAll_append (cs : Constants) (n : Nat) (ss : List Stmt) (h : Joined rest) :
    Joined (Stmt.lowerAll cs n ss ++ rest) := by
  match ss with
  | [] =>
    rw [Stmt.lowerAll]
    exact h
  | s :: more =>
    rw [Stmt.lowerAll, List.append_assoc]
    exact joined_lower_append cs n s (joined_lowerAll_append cs _ more h)

end

theorem joined_lowerAll (cs : Constants) (n : Nat) (ss : List Stmt) :
    Joined (Stmt.lowerAll cs n ss) := by
  simpa using joined_lowerAll_append cs n ss List.isChain_nil

-- ---------------------------------------------------------------------------
-- The passes
-- ---------------------------------------------------------------------------

theorem Joined.map_foldInstr (h : Joined code) : Joined (code.map foldInstr) := by
  refine List.isChain_map_of_isChain foldInstr (fun i j hij => ?_) h
  cases i with
  | branch target cond => cases cond <;> cases j <;> exact hij
  | _ => rfl

theorem Pruned.prune (h : Pruned code) : prune true code = code := by
  induction code with
  | nil => rfl
  | cons i rest ih =>
    obtain ⟨hnext, hrest⟩ := List.isChain_cons.mp h
    have ihrest := ih hrest
    cases hjump : i.isJump with
    | false => simp [Flat.prune, hjump, ihrest]
    | true =>
      -- What is behind a jump is a label, which pruning keeps.
      cases rest with
      | nil => rfl
      | cons j more =>
        have hlabel : j.isLabel := hnext j rfl hjump
        simpa [Flat.prune, hjump, hlabel] using ihrest

theorem Joined.pruned (h : Joined code) : Pruned code := by
  refine h.imp fun i j hij hjump => ?_
  cases i with
  | branch target cond =>
    cases cond with
    | none => exact hij
    | some c => cases hjump
  | _ => cases hjump

theorem Joined.optimizeInstrs (h : Joined code) (hlevel : level ≠ .off) :
    optimizeInstrs level code = dropReassigned (code.map foldInstr) := by
  rw [Flat.optimizeInstrs, if_neg hlevel]
  simp only [pruneUnreachable, h.map_foldInstr.pruned.prune, ite_self]

/-- An instruction that an assignment may stand behind must not mind what is behind that. -/
theorem isChain_dropReassigned {R : Instr → Instr → Prop}
    (hany : ∀ i target source j, R i (.assign target source) → R i j) (h : code.IsChain R) :
    (dropReassigned code).IsChain R := by
  induction code with
  | nil => exact h
  | cons i rest ih =>
    obtain ⟨hnext, hrest⟩ := List.isChain_cons.mp h
    have hkeep : (i :: dropReassigned rest).IsChain R := by
      refine List.isChain_cons.mpr ⟨fun j hj => ?_, ih hrest⟩
      cases rest with
      | nil => cases hj
      | cons k more =>
        have hk := hnext k rfl
        cases k with
        | assign target source => exact hany i target source j hk
        | _ =>
          obtain rfl := Option.some.inj hj
          exact hk
    cases i with
    | assign target source =>
      rw [dropReassigned]
      split
      · exact ih hrest
      · exact hkeep
    | _ => exact hkeep

theorem Joined.dropReassigned (h : Joined code) : Joined (dropReassigned code) := by
  refine isChain_dropReassigned (fun i target source j hij => ?_) h
  cases i with
  | branch target' cond => cases cond <;> cases hij
  | _ => rfl

end Cartridge.Flat
