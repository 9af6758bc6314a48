import Mathlib.Data.Nat.Basic
import Cartridge.Flat.Optimize

/-!
# The last assignment of a run

Dropping reassigned targets is told by positions: an instruction goes exactly if
it assigns a target that a later one assigns again, with only assignments in
between. The others stay in their order, among them all labels, branches and
calls.
-/

namespace Cartridge.Flat

namespace Instr

/-- The target of an assignment. -/
def target? : Instr → Option String
  | assign target _ => some target
  | label _ | branch _ _ | call _ _ => none

@[simp] theorem target?_assign : (assign target source).target? = some target := rfl
@[simp] theorem target?_label : (label name).target? = none := rfl
@[simp] theorem target?_branch : (branch target cond?).target? = none := rfl
@[simp] theorem target?_call : (call callee args).target? = none := rfl

end Instr

/-- The target that is assigned at position `i`. -/
def targetAt? (code : List Instr) (i : Nat) : Option String :=
  code[i]?.bind Instr.target?

@[simp] theorem targetAt?_cons_zero (i : Instr) (rest : List Instr) :
    targetAt? (i :: rest) 0 = i.target? := rfl

@[simp] theorem targetAt?_cons_succ (i : Instr) (rest : List Instr) (n : Nat) :
    targetAt? (i :: rest) (n + 1) = targetAt? rest n := rfl

/-- The assignment at position `i` has another one to its target behind it, and
nothing but assignments stand between the two. -/
def Overwritten (code : List Instr) (i : Nat) : Prop :=
  (targetAt? code i).isSome ∧ ∃ j < code.length, i < j ∧ targetAt? code j = targetAt? code i ∧
    ∀ k < j, i < k → (targetAt? code k).isSome

instance (code : List Instr) (i : Nat) : Decidable (Overwritten code i) :=
  inferInstanceAs (Decidable (_ ∧ _))

/-- Looking ahead for another assignment is looking for its position. -/
theorem reassigned_iff : reassigned target code ↔
    ∃ j < code.length, targetAt? code j = some target ∧ ∀ k < j, (targetAt? code k).isSome := by
  induction code with
  | nil => simp [reassigned]
  | cons i rest ih =>
    simp only [List.length_cons, Nat.exists_lt_succ_left, Nat.forall_lt_succ_left]
    cases i with
    | assign t source => simp [reassigned, ih]
    | _ => simp [reassigned]

theorem overwritten_assign : Overwritten (.assign target source :: rest) 0 ↔
    reassigned target rest := by
  rw [reassigned_iff]
  simp only [Overwritten, List.length_cons, Nat.exists_lt_succ_left, Nat.forall_lt_succ_left]
  simp

theorem overwritten_cons_succ (i : Instr) (rest : List Instr) (n : Nat) :
    Overwritten (i :: rest) (n + 1) ↔ Overwritten rest n := by
  simp only [Overwritten, List.length_cons, Nat.exists_lt_succ_left, Nat.forall_lt_succ_left]
  simp

/-- The positions that are not overwritten, in order. -/
def lasting (code : List Instr) : List Nat :=
  (List.range code.length).filter fun i => ¬ Overwritten code i

theorem lasting_cons (i : Instr) (rest : List Instr) : lasting (i :: rest) =
    if Overwritten (i :: rest) 0 then (lasting rest).map (· + 1)
    else 0 :: (lasting rest).map (· + 1) := by
  simp [lasting, List.range_succ_eq_map, List.filter_cons, List.filter_map, Function.comp_def,
    overwritten_cons_succ]

theorem dropReassigned_eq_lasting (code : List Instr) :
    dropReassigned code = (lasting code).filterMap (code[·]?) := by
  induction code with
  | nil => rfl
  | cons i rest ih =>
    have hrest : ((lasting rest).map (· + 1)).filterMap ((i :: rest)[·]?) =
        dropReassigned rest := by
      rw [ih, List.filterMap_map]
      rfl
    rw [lasting_cons]
    cases i with
    | assign target source =>
      simp only [overwritten_assign, dropReassigned]
      split <;> simp [hrest]
    | _ => simp [Overwritten, dropReassigned, hrest]

theorem filter_dropReassigned (code : List Instr) :
    (dropReassigned code).filter (·.target?.isNone) = code.filter (·.target?.isNone) := by
  induction code with
  | nil => rfl
  | cons i rest ih =>
    cases i with
    | assign target source =>
      rw [dropReassigned]
      split <;> simp [ih]
    | _ => simp [dropReassigned, List.filter_cons, ih]

end Cartridge.Flat
