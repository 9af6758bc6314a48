import Cartridge.Proofs.Flat.Labels
import Cartridge.Proofs.Pascal.Names
import Cartridge.Proofs.Register.Labels

/-!
# The assignments of a program

Flattening keeps the assignments of a program, those in branches and loops
included, in the order of the text; only their values become operands. The
optimizer keeps some of them and invents none. What it keeps of a program that
is read from a source assigns words, and all labels of such a program are words.
-/

namespace Cartridge

namespace Pascal

mutual

/-- The assignments in a statement, in the order of the text. -/
def Stmt.assignments : Stmt → List (String × Expr)
  | .assign target value => [(target, value)]
  | .ifThen _ body => Stmt.allAssignments body
  | .ifElse _ yes no => Stmt.allAssignments yes ++ Stmt.allAssignments no
  | .loop _ body => Stmt.allAssignments body
  | .eval _ => []
  | .block body => Stmt.allAssignments body

def Stmt.allAssignments : List Stmt → List (String × Expr)
  | [] => []
  | s :: rest => s.assignments ++ Stmt.allAssignments rest

end

/-- The assignments of all routines, in declaration order. -/
def Program.assignments (p : Program) : List (String × Expr) :=
  p.routines.flatMap fun r => Stmt.allAssignments r.body

/-- The names that a program assigns, one for each assignment. -/
def Program.targets (p : Program) : List String :=
  p.assignments.map (·.1)

mutual

theorem all_of_mem_assignments (s : Stmt) (h : s.all lit name) :
    ∀ a ∈ s.assignments, name a.1 ∧ a.2.all lit name := by
  cases s with
  | assign target value =>
    simp only [Stmt.assignments, List.mem_singleton, forall_eq]
    exact Bool.and_eq_true_iff.mp h
  | ifThen c body => exact all_of_mem_allAssignments body (Bool.and_eq_true_iff.mp h).2
  | ifElse c yes no =>
    obtain ⟨hyes, hno⟩ := Bool.and_eq_true_iff.mp (Bool.and_eq_true_iff.mp h).2
    intro a ha
    obtain ha | ha := List.mem_append.mp ha
    · exact all_of_mem_allAssignments yes hyes a ha
    · exact all_of_mem_allAssignments no hno a ha
  | loop c body => exact all_of_mem_allAssignments body (Bool.and_eq_true_iff.mp h).2
  | eval e => nofun
  | block body => exact all_of_mem_allAssignments body h

theorem all_of_mem_allAssignments (ss : List Stmt) (h : Stmt.allOf lit name ss) :
    ∀ a ∈ Stmt.allAssignments ss, name a.1 ∧ a.2.all lit name := by
  cases ss with
  | nil => nofun
  | cons s rest =>
    obtain ⟨hs, hrest⟩ := Bool.and_eq_true_iff.mp h
    intro a ha
    obtain ha | ha := List.mem_append.mp ha
    · exact all_of_mem_assignments s hs a ha
    · exact all_of_mem_allAssignments rest hrest a ha

end

theorem all_of_mem_program {p : Program} (h : p.all lit name) (ha : a ∈ p.assignments) :
    name a.1 ∧ a.2.all lit name := by
  obtain ⟨-, hroutines⟩ := Bool.and_eq_true_iff.mp h
  obtain ⟨r, hr, ha⟩ := List.mem_flatMap.mp ha
  have hbody := (Bool.and_eq_true_iff.mp (List.all_eq_true.mp hroutines r hr)).2
  exact all_of_mem_allAssignments r.body hbody a ha

theorem isAddress_of_isWord (h : isWord x) : Register.isAddress x = false := by
  obtain ⟨c, cs, hx, hc, -⟩ := isWord_cons h
  simp only [Register.isAddress, hx, List.head?_cons, beq_eq_false_iff_ne, ne_eq,
    Option.some.injEq]
  rintro rfl
  exact absurd hc (by decide)

end Pascal

namespace Flat

open Pascal (Constants Stmt isWord)

-- ---------------------------------------------------------------------------
-- Flattening keeps the assignments
-- ---------------------------------------------------------------------------

/-- The assignments among instructions: targets and operands, in order. -/
def assigns (code : List Instr) : List (String × String) :=
  code.filterMap fun
    | .assign target source => some (target, source)
    | _ => none

@[simp] theorem assigns_nil : assigns [] = [] := rfl

@[simp] theorem assigns_label : assigns (.label name :: code) = assigns code := rfl

@[simp] theorem assigns_branch : assigns (.branch target c :: code) = assigns code := rfl

@[simp] theorem assigns_assign :
    assigns (.assign target source :: code) = (target, source) :: assigns code := rfl

@[simp] theorem assigns_call : assigns (.call callee args :: code) = assigns code := rfl

@[simp] theorem assigns_append (code code' : List Instr) :
    assigns (code ++ code') = assigns code ++ assigns code' :=
  List.filterMap_append

def operandOf (cs : Constants) (a : String × Pascal.Expr) : String × String :=
  (a.1, a.2.operand cs)

mutual

theorem assigns_lower (cs : Constants) (n : Nat) (s : Stmt) :
    assigns (s.lower cs n) = s.assignments.map (operandOf cs) := by
  match s with
  | .assign target value => rw [Stmt.lower]; rfl
  | .eval e => cases e <;> simp [Stmt.lower, Stmt.assignments]
  | .block body =>
    rw [Stmt.lower]
    exact assigns_lowerAll cs n body
  | .ifThen c body =>
    rw [Stmt.lower_ifThen]
    simp [Stmt.assignments, assigns_lowerAll cs _ body]
  | .ifElse c yes [] =>
    rw [Stmt.lower_ifElse_nil, Stmt.lower_ifThen]
    simp [Stmt.assignments, Stmt.allAssignments, assigns_lowerAll cs _ yes]
  | .ifElse c yes (first :: more) =>
    rw [Stmt.lower_ifElse c yes (by simp)]
    simp [Stmt.assignments, assigns_lowerAll cs _ yes, assigns_lowerAll cs _ (first :: more)]
  | .loop c body =>
    rw [Stmt.lower_loop]
    simp [Stmt.assignments, assigns_lowerAll cs _ body]

theorem assigns_lowerAll (cs : Constants) (n : Nat) (ss : List Stmt) :
    assigns (Stmt.lowerAll cs n ss) = (Stmt.allAssignments ss).map (operandOf cs) := by
  match ss with
  | [] =>
    rw [Stmt.lowerAll]
    rfl
  | s :: rest =>
    rw [Stmt.lowerAll, assigns_append, assigns_lower cs n s, assigns_lowerAll cs _ rest,
      Stmt.allAssignments, List.map_append]

end

def Program.assigns (p : Program) : List (String × String) :=
  p.routines.flatMap fun r => Flat.assigns r.instrs

theorem targets_eq_assigns (code : List Instr) : targets code = (assigns code).map (·.1) := by
  rw [targets, assigns, List.map_filterMap]
  congr 1
  funext i
  cases i <;> rfl

theorem program_targets_eq (p : Program) : p.targets = p.assigns.map (·.1) := by
  simp only [Program.targets, Program.assigns, targets_eq_assigns, List.map_flatMap]

theorem routines_lower (p : Pascal.Program) :
    p.lower.routines = p.routines.map (Pascal.Routine.lower p.constants) :=
  Module.allRoutines_map _ p.modules

theorem program_assigns_lower (p : Pascal.Program) :
    p.lower.assigns = p.assignments.map (operandOf p.constants) := by
  simp only [Program.assigns, routines_lower, List.flatMap_map, Pascal.Routine.lower,
    assigns_lowerAll, Pascal.Program.assignments, List.map_flatMap]

theorem targets_lower (p : Pascal.Program) : p.lower.targets = p.targets := by
  rw [program_targets_eq, program_assigns_lower, Pascal.Program.targets, List.map_map]
  rfl

-- ---------------------------------------------------------------------------
-- Optimizing keeps some of them
-- ---------------------------------------------------------------------------

theorem targets_optimizeInstrs (level : OptLevel) (code : List Instr) :
    targets (optimizeInstrs level code) ⊆ targets code :=
  (filterMap_optimizeInstrs _ (fun i => by cases i <;> rfl) level code).subset

theorem targets_optimize (level : OptLevel) (p : Program) :
    (p.optimize level).targets ⊆ p.targets := by
  intro target htarget
  simp only [Program.targets, routines_optimize, List.mem_flatMap, List.mem_map] at htarget ⊢
  obtain ⟨_, ⟨r, hr, rfl⟩, htarget⟩ := htarget
  exact ⟨r, hr, targets_optimizeInstrs level r.instrs htarget⟩

-- ---------------------------------------------------------------------------
-- Programs whose names are words
-- ---------------------------------------------------------------------------

theorem isWord_numbered (family : String) (h : isWord family) (n : Nat) :
    isWord (numbered family n) := by
  have hdigits : ∀ c ∈ Nat.toDigits 10 n, Pascal.isWordPart c := by
    intro c hc
    simp [Pascal.isWordPart, Char.isAlphanum, Text.isDigit_of_mem_decimal hc]
  unfold isWord at h ⊢
  split at h
  · cases h
  · next c cs hfamily =>
    obtain ⟨hc, hcs⟩ := Bool.and_eq_true_iff.mp h
    simpa [numbered, hfamily, hc] using ⟨List.all_eq_true.mp hcs, hdigits⟩

theorem isWord_labels_ifThen {body : List Stmt} (c : Pascal.Expr)
    (h : ∀ name ∈ labels (Stmt.lowerAll cs (n + 3) body), isWord name) :
    ∀ name ∈ labels ((Stmt.ifThen c body).lower cs n), isWord name := by
  rw [Stmt.lower_ifThen]
  simp only [labels_branch, labels_label, labels_append, labels_nil, List.forall_mem_cons,
    List.forall_mem_append]
  exact ⟨isWord_numbered "then_" rfl n, h, isWord_numbered "endif_" rfl n, nofun⟩

mutual

theorem isWord_labels_lower (cs : Constants) (n : Nat) (s : Stmt) :
    ∀ name ∈ labels (s.lower cs n), isWord name := by
  match s with
  | .assign target value => simp [Stmt.lower]
  | .eval e => cases e <;> simp [Stmt.lower]
  | .block body =>
    rw [Stmt.lower]
    exact isWord_labels_lowerAll cs n body
  | .ifThen c body => exact isWord_labels_ifThen c (isWord_labels_lowerAll cs (n + 3) body)
  | .ifElse c yes [] =>
    rw [Stmt.lower_ifElse_nil]
    exact isWord_labels_ifThen c (isWord_labels_lowerAll cs (n + 3) yes)
  | .ifElse c yes (first :: more) =>
    have hyes := isWord_labels_lowerAll cs (n + 3) yes
    have hno := isWord_labels_lowerAll cs (n + 3 + (Stmt.lowerAll cs (n + 3) yes).length + 2)
      (first :: more)
    rw [Stmt.lower_ifElse c yes (by simp)]
    simp only [labels_branch, labels_label, labels_append, labels_nil, List.forall_mem_cons,
      List.forall_mem_append]
    exact ⟨isWord_numbered "then_" rfl n, hyes, isWord_numbered "else_" rfl n, hno,
      isWord_numbered "endif_" rfl n, nofun⟩
  | .loop c body =>
    have hbody := isWord_labels_lowerAll cs (n + 4) body
    rw [Stmt.lower_loop]
    simp only [labels_branch, labels_label, labels_append, labels_nil, List.forall_mem_cons,
      List.forall_mem_append]
    exact ⟨isWord_numbered "while_start_" rfl n, isWord_numbered "while_body_" rfl n, hbody,
      isWord_numbered "while_end_" rfl n, nofun⟩

theorem isWord_labels_lowerAll (cs : Constants) (n : Nat) (ss : List Stmt) :
    ∀ name ∈ labels (Stmt.lowerAll cs n ss), isWord name := by
  match ss with
  | [] => simp [Stmt.lowerAll]
  | s :: rest =>
    have hs := isWord_labels_lower cs n s
    have hrest := isWord_labels_lowerAll cs (n + (s.lower cs n).length) rest
    rw [Stmt.lowerAll, labels_append]
    exact List.forall_mem_append.mpr ⟨hs, hrest⟩

end

/-- The optimizer assigns only words if the program does. -/
theorem isWord_of_mem_targets {p : Pascal.Program} (h : p.all (fun _ => true) isWord)
    (hmem : target ∈ (p.lower.optimize level).targets) : isWord target := by
  -- The optimizer keeps targets of the lowered program, which are those of the text.
  have hsource : target ∈ p.targets := targets_lower p ▸ targets_optimize level p.lower hmem
  obtain ⟨a, ha, rfl⟩ := List.mem_map.mp hsource
  exact (Pascal.all_of_mem_program h ha).1

/-- A routine of an optimized program comes from one of the program. -/
theorem mem_routines_optimize {p : Pascal.Program} (hr : r ∈ (p.lower.optimize level).routines) :
    ∃ source ∈ p.routines,
      r = ⟨source.name, optimizeInstrs level (Stmt.lowerAll p.constants 0 source.body)⟩ := by
  rw [routines_optimize, routines_lower, List.map_map] at hr
  obtain ⟨source, hsource, rfl⟩ := List.mem_map.mp hr
  exact ⟨source, hsource, rfl⟩

/-- The routines of an optimized program and all labels in them are called by words. -/
theorem isWord_of_mem_routines {p : Pascal.Program} (h : p.all (fun _ => true) isWord)
    (hr : r ∈ (p.lower.optimize level).routines) :
    isWord r.name ∧ ∀ name ∈ labels r.instrs, isWord name := by
  obtain ⟨source, hsource, rfl⟩ := mem_routines_optimize hr
  obtain ⟨-, hall⟩ := Bool.and_eq_true_iff.mp h
  have hname := (Bool.and_eq_true_iff.mp (List.all_eq_true.mp hall source hsource)).1
  refine ⟨hname, ?_⟩
  rw [labels_optimizeInstrs]
  exact isWord_labels_lowerAll p.constants 0 source.body

end Flat

end Cartridge
