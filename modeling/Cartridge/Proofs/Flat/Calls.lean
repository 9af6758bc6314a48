import Mathlib.Data.List.Destutter
import Mathlib.Data.List.ReduceOption
import Cartridge.Proofs.Flat.Assignments
import Cartridge.Proofs.Flat.Branches

/-!
# The calls of a program

Which routines instructions call, in order, and which of these calls are left if
calls of one routine side by side count once. All routines that a program read
from a source calls, it calls by words, and where it calls one twice in a row,
no branch stands between the calls.
-/

namespace Cartridge

-- ---------------------------------------------------------------------------
-- Repeats
-- ---------------------------------------------------------------------------

section

variable {α : Type} [DecidableEq α]

/-- The values at the places of a list; of equal places side by side only the first counts. -/
def unrepeated (l : List (Option α)) : List α :=
  (l.destutter (· ≠ ·)).reduceOption

theorem unrepeated_none_cons (l : List (Option α)) : unrepeated (none :: l) = unrepeated l := by
  cases l with
  | nil => rfl
  | cons a l =>
    by_cases ha : a = none
    · simp [unrepeated, List.destutter_cons', ha]
    · simp [unrepeated, List.destutter_cons', Ne.symm ha]

theorem reduceOption_destutter'_append_none (a : Option α) (l m : List (Option α)) :
    ((l ++ none :: m).destutter' (· ≠ ·) a).reduceOption =
      (l.destutter' (· ≠ ·) a).reduceOption ++ unrepeated m := by
  induction l generalizing a with
  | nil =>
    have hm := unrepeated_none_cons m
    rw [unrepeated, List.destutter_cons'] at hm
    cases a with
    | none => simp [hm]
    | some v => simp [hm]
  | cons b l ih =>
    by_cases hb : a ≠ b
    · rw [List.cons_append, List.destutter'_cons_pos (h := hb), List.destutter'_cons_pos (h := hb)]
      cases a <;> simp [ih]
    · rw [List.cons_append, List.destutter'_cons_neg (h := hb), List.destutter'_cons_neg (h := hb),
        ih]

/-- A place without a value keeps what is in front of it and what is behind it apart. -/
theorem unrepeated_append_none (l m : List (Option α)) :
    unrepeated (l ++ none :: m) = unrepeated l ++ unrepeated m := by
  cases l with
  | nil => exact unrepeated_none_cons m
  | cons a l => exact reduceOption_destutter'_append_none a l m

theorem unrepeated_flatMap (f : β → List (Option α)) (xs : List β) :
    unrepeated (xs.flatMap fun x => none :: f x) = xs.flatMap fun x => unrepeated (f x) := by
  have hbehind (l : List (Option α)) :
      unrepeated (l ++ xs.flatMap fun x => none :: f x) =
        unrepeated l ++ xs.flatMap fun x => unrepeated (f x) := by
    induction xs generalizing l with
    | nil => simp
    | cons x xs ih =>
      rw [List.flatMap_cons, List.flatMap_cons, List.cons_append, unrepeated_append_none, ih]
  exact hbehind []

end

namespace Flat

open Pascal (Constants Stmt isWord)

def Instr.callee? : Instr → Option String
  | .call callee _ => some callee
  | _ => none

def Instr.isBranch : Instr → Bool
  | .branch _ _ => true
  | _ => false

/-- The routines that instructions call, one for each call, in order. -/
def calls (code : List Instr) : List String :=
  code.filterMap Instr.callee?

/-- The routines that instructions call, where a call directly behind a call of the same routine
does not count. -/
def distinctCalls (code : List Instr) : List String :=
  unrepeated (code.map Instr.callee?)

-- ---------------------------------------------------------------------------
-- Calls by words
-- ---------------------------------------------------------------------------

@[simp] theorem calls_nil : calls [] = [] := rfl

@[simp] theorem calls_label : calls (.label name :: code) = calls code := rfl

@[simp] theorem calls_branch : calls (.branch target c :: code) = calls code := rfl

@[simp] theorem calls_assign : calls (.assign target source :: code) = calls code := rfl

@[simp] theorem calls_call : calls (.call callee args :: code) = callee :: calls code := rfl

@[simp] theorem calls_append (code code' : List Instr) :
    calls (code ++ code') = calls code ++ calls code' :=
  List.filterMap_append

mutual

theorem all_calls_lower (cs : Constants) (n : Nat) (s : Stmt) (h : s.all lit name) :
    ∀ f ∈ calls (s.lower cs n), name f := by
  match s with
  | .assign target value => simp [Stmt.lower]
  | .eval e =>
    cases e with
    | call callee args =>
      obtain ⟨hcallee, -⟩ := Bool.and_eq_true_iff.mp h
      simpa [Stmt.lower] using hcallee
    | lit v => simp [Stmt.lower]
    | ident x => simp [Stmt.lower]
    | binary op l r => simp [Stmt.lower]
  | .block body =>
    rw [Stmt.lower]
    exact all_calls_lowerAll cs n body h
  | .ifThen c body =>
    obtain ⟨-, hbody⟩ := Bool.and_eq_true_iff.mp h
    rw [Stmt.lower_ifThen]
    simpa using all_calls_lowerAll cs (n + 3) body hbody
  | .ifElse c yes [] =>
    obtain ⟨hyes, -⟩ := Bool.and_eq_true_iff.mp (Bool.and_eq_true_iff.mp h).2
    rw [Stmt.lower_ifElse_nil, Stmt.lower_ifThen]
    simpa using all_calls_lowerAll cs (n + 3) yes hyes
  | .ifElse c yes (first :: more) =>
    obtain ⟨hyes, hno⟩ := Bool.and_eq_true_iff.mp (Bool.and_eq_true_iff.mp h).2
    rw [Stmt.lower_ifElse c yes (by simp)]
    simp only [calls_branch, calls_label, calls_append, calls_nil, List.append_nil,
      List.forall_mem_append]
    exact ⟨all_calls_lowerAll cs _ yes hyes, all_calls_lowerAll cs _ (first :: more) hno⟩
  | .loop c body =>
    obtain ⟨-, hbody⟩ := Bool.and_eq_true_iff.mp h
    rw [Stmt.lower_loop]
    simpa using all_calls_lowerAll cs (n + 4) body hbody

theorem all_calls_lowerAll (cs : Constants) (n : Nat) (ss : List Stmt)
    (h : Stmt.allOf lit name ss) : ∀ f ∈ calls (Stmt.lowerAll cs n ss), name f := by
  match ss with
  | [] => simp [Stmt.lowerAll]
  | s :: rest =>
    obtain ⟨hs, hrest⟩ := Bool.and_eq_true_iff.mp h
    rw [Stmt.lowerAll, calls_append]
    exact List.forall_mem_append.mpr
      ⟨all_calls_lower cs n s hs, all_calls_lowerAll cs _ rest hrest⟩

end

theorem isWord_of_mem_calls {p : Pascal.Program} (h : p.all (fun _ => true) isWord)
    (hr : r ∈ (p.lower.optimize level).routines) : ∀ f ∈ calls r.instrs, isWord f := by
  obtain ⟨source, hsource, rfl⟩ := mem_routines_optimize hr
  obtain ⟨-, hall⟩ := Bool.and_eq_true_iff.mp h
  have hbody := (Bool.and_eq_true_iff.mp (List.all_eq_true.mp hall source hsource)).2
  intro f hf
  -- The optimizer keeps some of the calls and makes none.
  have hkept := (filterMap_optimizeInstrs _ (fun i => by cases i <;> rfl) level _).subset hf
  exact all_calls_lowerAll p.constants 0 source.body hbody f hkept

-- ---------------------------------------------------------------------------
-- Calls and branches
-- ---------------------------------------------------------------------------

/-- Taking the branches out brings no two calls together. -/
theorem unrepeated_filter_isBranch (h : Joined code) :
    unrepeated ((code.filter (!·.isBranch)).map Instr.callee?) = distinctCalls code := by
  have hbehind (l : List (Option String)) :
      unrepeated (l ++ (code.filter (!·.isBranch)).map Instr.callee?) =
        unrepeated (l ++ code.map Instr.callee?) := by
    induction code generalizing l with
    | nil => rfl
    | cons i rest ih =>
      obtain ⟨hnext, hrest⟩ := List.isChain_cons.mp h
      cases hbranch : i.isBranch with
      | false => simpa [hbranch] using ih hrest (l ++ [i.callee?])
      | true =>
        have hi : i.callee? = none := by cases i <;> first | rfl | cases hbranch
        rw [List.filter_cons_of_neg (by simp [hbranch]), ih hrest, List.map_cons, hi,
          unrepeated_append_none]
        cases rest with
        | nil => simp [unrepeated]
        | cons j more =>
          -- What is behind a branch is no call either, so it keeps the calls apart.
          have hj : j.callee? = none := by
            have hij := hnext j rfl
            cases j with
            | call callee args => cases i with
              | branch target c => cases c <;> cases hij
              | _ => cases hbranch
            | _ => rfl
          rw [List.map_cons, hj, unrepeated_append_none, unrepeated_none_cons]
  exact hbehind []

theorem joined_of_mem_routines {p : Pascal.Program} (hlevel : level ≠ .off)
    (hr : r ∈ (p.lower.optimize level).routines) : Joined r.instrs := by
  obtain ⟨source, -, rfl⟩ := mem_routines_optimize hr
  have hjoined := joined_lowerAll p.constants 0 source.body
  rw [hjoined.optimizeInstrs hlevel]
  exact hjoined.map_foldInstr.dropReassigned

end Flat

end Cartridge
