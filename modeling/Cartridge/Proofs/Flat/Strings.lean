import Mathlib.Data.List.TakeWhile
import Cartridge.Proofs.Flat.Assignments
import Cartridge.Proofs.Flat.Branches
import Cartridge.Proofs.Flat.Passes

/-!
# Assigned strings

A string is assigned as it stands, without quotes, and folding does not tell it
from the text of an expression. So the optimizer leaves it as it is exactly if
no group in it has the shape that folds.
-/

namespace Cartridge

/-- The string that an expression is or names. -/
def Pascal.Expr.string? (cs : Constants) : Expr → Option String
  | .lit (.str s) => some s
  | .ident x =>
    match cs.last? x with
    | some (.str s) => some s
    | _ => none
  | _ => none

theorem Pascal.operand_of_string? {e : Expr} (h : e.string? cs = some s) : e.operand cs = s := by
  unfold Expr.string? at h
  split at h
  · exact Option.some.inj h
  · next x =>
    split at h
    · next hx =>
      obtain rfl := Option.some.inj h
      simp [Expr.operand, Expr.write, Constants.operand, hx, Literal.operand]
    · cases h
  · cases h

namespace Flat

open Pascal (Stmt)

-- ---------------------------------------------------------------------------
-- Groups that fold
-- ---------------------------------------------------------------------------

/-- The text ends in a group that folds when it is closed. -/
def OpenGroup (cs : List Char) : Prop :=
  ∃ before inner, cs = before ++ '(' :: inner ∧ (∀ c ∈ inner, isParenthesis c = false) ∧
    (groupValue? inner).isSome ∧ opensArguments before.reverse = false

/-- Somewhere in the text a group closes that folds. -/
def HasGroup (cs : List Char) : Prop :=
  ∃ front, front ++ [')'] <+: cs ∧ OpenGroup front

theorem hasGroup_append_singleton :
    HasGroup (cs ++ [c]) ↔ HasGroup cs ∨ c = ')' ∧ OpenGroup cs := by
  constructor
  · rintro ⟨front, hfront, hopen⟩
    obtain hwhole | hfront := List.prefix_concat_iff.mp hfront
    · obtain ⟨rfl, hc⟩ := List.append_inj' hwhole rfl
      exact .inr ⟨(List.cons.inj hc).1.symm, hopen⟩
    · exact .inl ⟨front, hfront, hopen⟩
  · rintro (⟨front, hfront, hopen⟩ | ⟨rfl, hopen⟩)
    · exact ⟨front, hfront.trans (List.prefix_append _ _), hopen⟩
    · exact ⟨cs, List.prefix_rfl, hopen⟩

theorem closingValue?_eq_some (h : closingValue? text = some v) :
    ∃ inner before, text = inner ++ '(' :: before ∧ (∀ c ∈ inner, isParenthesis c = false) ∧
      groupValue? inner.reverse = some v := by
  unfold closingValue? at h
  split at h
  · next before hdrop =>
    refine ⟨_, before, ?_, fun c hc => ?_, h⟩
    · rw [← hdrop, List.takeWhile_append_dropWhile]
    · simpa using List.mem_takeWhile_imp hc
  · cases h

-- ---------------------------------------------------------------------------
-- Scanning
-- ---------------------------------------------------------------------------

/-- Reads one more character and keeps it. -/
def Scan.keep (st : Scan) (c : Char) : Scan where
  text := c :: st.text
  opened :=
    match c with
    | '(' => st.text :: st.opened
    | ')' => st.opened.tail
    | _ => st.opened

theorem Scan.text_keep (st : Scan) (c : Char) : (st.keep c).text = c :: st.text := rfl

theorem Scan.opened_keep (st : Scan) (c : Char) :
    (st.keep c).opened <:+ st.text :: st.opened := by
  unfold Scan.keep
  split
  · exact List.suffix_rfl
  · exact (List.tail_suffix _).trans (List.suffix_cons _ _)
  · exact List.suffix_cons _ _

/-- A character is kept, unless it closes a group that folds. -/
theorem Scan.step_cases (st : Scan) (c : Char) :
    st.step c = st.keep c ∨
    c = ')' ∧ ∃ before outer v, st.opened = before :: outer ∧ opensArguments before = false ∧
      closingValue? st.text = some v ∧
      st.step c = ⟨(toString v.toInt).toList.reverse ++ before, outer⟩ := by
  unfold Scan.step
  split
  · exact .inl rfl
  · cases hopened : st.opened with
    | nil => exact .inl (by simp [Scan.keep, hopened])
    | cons before outer =>
      cases hargs : opensArguments before with
      | true => exact .inl (by simp [Scan.keep, Scan.close, hopened, hargs])
      | false =>
        cases hvalue : closingValue? st.text with
        | none => exact .inl (by simp [Scan.keep, Scan.close, hopened, hargs, hvalue])
        | some v =>
          refine .inr ⟨rfl, before, outer, v, rfl, hargs, rfl, ?_⟩
          simp [Scan.close, hargs, hvalue]
  · exact .inl (by simp [Scan.keep])

/-- The parenthesis that stands open at the end of the text is the innermost one. -/
def Scan.Tracks (st : Scan) : Prop :=
  ∀ inner before, st.text = inner ++ '(' :: before → (∀ c ∈ inner, isParenthesis c = false) →
    st.opened.head? = some before

theorem Scan.Tracks.keep {st : Scan} (h : st.Tracks) (c : Char) : (st.keep c).Tracks := by
  intro inner before htext hinner
  cases inner with
  | nil =>
    obtain ⟨rfl, rfl⟩ := List.cons.inj htext
    rfl
  | cons d inner =>
    obtain ⟨rfl, hrest⟩ := List.cons.inj htext
    obtain ⟨hc, hinner⟩ := List.forall_mem_cons.mp hinner
    have hopened : (st.keep c).opened = st.opened := by
      unfold Scan.keep
      split
      · cases hc
      · cases hc
      · rfl
    rw [hopened]
    exact h inner before hrest hinner

/-- No text that was kept closes more than `n` parentheses. -/
def Scan.ClosesAtMost (st : Scan) (n : Nat) : Prop :=
  ∀ text ∈ st.text :: st.opened, text.count ')' ≤ n

theorem Scan.ClosesAtMost.keep {st : Scan} (h : st.ClosesAtMost n) (c : Char) :
    (st.keep c).ClosesAtMost (n + [c].count ')') := by
  intro text htext
  obtain rfl | htext := List.mem_cons.mp htext
  · have htext := h st.text List.mem_cons_self
    simp only [Scan.keep, List.count_cons, List.count_nil] at htext ⊢
    omega
  · have htext := h text ((st.opened_keep c).subset htext)
    omega

theorem Scan.ClosesAtMost.fold {st : Scan} (h : st.ClosesAtMost n)
    (hopened : st.opened = before :: outer) (v : Int64) :
    (⟨(toString v.toInt).toList.reverse ++ before, outer⟩ : Scan).ClosesAtMost n := by
  have hdigits : (toString v.toInt).toList.reverse.count ')' = 0 := by
    refine List.count_eq_zero.mpr fun hmem => ?_
    exact absurd (Pascal.isBreak_of_mem_toString (List.mem_reverse.mp hmem)) (by decide)
  rw [Scan.ClosesAtMost, hopened] at h
  obtain ⟨-, hbefore, houter⟩ := List.forall_mem_cons.mp h |>.imp_right List.forall_mem_cons.mp
  refine List.forall_mem_cons.mpr ⟨?_, houter⟩
  rw [List.count_append, hdigits, Nat.zero_add]
  exact hbefore

theorem Scan.ClosesAtMost.step {st : Scan} (h : st.ClosesAtMost n) (c : Char) :
    (st.step c).ClosesAtMost (n + [c].count ')') := by
  obtain hkeep | ⟨rfl, before, outer, v, hopened, -, -, hfold⟩ := st.step_cases c
  · rw [hkeep]
    exact h.keep c
  · rw [hfold]
    intro text htext
    exact Nat.le_succ_of_le (h.fold hopened v text htext)

theorem closesAtMost_scan (cs : List Char) :
    (cs.foldl Scan.step {}).ClosesAtMost (cs.count ')') := by
  induction cs using List.reverseRecOn with
  | nil => simp [Scan.ClosesAtMost]
  | append_singleton cs c ih =>
    rw [List.foldl_append, List.count_append]
    exact ih.step c

section

variable {cs : List Char} {st : Scan} (htracks : st.Tracks) (htext : st.text = cs.reverse)

include htracks htext

theorem step_of_openGroup (h : OpenGroup cs) :
    ∃ before outer, ∃ v : Int64, st.opened = before :: outer ∧
      st.step ')' = ⟨(toString v.toInt).toList.reverse ++ before, outer⟩ := by
  obtain ⟨before, inner, rfl, hinner, hvalue, hargs⟩ := h
  obtain ⟨v, hv⟩ := Option.isSome_iff_exists.mp hvalue
  have hreverse : ∀ c ∈ inner.reverse, isParenthesis c = false := by simpa using hinner
  have hsplit : st.text = inner.reverse ++ '(' :: before.reverse := by simp [htext]
  obtain ⟨outer, hopened⟩ := List.head?_eq_some_iff.mp (htracks _ _ hsplit hreverse)
  have hclosing : closingValue? st.text = some v := by
    rw [hsplit, closingValue?_open hreverse, List.reverse_reverse, hv]
  refine ⟨before.reverse, outer, v, hopened, ?_⟩
  simp [Scan.step, Scan.close, hopened, hargs, hclosing]

theorem openGroup_of_closingValue? (hopened : st.opened = before :: outer)
    (hargs : opensArguments before = false) (h : closingValue? st.text = some v) :
    OpenGroup cs := by
  obtain ⟨inner, before', hsplit, hinner, hvalue⟩ := closingValue?_eq_some h
  have hhead := htracks inner before' hsplit hinner
  obtain rfl : before = before' := by simpa [hopened] using hhead
  refine ⟨before.reverse, inner.reverse, ?_, by simpa using hinner, by simp [hvalue], by simpa⟩
  rw [← List.reverse_inj, ← htext, hsplit]
  simp

end

/-- Until a group folds the text is kept as it was read; from then on a parenthesis is missing. -/
theorem scan_cases (cs : List Char) :
    (¬ HasGroup cs ∧ (cs.foldl Scan.step {}).text = cs.reverse ∧ (cs.foldl Scan.step {}).Tracks) ∨
    (HasGroup cs ∧ ∃ n < cs.count ')', (cs.foldl Scan.step {}).ClosesAtMost n) := by
  induction cs using List.reverseRecOn with
  | nil =>
    refine .inl ⟨?_, rfl, ?_⟩
    · rintro ⟨front, hfront, -⟩
      simp at hfront
    · intro inner before htext
      simp at htext
  | append_singleton cs c ih =>
    rw [List.foldl_append, List.foldl_cons, List.foldl_nil, hasGroup_append_singleton,
      List.count_append]
    obtain ⟨hnone, htext, htracks⟩ | ⟨hgroup, n, hn, hcloses⟩ := ih
    · by_cases hopen : c = ')' ∧ OpenGroup cs
      · obtain ⟨rfl, hgroup⟩ := hopen
        obtain ⟨before, outer, v, hopened, hfold⟩ := step_of_openGroup htracks htext hgroup
        refine .inr ⟨.inr ⟨rfl, hgroup⟩, _, Nat.lt_succ_self _, ?_⟩
        rw [hfold]
        exact (closesAtMost_scan cs).fold hopened v
      · obtain hkeep | ⟨rfl, before, outer, v, hopened, hargs, hvalue, -⟩ :=
          (cs.foldl Scan.step {}).step_cases c
        · refine .inl ⟨not_or.mpr ⟨hnone, hopen⟩, ?_, ?_⟩
          · rw [hkeep, Scan.text_keep, htext, List.reverse_append]
            rfl
          · rw [hkeep]
            exact htracks.keep c
        · exact absurd ⟨rfl, openGroup_of_closingValue? htracks htext hopened hargs hvalue⟩ hopen
    · exact .inr ⟨.inl hgroup, _, Nat.add_lt_add_right hn _, hcloses.step c⟩

theorem foldConstants_eq_self_iff : foldConstants s = s ↔ ¬ HasGroup s.toList := by
  have hself : foldConstants s = s ↔
      (s.toList.foldl Scan.step {}).text = s.toList.reverse := by
    rw [foldConstants, ← String.toList_inj, String.toList_ofList, List.reverse_eq_iff]
  rw [hself]
  obtain ⟨hnone, htext, -⟩ | ⟨hgroup, n, hn, hcloses⟩ := scan_cases s.toList
  · simp [hnone, htext]
  · have hfewer := hcloses _ List.mem_cons_self
    refine iff_of_false (fun htext => ?_) (not_not.mpr hgroup)
    rw [htext, List.count_reverse] at hfewer
    omega

-- ---------------------------------------------------------------------------
-- Assignments that are kept
-- ---------------------------------------------------------------------------

theorem dropReassigned_assign (before : List Instr) (h : reassigned target after = false) :
    ∃ before', dropReassigned (before ++ .assign target source :: after) =
      before' ++ .assign target source :: dropReassigned after := by
  induction before with
  | nil => exact ⟨[], by simp [dropReassigned, h]⟩
  | cons i rest ih =>
    obtain ⟨before', ih⟩ := ih
    cases i with
    | assign target' source' =>
      rw [List.cons_append, dropReassigned]
      split
      · exact ⟨before', ih⟩
      · exact ⟨.assign target' source' :: before', by rw [ih, List.cons_append]⟩
    | label name => exact ⟨.label name :: before', by simp [dropReassigned, ih]⟩
    | branch dest c => exact ⟨.branch dest c :: before', by simp [dropReassigned, ih]⟩
    | call callee args => exact ⟨.call callee args :: before', by simp [dropReassigned, ih]⟩

/-- An assignment that its run of assignments does not overwrite stays, with its operand folded. -/
theorem optimizeInstrs_assign {before : List Instr}
    (hjoined : Joined (before ++ .assign target source :: after))
    (hkept : reassigned target after = false) :
    ∃ before', optimizeInstrs level (before ++ .assign target source :: after) =
      before' ++ .assign target (if level = .off then source else foldConstants source) ::
        optimizeInstrs level after := by
  by_cases hlevel : level = .off
  · exact ⟨before, by simp [optimizeInstrs, hlevel]⟩
  · have hafter : Joined after := (List.isChain_append.mp hjoined).2.1.tail
    have hfolded : reassigned target (after.map foldInstr) = false := by
      rw [reassigned_fold, hkept]
    obtain ⟨before', hdrop⟩ := dropReassigned_assign (before.map foldInstr) hfolded
    refine ⟨before', ?_⟩
    rw [hjoined.optimizeInstrs hlevel, hafter.optimizeInstrs hlevel, List.map_append,
      List.map_cons, foldInstr, hdrop, if_neg hlevel]

/-- A string that is assigned comes out of the optimizer folded like any operand, so it comes out
as it was exactly if the optimizer is off or no group in it folds. -/
theorem optimize_string (p : Pascal.Program) (level : OptLevel) (hr : r ∈ p.routines)
    (hassign : (target, value) ∈ Stmt.allAssignments r.body)
    (hvalue : value.string? p.constants = some s) :
    let flat := r.lower p.constants
    let source := if level = .off then s else foldConstants s
    flat.optimize level ∈ (p.lower.optimize level).routines ∧
    .assign target s ∈ flat.instrs ∧
    (∀ before after, flat.instrs = before ++ .assign target s :: after →
      reassigned target after = false →
      ∃ before', (flat.optimize level).instrs =
        before' ++ .assign target source :: optimizeInstrs level after) ∧
    (source = s ↔ level = .off ∨ ¬ HasGroup s.toList) := by
  intro flat source
  refine ⟨?_, ?_, ?_, ?_⟩
  · rw [routines_optimize, routines_lower, List.map_map]
    exact List.mem_map.mpr ⟨r, hr, rfl⟩
  · have hassigns : assigns flat.instrs =
        (Stmt.allAssignments r.body).map (operandOf p.constants) := assigns_lowerAll _ _ _
    have hmem : (target, s) ∈ assigns flat.instrs := by
      rw [hassigns]
      refine List.mem_map.mpr ⟨_, hassign, ?_⟩
      rw [operandOf, Pascal.operand_of_string? hvalue]
    obtain ⟨i, hi, his⟩ := List.mem_filterMap.mp hmem
    cases i with
    | assign target' source' =>
      cases his
      exact hi
    | _ => cases his
  · intro before after hsplit hkept
    have hjoined : Joined flat.instrs := joined_lowerAll p.constants 0 r.body
    rw [hsplit] at hjoined
    rw [Routine.optimize, hsplit]
    exact optimizeInstrs_assign hjoined hkept
  · by_cases hlevel : level = .off
    · simp [source, hlevel]
    · simp [source, hlevel, foldConstants_eq_self_iff]

/-- What looks like the arguments of a call in a string stays. -/
theorem optimize_string_call :
    let value : Pascal.Expr := .ident "greeting"
    let r : Pascal.Routine := { name := "main", body := [.assign "x" value] }
    let p : Pascal.Program :=
      { constants := [("greeting", .str "f(1 + 2)")], modules := [⟨"demo", [r]⟩] }
    r ∈ p.routines ∧ ("x", value) ∈ Stmt.allAssignments r.body ∧
      value.string? p.constants = some "f(1 + 2)" ∧
      ¬ HasGroup "f(1 + 2)".toList ∧
      ∃ before, ((r.lower p.constants).optimize .full).instrs =
        before ++ [.assign "x" "f(1 + 2)"] := by
  intro value r p
  have hr : r ∈ p.routines := List.mem_singleton.mpr rfl
  have hassign : ("x", value) ∈ Stmt.allAssignments r.body := List.mem_singleton.mpr rfl
  have hvalue : value.string? p.constants = some "f(1 + 2)" := rfl
  obtain ⟨-, -, hkept, hiff⟩ := optimize_string p .full hr hassign hvalue
  have hsame : (if OptLevel.full = .off then "f(1 + 2)" else foldConstants "f(1 + 2)") =
      "f(1 + 2)" := by with_unfolding_all rfl
  have hnone : ¬ HasGroup "f(1 + 2)".toList := (hiff.mp hsame).resolve_left (by decide)
  have hcode := hkept [] [] rfl rfl
  rw [hsame] at hcode
  exact ⟨hr, hassign, hvalue, hnone, hcode⟩

/-- A string is read from the source, and the optimizer computes it. -/
theorem optimize_computes_string :
    let p : Pascal.Program := { modules := [⟨"main", [{ name := "main", body :=
      [.assign "x" (.lit (.str "(1 + 2)"))] }]⟩] }
    Pascal.parse "begin x := '(1 + 2)' end." = .ok p ∧
      (p.lower.optimize .basic).routines = [⟨"main", [.assign "x" "3"]⟩] := by
  intro p
  let ks : List Pascal.Kind :=
    [.keyword .begin, .ident "x", .sign .assign, .str "(1 + 2)", .keyword .end_, .sign .dot]
  have hlex : (Pascal.lexFrom 0 "begin x := '(1 + 2)' end.".toList).map Pascal.kinds = .ok ks := by
    with_unfolding_all rfl
  have hfold : foldConstants "(1 + 2)" = "3" := by decide
  have hroutines : (p.lower.optimize .basic).routines =
      [⟨"main", [.assign "x" (foldConstants "(1 + 2)")]⟩] := by
    with_unfolding_all rfl
  exact ⟨Pascal.parse_of_kinds hlex (by with_unfolding_all rfl), hfold ▸ hroutines⟩

end Flat

end Cartridge
