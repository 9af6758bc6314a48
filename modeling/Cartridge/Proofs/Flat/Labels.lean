import Cartridge.Flat.Lowering
import Cartridge.Proofs.Flat.Machine
import Cartridge.Proofs.Text.Decimal

/-!
# Labels of lowered routines

A label is the name of its family followed by the number of instructions in
front of the statement that it belongs to. `labelNumber` reads the number back.
The labels of a statement carry numbers between the position of its first
instruction and the position after its last one, so statements that follow one
another share none, and neither do a statement and its parts. All labels of a
routine are distinct, and every label is found where it stands.
-/

namespace Cartridge

open Pascal (Constants Stmt Expr)

namespace Flat

-- ---------------------------------------------------------------------------
-- Names of labels
-- ---------------------------------------------------------------------------

/-- The label of a family with a number. -/
def numbered (family : String) (n : Nat) : String :=
  family ++ toString n

/-- The number that a label ends with. -/
def labelNumber (name : String) : Nat :=
  Text.digitsValue 10 (name.toList.reverse.takeWhile Char.isDigit).reverse

theorem labelNumber_numbered {family : String} (h : family.toList.getLast? = some '_') (n : Nat) :
    labelNumber (numbered family n) = n := by
  have hdigits : ∀ c ∈ (Nat.toDigits 10 n).reverse, c.isDigit = true := by
    intro c hc
    exact Text.isDigit_of_mem_decimal (List.mem_reverse.mp hc)
  have hlast : family.toList.reverse.takeWhile Char.isDigit = [] := by
    rw [← List.head?_reverse] at h
    cases hr : family.toList.reverse with
    | nil => simp [hr] at h
    | cons c cs =>
      simp only [hr, List.head?_cons, Option.some.injEq] at h
      subst h
      rfl
  have htext : (numbered family n).toList.reverse =
      (Nat.toDigits 10 n).reverse ++ family.toList.reverse := by
    simp [numbered]
  rw [labelNumber, htext, List.takeWhile_append_of_pos hdigits, hlast, List.append_nil,
    List.reverse_reverse, Text.digitsValue_toDigits]

@[simp] theorem labelNumber_then (n : Nat) : labelNumber (numbered "then_" n) = n :=
  labelNumber_numbered rfl n

@[simp] theorem labelNumber_else (n : Nat) : labelNumber (numbered "else_" n) = n :=
  labelNumber_numbered rfl n

@[simp] theorem labelNumber_endif (n : Nat) : labelNumber (numbered "endif_" n) = n :=
  labelNumber_numbered rfl n

@[simp] theorem labelNumber_while_start (n : Nat) :
    labelNumber (numbered "while_start_" n) = n :=
  labelNumber_numbered rfl n

@[simp] theorem labelNumber_while_body (n : Nat) : labelNumber (numbered "while_body_" n) = n :=
  labelNumber_numbered rfl n

@[simp] theorem labelNumber_while_end (n : Nat) : labelNumber (numbered "while_end_" n) = n :=
  labelNumber_numbered rfl n

/-- Families with the same number have different labels. -/
@[simp] theorem numbered_inj_family : numbered f n = numbered g n ↔ f = g := by
  simp [numbered, String.append_left_inj]

end Flat

-- ---------------------------------------------------------------------------
-- Lowered statements, with their labels by family and number
-- ---------------------------------------------------------------------------

namespace Pascal

open Flat (Instr numbered)

variable {cs : Constants} {n : Nat}

theorem Stmt.lower_ifThen (c : Expr) (body : List Stmt) :
    (Stmt.ifThen c body).lower cs n =
      .branchIf (numbered "then_" n) (c.operand cs) :: .jump (numbered "endif_" n) ::
        .label (numbered "then_" n) ::
        (Stmt.lowerAll cs (n + 3) body ++ [.label (numbered "endif_" n)]) := by
  rw [Stmt.lower]
  rfl

theorem Stmt.lower_ifElse_nil (c : Expr) (yes : List Stmt) :
    (Stmt.ifElse c yes []).lower cs n = (Stmt.ifThen c yes).lower cs n := by
  rw [Stmt.lower, Stmt.lower]

theorem Stmt.lower_ifElse (c : Expr) (yes : List Stmt) (h : no ≠ []) :
    (Stmt.ifElse c yes no).lower cs n =
      .branchIf (numbered "then_" n) (c.operand cs) :: .jump (numbered "else_" n) ::
        .label (numbered "then_" n) ::
        (Stmt.lowerAll cs (n + 3) yes ++
        .jump (numbered "endif_" n) :: .label (numbered "else_" n) ::
        (Stmt.lowerAll cs (n + 3 + (Stmt.lowerAll cs (n + 3) yes).length + 2) no ++
        [.label (numbered "endif_" n)])) := by
  cases no with
  | nil => exact absurd rfl h
  | cons first more =>
    rw [Stmt.lower]
    simp only [List.append_assoc, List.cons_append]
    rfl

theorem Stmt.lower_loop (c : Expr) (body : List Stmt) :
    (Stmt.loop c body).lower cs n =
      .label (numbered "while_start_" n) ::
        .branchIf (numbered "while_body_" n) (c.operand cs) ::
        .jump (numbered "while_end_" n) :: .label (numbered "while_body_" n) ::
        (Stmt.lowerAll cs (n + 4) body ++
        [.jump (numbered "while_start_" n), .label (numbered "while_end_" n)]) := by
  rw [Stmt.lower]
  rfl

end Pascal

-- ---------------------------------------------------------------------------
-- Distinct labels
-- ---------------------------------------------------------------------------

namespace Flat

/-- The names of all labels, in order. -/
def labels (code : List Instr) : List String :=
  code.filterMap fun
    | .label name => some name
    | _ => none

@[simp] theorem labels_nil : labels [] = [] := rfl

@[simp] theorem labels_label : labels (.label name :: code) = name :: labels code := rfl

@[simp] theorem labels_branch : labels (.branch target c :: code) = labels code := rfl

@[simp] theorem labels_assign : labels (.assign target source :: code) = labels code := rfl

@[simp] theorem labels_call : labels (.call callee args :: code) = labels code := rfl

@[simp] theorem labels_append (code code' : List Instr) :
    labels (code ++ code') = labels code ++ labels code' :=
  List.filterMap_append

/-- Distinct names whose numbers are at least `lo` and less than `hi`. -/
structure NumberedFrom (lo hi : Nat) (names : List String) : Prop where
  nodup : names.Nodup
  lower : ∀ name ∈ names, lo ≤ labelNumber name
  upper : ∀ name ∈ names, labelNumber name < hi

theorem NumberedFrom.widen (h : NumberedFrom lo hi names) (hlo : lo' ≤ lo) (hhi : hi ≤ hi') :
    NumberedFrom lo' hi' names where
  nodup := h.nodup
  lower name hname := Nat.le_trans hlo (h.lower name hname)
  upper name hname := Nat.lt_of_lt_of_le (h.upper name hname) hhi

theorem NumberedFrom.append (h : NumberedFrom lo mid names) (h' : NumberedFrom mid hi names')
    (hlo : lo ≤ mid) (hhi : mid ≤ hi) : NumberedFrom lo hi (names ++ names') := by
  refine ⟨List.nodup_append.mpr ⟨h.nodup, h'.nodup, ?_⟩, ?_, ?_⟩
  · rintro name hname _ hname' rfl
    have := h.upper name hname
    have := h'.lower name hname'
    omega
  · intro name hname
    rcases List.mem_append.mp hname with hname | hname
    · exact h.lower name hname
    · exact Nat.le_trans hlo (h'.lower name hname)
  · intro name hname
    rcases List.mem_append.mp hname with hname | hname
    · exact Nat.lt_of_lt_of_le (h.upper name hname) hhi
    · exact h'.upper name hname

/-- A statement's own labels bear its own number, and those of its parts larger ones. -/
theorem NumberedFrom.own (h : NumberedFrom lo hi names) (own : List String)
    (hlo : n < lo) (hhi : n < hi)
    (hown : own.Nodup) (hnumber : ∀ name ∈ own, labelNumber name = n)
    (hperm : all.Perm (own ++ names)) : NumberedFrom n hi all := by
  have hmem : ∀ name, name ∈ all ↔ name ∈ own ∨ name ∈ names := by
    intro name
    rw [hperm.mem_iff, List.mem_append]
  refine ⟨hperm.nodup_iff.mpr (List.nodup_append.mpr ⟨hown, h.nodup, ?_⟩), ?_, ?_⟩
  · rintro name hname _ hname' rfl
    have := hnumber name hname
    have := h.lower name hname'
    omega
  · intro name hname
    rcases (hmem name).mp hname with hname | hname
    · exact Nat.le_of_eq (hnumber name hname).symm
    · exact Nat.le_of_lt (Nat.lt_of_lt_of_le hlo (h.lower name hname))
  · intro name hname
    rcases (hmem name).mp hname with hname | hname
    · rw [hnumber name hname]
      exact hhi
    · exact h.upper name hname

theorem numberedFrom_ifThen {body : List Stmt} (c : Expr)
    (h : NumberedFrom (n + 3) (n + 3 + (Stmt.lowerAll cs (n + 3) body).length)
      (labels (Stmt.lowerAll cs (n + 3) body))) :
    NumberedFrom n (n + ((Stmt.ifThen c body).lower cs n).length)
      (labels ((Stmt.ifThen c body).lower cs n)) := by
  rw [Stmt.lower_ifThen]
  simp only [labels_branch, labels_label, labels_append, labels_nil]
  refine (h.widen Nat.le.refl ?_).own [numbered "then_" n, numbered "endif_" n]
    (by omega) (by simp) (by simp) (by simp) ?_
  · simp only [List.length_cons, List.length_append]
    omega
  · exact .cons _ List.perm_append_comm

mutual

theorem numberedFrom_lower (cs : Constants) (n : Nat) : (s : Stmt) →
    NumberedFrom n (n + (s.lower cs n).length) (labels (s.lower cs n))
  | .assign target value => by
    rw [Stmt.lower]
    exact ⟨List.nodup_nil, by simp, by simp⟩
  | .eval e => by
    cases e with
    | call callee args =>
      rw [Stmt.lower]
      exact ⟨List.nodup_nil, by simp, by simp⟩
    | _ =>
      simp only [Stmt.lower]
      exact ⟨List.nodup_nil, by simp, by simp⟩
  | .block body => by
    rw [Stmt.lower]
    exact numberedFrom_lowerAll cs n body
  | .ifThen c body => numberedFrom_ifThen c (numberedFrom_lowerAll cs (n + 3) body)
  | .ifElse c yes [] => by
    rw [Stmt.lower_ifElse_nil]
    exact numberedFrom_ifThen c (numberedFrom_lowerAll cs (n + 3) yes)
  | .ifElse c yes (first :: more) => by
    have hyes := numberedFrom_lowerAll cs (n + 3) yes
    have hno := numberedFrom_lowerAll cs (n + 3 + (Stmt.lowerAll cs (n + 3) yes).length + 2)
      (first :: more)
    rw [Stmt.lower_ifElse c yes (by simp)]
    simp only [labels_branch, labels_label, labels_append, labels_nil]
    refine ((hyes.append (hno.widen (Nat.le_add_right _ 2) Nat.le.refl) (by omega)
      (by omega)).widen Nat.le.refl ?_).own
      [numbered "then_" n, numbered "else_" n, numbered "endif_" n]
      (by omega) (by simp) (by simp) (by simp) ?_
    · simp only [List.length_cons, List.length_append]
      omega
    · refine .cons _ (List.perm_middle.trans (.cons _ ?_))
      rw [← List.append_assoc]
      exact List.perm_append_comm
  | .loop c body => by
    have hbody := numberedFrom_lowerAll cs (n + 4) body
    rw [Stmt.lower_loop]
    simp only [labels_branch, labels_label, labels_append, labels_nil]
    refine (hbody.widen Nat.le.refl ?_).own
      [numbered "while_start_" n, numbered "while_body_" n, numbered "while_end_" n]
      (by omega) (by simp) (by simp) (by simp) ?_
    · simp only [List.length_cons, List.length_append]
      omega
    · exact .cons _ (.cons _ List.perm_append_comm)

theorem numberedFrom_lowerAll (cs : Constants) (n : Nat) : (ss : List Stmt) →
    NumberedFrom n (n + (Stmt.lowerAll cs n ss).length) (labels (Stmt.lowerAll cs n ss))
  | [] => by
    rw [Stmt.lowerAll]
    exact ⟨List.nodup_nil, by simp, by simp⟩
  | s :: rest => by
    have hs := numberedFrom_lower cs n s
    have hrest := numberedFrom_lowerAll cs (n + (s.lower cs n).length) rest
    rw [Stmt.lowerAll]
    simp only [labels_append, List.length_append, ← Nat.add_assoc]
    exact hs.append hrest (by omega) (by omega)

end

/-- A label that is not repeated is found where it stands. -/
theorem labelPos?_of_nodup {code : List Instr} (hnodup : (labels code).Nodup)
    (h : code[i]? = some (.label name)) : labelPos? code name = some i := by
  induction code generalizing i with
  | nil => simp at h
  | cons instr code ih =>
    cases i with
    | zero =>
      obtain rfl : instr = .label name := by simpa using h
      simp [labelPos?, List.idxOf?_cons]
    | succ i =>
      rw [List.getElem?_cons_succ] at h
      have hmem : name ∈ labels code :=
        List.mem_filterMap.mpr ⟨_, List.mem_of_getElem? h, rfl⟩
      have hne : instr ≠ .label name := by
        rintro rfl
        exact (List.nodup_cons.mp hnodup).1 hmem
      have hcode : (labels code).Nodup :=
        hnodup.sublist (List.Sublist.filterMap _ (List.sublist_cons_self instr code))
      have hpos := ih hcode h
      simp only [labelPos?] at hpos ⊢
      simp [List.idxOf?_cons, hne, hpos]

/-- The labels of a lowered routine are distinct. -/
theorem nodup_labels_lowerAll (cs : Constants) (n : Nat) (body : List Stmt) :
    (labels (Stmt.lowerAll cs n body)).Nodup :=
  (numberedFrom_lowerAll cs n body).nodup

end Flat

end Cartridge
