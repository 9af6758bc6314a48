import Cartridge.Proofs.Flat.Labels

/-!
# Lowering keeps every run

Statements run by their structure, routines by a position in their
instructions; both use the same machine and see the same operand text. A list
of statements runs from one state to another with a trace exactly if its
instructions, from the first to the end, do.

The way there is a simulation for code that stands anywhere in a routine whose
labels are distinct. What the instructions of a branch or loop do around their
bodies is said once, as silent steps. A run of the statements follows them
forwards. A run of the instructions must take them too, because the machine is
deterministic, and every round of a loop uses up some of its steps.
-/

namespace Cartridge

open Flat (Instr Machine Effect Trace Config numbered labels labelPos?_of_nodup)

namespace Pascal

/-- Runs of statements that follow one another, with their effects. -/
inductive Runs (m : Machine σ) (cs : Constants) : List Stmt → σ → Trace σ → σ → Prop
  | done : Runs m cs [] s [] s
  | assign : Runs m cs rest (m.apply (.assign target (e.operand cs)) s) t s' →
      Runs m cs (.assign target e :: rest) s ((.assign target (e.operand cs), s) :: t) s'
  | call : Runs m cs rest (m.apply (.call callee (args.map (·.operand cs))) s) t s' →
      Runs m cs (.eval (.call callee args) :: rest) s
        ((.call callee (args.map (·.operand cs)), s) :: t) s'
  /-- Only calls have an effect. -/
  | skip : (∀ callee args, e ≠ .call callee args) → Runs m cs rest s t s' →
      Runs m cs (.eval e :: rest) s t s'
  | block : Runs m cs body s t s₁ → Runs m cs rest s₁ u s' →
      Runs m cs (.block body :: rest) s (t ++ u) s'
  | ifThenTrue : m.holds (c.operand cs) s = true → Runs m cs body s t s₁ →
      Runs m cs rest s₁ u s' → Runs m cs (.ifThen c body :: rest) s (t ++ u) s'
  | ifThenFalse : m.holds (c.operand cs) s = false → Runs m cs rest s t s' →
      Runs m cs (.ifThen c body :: rest) s t s'
  | ifElseTrue : m.holds (c.operand cs) s = true → Runs m cs yes s t s₁ →
      Runs m cs rest s₁ u s' → Runs m cs (.ifElse c yes no :: rest) s (t ++ u) s'
  | ifElseFalse : m.holds (c.operand cs) s = false → Runs m cs no s t s₁ →
      Runs m cs rest s₁ u s' → Runs m cs (.ifElse c yes no :: rest) s (t ++ u) s'
  | loopMore : m.holds (c.operand cs) s = true → Runs m cs body s t s₁ →
      Runs m cs (.loop c body :: rest) s₁ u s' →
      Runs m cs (.loop c body :: rest) s (t ++ u) s'
  | loopDone : m.holds (c.operand cs) s = false → Runs m cs rest s t s' →
      Runs m cs (.loop c body :: rest) s t s'

end Pascal

-- ---------------------------------------------------------------------------
-- Code inside a routine
-- ---------------------------------------------------------------------------

namespace Flat

/-- The instructions `part` stand in `code` from position `n` on. -/
def Placed (code : List Instr) (n : Nat) (part : List Instr) : Prop :=
  ∀ k instr, part[k]? = some instr → code[n + k]? = some instr

theorem Placed.head (h : Placed code n (instr :: part)) : code[n]? = some instr :=
  h 0 instr rfl

theorem Placed.left (h : Placed code n (part ++ part')) : Placed code n part := by
  intro k instr hk
  have hlt : k < part.length := (List.getElem?_eq_some_iff.mp hk).1
  exact h k instr (by rw [List.getElem?_append_left hlt, hk])

theorem Placed.right (h : Placed code n (part ++ part')) :
    Placed code (n + part.length) part' := by
  intro k instr hk
  rw [Nat.add_assoc]
  exact h (part.length + k) instr (by simp [List.getElem?_append_right, hk])

theorem Placed.tail (h : Placed code n (instr :: part)) : Placed code (n + 1) part := by
  rw [← List.singleton_append] at h
  exact h.right

theorem placed_self (code : List Instr) : Placed code 0 code := by
  intro k instr hk
  rwa [Nat.zero_add]

end Flat

-- ---------------------------------------------------------------------------
-- The instructions around the parts of a statement
-- ---------------------------------------------------------------------------

namespace Pascal

open Flat (Placed placed_self nodup_labels_lowerAll)

section

variable {m : Machine σ} {code : List Instr} {cs : Constants} {n : Nat} {s : σ} {c : Expr}
variable {body yes no : List Stmt}

/-- In state `s`, `j` silent steps lead from position `a` to the instructions
of `part`, and from behind them silent steps lead to position `b`. -/
def Around (m : Machine σ) (code : List Instr) (cs : Constants) (j : Nat) (s : σ) (a : Nat)
    (part : List Stmt) (b : Nat) : Prop :=
  ∃ p k, Placed code p (Stmt.lowerAll cs p part) ∧ m.Steps code j ⟨a, s⟩ [] ⟨p, s⟩ ∧
    ∀ s', m.Steps code k ⟨p + (Stmt.lowerAll cs p part).length, s'⟩ [] ⟨b, s'⟩

/-- Silent steps past a statement of which no part runs. -/
theorem Around.past (h : m.Steps code j ⟨a, s⟩ [] ⟨b, s⟩) : Around m code cs j s a [] b := by
  refine ⟨b, 0, ?_, h, fun s' => ?_⟩
  · intro k instr hk
    simp [Stmt.lowerAll] at hk
  · simpa [Stmt.lowerAll] using Machine.Steps.refl

theorem around_ifThen_true (hl : (labels code).Nodup)
    (h : Placed code n ((Stmt.ifThen c body).lower cs n)) (hc : m.holds (c.operand cs) s = true) :
    Around m code cs 2 s n body (n + ((Stmt.ifThen c body).lower cs n).length) := by
  rw [Stmt.lower_ifThen] at h ⊢
  have hthen := h.tail.tail.head
  have hbody := h.tail.tail.tail
  refine ⟨n + 3, 1, hbody.left, ?_, fun s' => ?_⟩
  · exact .next (Machine.step_taken h.head hc (labelPos?_of_nodup hl hthen))
      (.single (Machine.step_label hthen))
  · exact (Machine.Steps.single (Machine.step_label hbody.right.head)).to (by simp; omega)

theorem around_ifThen_false (hl : (labels code).Nodup)
    (h : Placed code n ((Stmt.ifThen c body).lower cs n)) (hc : m.holds (c.operand cs) s = false) :
    Around m code cs 3 s n [] (n + ((Stmt.ifThen c body).lower cs n).length) := by
  rw [Stmt.lower_ifThen] at h ⊢
  have hend := h.tail.tail.tail.right.head
  refine .past (.next (Machine.step_untaken h.head hc)
    (.next (Machine.step_jump h.tail.head (labelPos?_of_nodup hl hend))
      ((Machine.Steps.single (Machine.step_label hend)).to ?_)))
  simp
  omega

theorem around_ifElse_true (hl : (labels code).Nodup)
    (h : Placed code n ((Stmt.ifElse c yes no).lower cs n))
    (hc : m.holds (c.operand cs) s = true) :
    Around m code cs 2 s n yes (n + ((Stmt.ifElse c yes no).lower cs n).length) := by
  by_cases hno : no = []
  · subst hno
    rw [Stmt.lower_ifElse_nil] at h ⊢
    exact around_ifThen_true hl h hc
  · rw [Stmt.lower_ifElse c yes hno] at h ⊢
    have hthen := h.tail.tail.head
    have hyes := h.tail.tail.tail
    have hend := hyes.right.tail.tail.right.head
    refine ⟨n + 3, 2, hyes.left, ?_, fun s' => ?_⟩
    · exact .next (Machine.step_taken h.head hc (labelPos?_of_nodup hl hthen))
        (.single (Machine.step_label hthen))
    · refine .next (Machine.step_jump hyes.right.head (labelPos?_of_nodup hl hend))
        ((Machine.Steps.single (Machine.step_label hend)).to ?_)
      simp
      omega

theorem around_ifElse_false (hl : (labels code).Nodup)
    (h : Placed code n ((Stmt.ifElse c yes no).lower cs n))
    (hc : m.holds (c.operand cs) s = false) :
    Around m code cs 3 s n no (n + ((Stmt.ifElse c yes no).lower cs n).length) := by
  by_cases hno : no = []
  · subst hno
    rw [Stmt.lower_ifElse_nil] at h ⊢
    exact around_ifThen_false hl h hc
  · rw [Stmt.lower_ifElse c yes hno] at h ⊢
    have hyes := h.tail.tail.tail
    have helse := hyes.right.tail.head
    have hpart := hyes.right.tail.tail
    refine ⟨n + 3 + (Stmt.lowerAll cs (n + 3) yes).length + 2, 1, hpart.left, ?_, fun s' => ?_⟩
    · exact .next (Machine.step_untaken h.head hc)
        (.next (Machine.step_jump h.tail.head (labelPos?_of_nodup hl helse))
          (.single (Machine.step_label helse)))
    · exact (Machine.Steps.single (Machine.step_label hpart.right.head)).to (by simp; omega)

theorem around_loop_true (hl : (labels code).Nodup)
    (h : Placed code n ((Stmt.loop c body).lower cs n)) (hc : m.holds (c.operand cs) s = true) :
    Around m code cs 3 s n body n := by
  rw [Stmt.lower_loop] at h
  have hbody := h.tail.tail.tail.head
  have hpart := h.tail.tail.tail.tail
  refine ⟨n + 4, 1, hpart.left, ?_, fun s' => ?_⟩
  · exact .next (Machine.step_label h.head)
      (.next (Machine.step_taken h.tail.head hc (labelPos?_of_nodup hl hbody))
        (.single (Machine.step_label hbody)))
  · exact .single (Machine.step_jump hpart.right.head (labelPos?_of_nodup hl h.head))

theorem around_loop_false (hl : (labels code).Nodup)
    (h : Placed code n ((Stmt.loop c body).lower cs n)) (hc : m.holds (c.operand cs) s = false) :
    Around m code cs 4 s n [] (n + ((Stmt.loop c body).lower cs n).length) := by
  rw [Stmt.lower_loop] at h ⊢
  have hend := h.tail.tail.tail.tail.right.tail.head
  refine .past (.next (Machine.step_label h.head) (.next (Machine.step_untaken h.tail.head hc)
    (.next (Machine.step_jump h.tail.tail.head (labelPos?_of_nodup hl hend))
      ((Machine.Steps.single (Machine.step_label hend)).to ?_))))
  simp
  omega

theorem around_block (h : Placed code n ((Stmt.block body).lower cs n)) :
    Around m code cs 0 s n body (n + ((Stmt.block body).lower cs n).length) := by
  rw [Stmt.lower] at h ⊢
  exact ⟨n, 0, h, .refl, fun s' => .refl⟩

theorem lower_eval {e : Expr} (h : ∀ callee args, e ≠ .call callee args) :
    (Stmt.eval e).lower cs n = [] := by
  cases e with
  | call callee args => exact absurd rfl (h callee args)
  | _ => simp [Stmt.lower]

theorem placed_cons (h : Placed code n (Stmt.lowerAll cs n (st :: rest))) :
    Placed code n (st.lower cs n) ∧
      Placed code (n + (st.lower cs n).length)
        (Stmt.lowerAll cs (n + (st.lower cs n).length) rest) := by
  rw [Stmt.lowerAll] at h
  exact ⟨h.left, h.right⟩

-- ---------------------------------------------------------------------------
-- From statements to instructions
-- ---------------------------------------------------------------------------

/-- A part that runs takes the machine through the statement it belongs to. -/
theorem Around.through (h : Around m code cs j s a part b)
    (hpart : ∀ p, Placed code p (Stmt.lowerAll cs p part) →
      ∃ k, m.Steps code k ⟨p, s⟩ t ⟨p + (Stmt.lowerAll cs p part).length, s₁⟩) :
    ∃ k, m.Steps code k ⟨a, s⟩ t ⟨b, s₁⟩ := by
  obtain ⟨p, k, hp, henter, hleave⟩ := h
  obtain ⟨i, hrun⟩ := hpart p hp
  exact ⟨_, by simpa using (henter.trans hrun).trans (hleave s₁)⟩

theorem steps_nil : ∃ k, m.Steps code k ⟨n, s⟩ [] ⟨n + (Stmt.lowerAll cs n []).length, s⟩ :=
  ⟨0, by simpa [Stmt.lowerAll] using Machine.Steps.refl⟩

theorem steps_cons (hst : ∃ k, m.Steps code k ⟨n, s⟩ t ⟨n + (st.lower cs n).length, s₁⟩)
    (hrest : ∃ k, m.Steps code k ⟨n + (st.lower cs n).length, s₁⟩ u
      ⟨n + (st.lower cs n).length +
        (Stmt.lowerAll cs (n + (st.lower cs n).length) rest).length, s'⟩) :
    ∃ k, m.Steps code k ⟨n, s⟩ (t ++ u) ⟨n + (Stmt.lowerAll cs n (st :: rest)).length, s'⟩ := by
  obtain ⟨j, hj⟩ := hst
  obtain ⟨k, hk⟩ := hrest
  rw [Stmt.lowerAll, List.length_append, ← Nat.add_assoc]
  exact ⟨j + k, hj.trans hk⟩

/-- The instructions of statements that run do what the statements do. -/
theorem Runs.steps (hl : (labels code).Nodup) (h : Runs m cs body s t s')
    (hp : Placed code n (Stmt.lowerAll cs n body)) :
    ∃ k, m.Steps code k ⟨n, s⟩ t ⟨n + (Stmt.lowerAll cs n body).length, s'⟩ := by
  induction h generalizing n with
  | done => exact steps_nil
  | assign _ ih =>
    obtain ⟨hst, hrest⟩ := placed_cons hp
    have hrun := ih hrest
    rw [Stmt.lower] at hst
    exact steps_cons ⟨1, .single (Machine.step_assign hst.head)⟩ hrun
  | call _ ih =>
    obtain ⟨hst, hrest⟩ := placed_cons hp
    have hrun := ih hrest
    rw [Stmt.lower] at hst
    exact steps_cons ⟨1, .single (Machine.step_call hst.head)⟩ hrun
  | skip hcall _ ih =>
    refine steps_cons (t := []) ⟨0, ?_⟩ (ih (placed_cons hp).2)
    rw [lower_eval hcall]
    exact .refl
  | block _ _ ih ihrest =>
    obtain ⟨hst, hrest⟩ := placed_cons hp
    exact steps_cons ((around_block hst).through fun _ => ih) (ihrest hrest)
  | ifThenTrue hc _ _ ih ihrest =>
    obtain ⟨hst, hrest⟩ := placed_cons hp
    exact steps_cons ((around_ifThen_true hl hst hc).through fun _ => ih) (ihrest hrest)
  | ifThenFalse hc _ ihrest =>
    obtain ⟨hst, hrest⟩ := placed_cons hp
    exact steps_cons ((around_ifThen_false hl hst hc).through fun _ _ => steps_nil) (ihrest hrest)
  | ifElseTrue hc _ _ ih ihrest =>
    obtain ⟨hst, hrest⟩ := placed_cons hp
    exact steps_cons ((around_ifElse_true hl hst hc).through fun _ => ih) (ihrest hrest)
  | ifElseFalse hc _ _ ih ihrest =>
    obtain ⟨hst, hrest⟩ := placed_cons hp
    exact steps_cons ((around_ifElse_false hl hst hc).through fun _ => ih) (ihrest hrest)
  | loopMore hc _ _ ih ihloop =>
    -- The body leads back to the loop itself, which stands at the same position.
    obtain ⟨j, hj⟩ := (around_loop_true hl (placed_cons hp).1 hc).through fun _ => ih
    obtain ⟨k, hk⟩ := ihloop hp
    exact ⟨j + k, hj.trans hk⟩
  | loopDone hc _ ihrest =>
    obtain ⟨hst, hrest⟩ := placed_cons hp
    exact steps_cons ((around_loop_false hl hst hc).through fun _ _ => steps_nil) (ihrest hrest)

-- ---------------------------------------------------------------------------
-- From instructions to statements
-- ---------------------------------------------------------------------------

/-- A run of at most `k` steps with trace `t` to `last`, cut where `body` is
over: a run of `body` from `s`, and what the instructions from `b` on still do. -/
def Splits (m : Machine σ) (code : List Instr) (cs : Constants) (k : Nat) (body : List Stmt)
    (s : σ) (t : Trace σ) (b : Nat) (last : Config σ) : Prop :=
  ∃ i t₁ t₂ s₁, i ≤ k ∧ t = t₁ ++ t₂ ∧ Runs m cs body s t₁ s₁ ∧ m.Steps code i ⟨b, s₁⟩ t₂ last

/-- A run through a statement whose part it must enter. The part is entered
after `j` steps, so that many are not left for what follows. -/
theorem Around.splits (h : Around m code cs j s a part b) (hend : m.step code last = none)
    (hrun : m.Steps code k ⟨a, s⟩ t last)
    (hpart : ∀ p i, i + j = k → Placed code p (Stmt.lowerAll cs p part) →
      m.Steps code i ⟨p, s⟩ t last →
      Splits m code cs i part s t (p + (Stmt.lowerAll cs p part).length) last) :
    ∃ i t₁ t₂ s₁, i + j ≤ k ∧ t = t₁ ++ t₂ ∧ Runs m cs part s t₁ s₁ ∧
      m.Steps code i ⟨b, s₁⟩ t₂ last := by
  obtain ⟨p, e, hp, henter, hleave⟩ := h
  obtain ⟨i, u, rfl, rfl, hin⟩ := hrun.after hend henter
  obtain ⟨i', t₁, t₂, s₁, hle, ht, hruns, hout⟩ := hpart p i (Nat.add_comm i j) hp hin
  obtain ⟨i'', v, rfl, rfl, hlast⟩ := hout.after hend (hleave s₁)
  exact ⟨i'', t₁, _, s₁, by omega, ht, hruns, hlast⟩

theorem splits_cons (hle : i ≤ k)
    (hst : ∀ v s', Runs m cs rest s₁ v s' → Runs m cs (st :: rest) s (t ++ v) s')
    (hrest : Splits m code cs i rest s₁ u (n + (st.lower cs n).length +
      (Stmt.lowerAll cs (n + (st.lower cs n).length) rest).length) last) :
    Splits m code cs k (st :: rest) s (t ++ u)
      (n + (Stmt.lowerAll cs n (st :: rest)).length) last := by
  obtain ⟨j, u₁, u₂, s₂, hj, rfl, hruns, hlast⟩ := hrest
  rw [Stmt.lowerAll, List.length_append, ← Nat.add_assoc]
  exact ⟨j, t ++ u₁, u₂, s₂, Nat.le_trans hj hle, by simp, hst u₁ s₂ hruns, hlast⟩

/-- A run of the instructions of `body` to where the machine stops begins with a
run of `body`. The induction is on the steps of the run and the size of the
statements together: a part is smaller, and a round of a loop takes steps. -/
theorem runs_of_steps (hl : (labels code).Nodup) (hend : m.step code last = none)
    (body : List Stmt) (n k : Nat) (s : σ) (t : Trace σ)
    (hp : Placed code n (Stmt.lowerAll cs n body)) (h : m.Steps code k ⟨n, s⟩ t last) :
    Splits m code cs k body s t (n + (Stmt.lowerAll cs n body).length) last := by
  match body with
  | [] => exact ⟨k, [], t, s, Nat.le.refl, rfl, .done, by simpa [Stmt.lowerAll] using h⟩
  | .assign target e :: rest =>
    obtain ⟨hst, hrest⟩ := placed_cons hp
    have hhead : code[n]? = some (.assign target (e.operand cs)) := by
      rw [Stmt.lower] at hst
      exact hst.head
    obtain ⟨j, u, rfl, rfl, hnext⟩ := h.uncons hend (Machine.step_assign hhead)
    exact splits_cons (Nat.le_succ j) (fun _ _ => .assign)
      (runs_of_steps hl hend rest _ j _ u hrest hnext)
  | .eval e :: rest =>
    obtain ⟨hst, hrest⟩ := placed_cons hp
    by_cases hcall : ∃ callee args, e = .call callee args
    · obtain ⟨callee, args, rfl⟩ := hcall
      have hhead : code[n]? = some (.call callee (args.map (·.operand cs))) := by
        rw [Stmt.lower] at hst
        exact hst.head
      obtain ⟨j, u, rfl, rfl, hnext⟩ := h.uncons hend (Machine.step_call hhead)
      exact splits_cons (Nat.le_succ j) (fun _ _ => .call)
        (runs_of_steps hl hend rest _ j _ u hrest hnext)
    · have hne : ∀ callee args, e ≠ .call callee args := fun f as he => hcall ⟨f, as, he⟩
      have hnext : m.Steps code k ⟨n + ((Stmt.eval e).lower cs n).length, s⟩ t last := by
        rw [lower_eval hne]
        exact h
      exact splits_cons (t := []) Nat.le.refl (fun _ _ => .skip hne)
        (runs_of_steps hl hend rest _ k s t hrest hnext)
  | .block part :: rest =>
    obtain ⟨hst, hrest⟩ := placed_cons hp
    obtain ⟨i, t, u, s₁, hi, rfl, hpart, hnext⟩ := (around_block hst).splits hend h
      fun p i hi hp h => runs_of_steps hl hend part p i s t hp h
    exact splits_cons (by omega) (fun _ _ => .block hpart)
      (runs_of_steps hl hend rest _ i s₁ u hrest hnext)
  | .ifThen c part :: rest =>
    obtain ⟨hst, hrest⟩ := placed_cons hp
    cases hc : m.holds (c.operand cs) s with
    | true =>
      obtain ⟨i, t, u, s₁, hi, rfl, hpart, hnext⟩ := (around_ifThen_true hl hst hc).splits hend h
        fun p i hi hp h => runs_of_steps hl hend part p i s t hp h
      exact splits_cons (by omega) (fun _ _ => .ifThenTrue hc hpart)
        (runs_of_steps hl hend rest _ i s₁ u hrest hnext)
    | false =>
      obtain ⟨i, t, u, s₁, hi, rfl, hpart, hnext⟩ := (around_ifThen_false hl hst hc).splits hend h
        fun p i hi hp h => runs_of_steps hl hend [] p i s t hp h
      cases hpart
      exact splits_cons (t := []) (by omega) (fun _ _ => .ifThenFalse hc)
        (runs_of_steps hl hend rest _ i s u hrest hnext)
  | .ifElse c yes no :: rest =>
    obtain ⟨hst, hrest⟩ := placed_cons hp
    cases hc : m.holds (c.operand cs) s with
    | true =>
      obtain ⟨i, t, u, s₁, hi, rfl, hpart, hnext⟩ := (around_ifElse_true hl hst hc).splits hend h
        fun p i hi hp h => runs_of_steps hl hend yes p i s t hp h
      exact splits_cons (by omega) (fun _ _ => .ifElseTrue hc hpart)
        (runs_of_steps hl hend rest _ i s₁ u hrest hnext)
    | false =>
      obtain ⟨i, t, u, s₁, hi, rfl, hpart, hnext⟩ := (around_ifElse_false hl hst hc).splits hend h
        fun p i hi hp h => runs_of_steps hl hend no p i s t hp h
      exact splits_cons (by omega) (fun _ _ => .ifElseFalse hc hpart)
        (runs_of_steps hl hend rest _ i s₁ u hrest hnext)
  | .loop c part :: rest =>
    obtain ⟨hst, hrest⟩ := placed_cons hp
    cases hc : m.holds (c.operand cs) s with
    | true =>
      obtain ⟨i, t, u, s₁, hi, rfl, hpart, hnext⟩ := (around_loop_true hl hst hc).splits hend h
        fun p i hi hp h => runs_of_steps hl hend part p i s t hp h
      obtain ⟨j, u₁, u₂, s₂, hj, rfl, hruns, hlast⟩ :=
        runs_of_steps hl hend (.loop c part :: rest) n i s₁ u hp hnext
      exact ⟨j, t ++ u₁, u₂, s₂, by omega, by simp, .loopMore hc hpart hruns, hlast⟩
    | false =>
      obtain ⟨i, t, u, s₁, hi, rfl, hpart, hnext⟩ := (around_loop_false hl hst hc).splits hend h
        fun p i hi hp h => runs_of_steps hl hend [] p i s t hp h
      cases hpart
      exact splits_cons (t := []) (by omega) (fun _ _ => .loopDone hc)
        (runs_of_steps hl hend rest _ i s u hrest hnext)
termination_by k + sizeOf body
decreasing_by all_goals simp_wf <;> omega

end

/-- Statements run to a state with a trace exactly if the instructions of the
routine made of them, from the first, run off their end there with that trace. -/
theorem runs_iff_ends_lower (m : Machine σ) (cs : Constants) (r : Routine) (s s' : σ)
    (t : Trace σ) : Runs m cs r.body s t s' ↔ m.Ends (r.lower cs).instrs s t s' := by
  have hl : (labels (Stmt.lowerAll cs 0 r.body)).Nodup := nodup_labels_lowerAll cs 0 r.body
  have hp := placed_self (Stmt.lowerAll cs 0 r.body)
  constructor
  · intro h
    obtain ⟨k, hk⟩ := h.steps hl hp
    exact ⟨k, hk.to (Nat.zero_add _)⟩
  · rintro ⟨k, hk⟩
    obtain ⟨i, t₁, t₂, s₁, -, rfl, hruns, hlast⟩ :=
      runs_of_steps hl Machine.step_length r.body 0 k s t hp hk
    -- What is left of the run starts where it ends, so nothing is left.
    rw [Nat.zero_add] at hlast
    obtain ⟨rfl, hend⟩ := hlast.eq_of_stop Machine.step_length
    cases hend
    simpa using hruns

end Pascal

end Cartridge
