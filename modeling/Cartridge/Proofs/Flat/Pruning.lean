import Cartridge.Proofs.Flat.Passes

/-!
# Pruned routines step like whole ones

Pruning shifts positions, but at corresponding positions the pruned routine has
ahead of it what is left, by pruning, of what the whole one has ahead. From
there both take the same step, and what was dropped is never reached. So both
run for as many steps with the same effects, and a pruned routine ends, is stuck
or goes on exactly if the whole one does. Labels may be repeated or missing.
-/

namespace Cartridge.Flat

variable {σ : Type u}

namespace Machine

/-- The routine, started in `s`, is stuck in `s'` at an instruction that has no step. -/
def Sticks (m : Machine σ) (code : List Instr) (s : σ) (t : Trace σ) (s' : σ) : Prop :=
  ∃ k c, m.Steps code k ⟨0, s⟩ t c ∧ c.state = s' ∧ c.pc < code.length ∧ m.step code c = none

/-- The routine, started in `s`, takes any number of steps. -/
def GoesOn (m : Machine σ) (code : List Instr) (s : σ) : Prop :=
  ∀ k, ∃ t c, m.Steps code k ⟨0, s⟩ t c

/-- Two routines that answer each step with one step answer each run with a run as long. -/
theorem Steps.answered {m : Machine σ} {R : Config σ → Config σ → Prop}
    (hstep : ∀ c c', R c c' → Option.Rel (fun r r' => r'.1 = r.1 ∧ R r.2 r'.2)
      (m.step code c) (m.step code' c'))
    (h : m.Steps code k c t d) (hR : R c c') : ∃ d', m.Steps code' k c' t d' ∧ R d d' := by
  induction h generalizing c' with
  | refl => exact ⟨c', .refl, hR⟩
  | @next c es c₁ _ _ _ hnext _ ih =>
    have hrel := hstep c c' hR
    rw [hnext] at hrel
    generalize hanswer : m.step code' c' = answer at hrel
    obtain ⟨rfl, hR₁⟩ := hrel
    obtain ⟨d', hrest, hR'⟩ := ih hR₁
    exact ⟨d', .next hanswer hrest, hR'⟩

end Machine

open Machine

-- ---------------------------------------------------------------------------
-- Positions of a routine and of the pruned one
-- ---------------------------------------------------------------------------

/-- What lies ahead in the pruned routine is what lies ahead in the whole one, pruned. -/
structure Aligned (code : List Instr) (c c' : Config σ) : Prop where
  ahead : (prune true code).drop c'.pc = prune true (code.drop c.pc)
  state : c'.state = c.state
  inside : c.pc ≤ code.length
  insidePruned : c'.pc ≤ (prune true code).length

section
variable {m : Machine σ} {code : List Instr} {c c' : Config σ}

theorem aligned_start (code : List Instr) (s : σ) : Aligned code ⟨0, s⟩ ⟨0, s⟩ :=
  ⟨rfl, rfl, Nat.zero_le _, Nat.zero_le _⟩

/-- Corresponding positions are past the end together. -/
theorem Aligned.at_end_iff (h : Aligned code c c') :
    c'.pc = (prune true code).length ↔ c.pc = code.length := by
  have hnil := prune_eq_nil (code.drop c.pc)
  rw [← h.ahead, List.drop_eq_nil_iff, List.drop_eq_nil_iff] at hnil
  have hinside := h.inside
  have hinside' := h.insidePruned
  omega

theorem Aligned.before_end_iff (h : Aligned code c c') :
    c'.pc < (prune true code).length ↔ c.pc < code.length := by
  rw [Nat.lt_iff_le_and_ne, Nat.lt_iff_le_and_ne]
  exact and_congr (iff_of_true h.insidePruned h.inside) (not_congr h.at_end_iff)

/-- From corresponding positions the steps have the same effects and lead to such positions, or
there is no step from either. -/
theorem Aligned.step (m : Machine σ) (h : Aligned code c c') :
    Option.Rel (fun r r' => r'.1 = r.1 ∧ Aligned code r.2 r'.2)
      (m.step code c) (m.step (prune true code) c') := by
  obtain ⟨pc, s⟩ := c
  obtain ⟨pc', s'⟩ := c'
  obtain ⟨hahead, hstate, -, -⟩ := h
  dsimp only at hahead hstate
  subst hstate
  have hstep := advance_drop m (prune true code) pc' s'
  rw [hahead, advance_prune m code ⟨code.drop pc, s'⟩, advance_drop, Option.map_map] at hstep
  cases hwhole : m.step code ⟨pc, s'⟩ with
  | none =>
    cases hpruned : m.step (prune true code) ⟨pc', s'⟩ with
    | none => exact .none
    | some r' => simp [hwhole, hpruned] at hstep
  | some r =>
    cases hpruned : m.step (prune true code) ⟨pc', s'⟩ with
    | none => simp [hwhole, hpruned] at hstep
    | some r' =>
      simp only [hwhole, hpruned, Option.map_some, Function.comp_apply, Option.some.injEq,
        Prod.mk.injEq, Point.mk.injEq] at hstep
      obtain ⟨heffects, hahead', hstate'⟩ := hstep
      exact .some ⟨heffects.symm, hahead'.symm, hstate'.symm, step_pc_le hwhole,
        step_pc_le hpruned⟩

theorem Aligned.step_back (m : Machine σ) (h : Aligned code c c') :
    Option.Rel (fun r' r => r.1 = r'.1 ∧ Aligned code r.2 r'.2)
      (m.step (prune true code) c') (m.step code c) := by
  have hrel := h.step m
  generalize m.step code c = whole at hrel ⊢
  generalize m.step (prune true code) c' = pruned at hrel ⊢
  cases hrel with
  | none => exact .none
  | some hr => exact .some ⟨hr.1.symm, hr.2⟩

theorem Aligned.step_eq_none_iff (h : Aligned code c c') :
    m.step (prune true code) c' = none ↔ m.step code c = none := by
  have hrel := h.step m
  generalize m.step code c = whole at hrel ⊢
  generalize m.step (prune true code) c' = pruned at hrel ⊢
  cases hrel <;> simp

end

-- ---------------------------------------------------------------------------
-- Whole runs
-- ---------------------------------------------------------------------------

section
variable {m : Machine σ} {code : List Instr} {s : σ}

/-- What can be told at corresponding positions can be told after as many steps. -/
theorem steps_prune_iff {P Q : Config σ → Prop}
    (hsame : ∀ c c', Aligned code c c' → (P c' ↔ Q c)) :
    (∃ c', m.Steps (prune true code) k ⟨0, s⟩ t c' ∧ P c') ↔
      ∃ c, m.Steps code k ⟨0, s⟩ t c ∧ Q c := by
  constructor
  · rintro ⟨c', hrun, hc'⟩
    obtain ⟨c, hsteps, halign⟩ := hrun.answered (R := flip (Aligned code))
      (fun _ _ hR => Aligned.step_back m hR) (aligned_start code s)
    exact ⟨c, hsteps, (hsame c c' halign).mp hc'⟩
  · rintro ⟨c, hrun, hc⟩
    obtain ⟨c', hsteps, halign⟩ := hrun.answered (fun _ _ hR => hR.step m) (aligned_start code s)
    exact ⟨c', hsteps, (hsame c c' halign).mpr hc⟩

theorem ends_iff_exists_steps :
    m.Ends code s t s' ↔
      ∃ k c, m.Steps code k ⟨0, s⟩ t c ∧ c.state = s' ∧ c.pc = code.length := by
  constructor
  · rintro ⟨k, h⟩
    exact ⟨k, _, h, rfl, rfl⟩
  · rintro ⟨k, ⟨pc, s₁⟩, h, rfl, hend⟩
    exact ⟨k, h.to hend⟩

/-- On every machine a pruned routine runs like the whole one: as many steps bring it past the
same effects into the same state, and it ends, is stuck or goes on forever exactly if the whole
one does, where it ends or is stuck after the same effects in the same state. -/
theorem pruneUnreachable_runs (m : Machine σ) (code : List Instr) (s : σ) :
    (∀ k t s', (∃ c, m.Steps (pruneUnreachable code) k ⟨0, s⟩ t c ∧ c.state = s') ↔
      ∃ c, m.Steps code k ⟨0, s⟩ t c ∧ c.state = s') ∧
    (∀ t s', m.Ends (pruneUnreachable code) s t s' ↔ m.Ends code s t s') ∧
    (∀ t s', m.Sticks (pruneUnreachable code) s t s' ↔ m.Sticks code s t s') ∧
    (m.GoesOn (pruneUnreachable code) s ↔ m.GoesOn code s) := by
  have hstate (s' : σ) (c c' : Config σ) (h : Aligned code c c') :
      c'.state = s' ↔ c.state = s' := by rw [h.state]
  refine ⟨fun k t s' => steps_prune_iff (hstate s'), fun t s' => ?_, fun t s' => ?_, ?_⟩
  · rw [ends_iff_exists_steps, ends_iff_exists_steps]
    refine exists_congr fun k => steps_prune_iff fun c c' h => ?_
    exact and_congr (hstate s' c c' h) h.at_end_iff
  · refine exists_congr fun k => steps_prune_iff fun c c' h => ?_
    exact and_congr (hstate s' c c' h) (and_congr h.before_end_iff h.step_eq_none_iff)
  · refine forall_congr' fun k => exists_congr fun t => ?_
    have hany := steps_prune_iff (m := m) (k := k) (s := s) (t := t) (P := fun _ => True)
      (Q := fun _ => True) fun c c' (_ : Aligned code c c') => .rfl
    simp only [and_true] at hany
    exact hany

end

end Cartridge.Flat
