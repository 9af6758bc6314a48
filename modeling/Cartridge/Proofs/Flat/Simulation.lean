import Cartridge.Proofs.Flat.Machine

/-!
# Comparing two routines

A pass rewrites the instructions that lie ahead of a run, so runs are compared
by what lies ahead and not by position. Two routines have the same runs if they
end in the same states after the same visible effects, and show the same
effects as far as they run. It is enough to relate points of the two runs such
that each step of one side is answered by steps of the other, in both
directions. If one side answers a step with a step, an equation says it all.
-/

namespace Cartridge.Flat

variable {σ : Type u}

-- ---------------------------------------------------------------------------
-- Points of a run
-- ---------------------------------------------------------------------------

/-- The instructions ahead of a run, and the state. -/
structure Point (σ : Type u) where
  ahead : List Instr
  state : σ

/-- The instructions from the first label `name` on. -/
def fromLabel? (name : String) : List Instr → Option (List Instr)
  | [] => none
  | i :: rest => if i = .label name then some (i :: rest) else fromLabel? name rest

theorem fromLabel?_eq (name : String) (code : List Instr) :
    fromLabel? name code = (labelPos? code name).map (code.drop ·) := by
  induction code with
  | nil => rfl
  | cons i rest ih =>
    rw [fromLabel?, labelPos?, List.idxOf?_cons]
    by_cases hi : i = .label name
    · simp [hi]
    · simp [hi, ih, labelPos?, Function.comp_def]

theorem fromLabel?_suffix (h : fromLabel? name code = some dest) : dest <:+ code := by
  rw [fromLabel?_eq, Option.map_eq_some_iff] at h
  obtain ⟨pc, -, rfl⟩ := h
  exact List.drop_suffix pc code

namespace Machine

/-- One step from a point, as `step` does it from a position. -/
def advance (m : Machine σ) (code : List Instr) (p : Point σ) : Option (Trace σ × Point σ) :=
  match p.ahead with
  | [] => none
  | .label _ :: rest => some ([], ⟨rest, p.state⟩)
  | .branch target cond :: rest =>
    if cond.all (m.holds · p.state) then
      (fromLabel? target code).map fun dest => ([], ⟨dest, p.state⟩)
    else some ([], ⟨rest, p.state⟩)
  | .assign target source :: rest =>
    some ([(.assign target source, p.state)], ⟨rest, m.apply (.assign target source) p.state⟩)
  | .call callee args :: rest =>
    some ([(.call callee args, p.state)], ⟨rest, m.apply (.call callee args) p.state⟩)

inductive Reaches (m : Machine σ) (code : List Instr) : Point σ → Trace σ → Point σ → Prop
  | refl : Reaches m code p [] p
  | next : m.advance code p = some (es, p₁) → Reaches m code p₁ t p₂ →
      Reaches m code p (es ++ t) p₂

variable {m : Machine σ} {code : List Instr}

theorem Reaches.single (h : m.advance code p = some (es, q)) : m.Reaches code p es q := by
  simpa using Reaches.next h .refl

theorem Reaches.trans (h : m.Reaches code p t q) (h' : m.Reaches code q u r) :
    m.Reaches code p (t ++ u) r := by
  induction h with
  | refl => exact h'
  | next hstep _ ih =>
    rw [List.append_assoc]
    exact .next hstep (ih h')

theorem advance_suffix (hp : p.ahead <:+ code) (h : m.advance code p = some (es, q)) :
    q.ahead <:+ code := by
  obtain ⟨ahead, s⟩ := p
  cases ahead with
  | nil => cases h
  | cons i rest =>
    have hrest : rest <:+ code := (List.suffix_cons i rest).trans hp
    cases i with
    | label name =>
      cases h
      exact hrest
    | branch target cond =>
      simp only [advance] at h
      split at h
      · obtain ⟨dest, hdest, he⟩ := Option.map_eq_some_iff.mp h
        cases he
        exact fromLabel?_suffix hdest
      · cases h
        exact hrest
    | assign target source =>
      cases h
      exact hrest
    | call callee args =>
      cases h
      exact hrest

/-- The step from what lies ahead of a position is the step from that position. -/
theorem advance_drop (m : Machine σ) (code : List Instr) (pc : Nat) (s : σ) :
    m.advance code ⟨code.drop pc, s⟩ =
      (m.step code ⟨pc, s⟩).map fun r => (r.1, ⟨code.drop r.2.pc, r.2.state⟩) := by
  cases hi : code[pc]? with
  | none =>
    have hdrop : code.drop pc = [] := by
      rw [List.drop_eq_nil_iff]
      exact List.getElem?_eq_none_iff.mp hi
    simp [advance, step, hdrop, hi]
  | some i =>
    obtain ⟨hlt, rfl⟩ := List.getElem?_eq_some_iff.mp hi
    have hdrop : code.drop pc = code[pc] :: code.drop (pc + 1) := List.drop_eq_getElem_cons hlt
    rw [hdrop]
    cases hcode : code[pc] with
    | label name => simp [advance, step, hi, hcode]
    | branch target cond =>
      simp only [advance, step, hi, hcode, fromLabel?_eq]
      split
      · simp [Function.comp_def]
      · rfl
    | assign target source => simp [advance, step, hi, hcode, perform]
    | call callee args => simp [advance, step, hi, hcode, perform]

theorem step_pc_le (h : m.step code ⟨pc, s⟩ = some (es, c)) : c.pc ≤ code.length := by
  cases hi : code[pc]? with
  | none =>
    simp only [step, hi] at h
    cases h
  | some i =>
    obtain ⟨hlt, -⟩ := List.getElem?_eq_some_iff.mp hi
    cases i with
    | label name =>
      rw [step_label hi] at h
      cases h
      exact hlt
    | branch target cond =>
      simp only [step, hi] at h
      split at h
      · obtain ⟨dest, hdest, he⟩ := Option.map_eq_some_iff.mp h
        cases he
        obtain ⟨hlt', -⟩ := List.idxOf?_eq_some_iff.mp hdest
        exact Nat.le_of_lt hlt'
      · cases h
        exact hlt
    | assign target source =>
      rw [step_assign hi] at h
      cases h
      exact hlt
    | call callee args =>
      rw [step_call hi] at h
      cases h
      exact hlt

theorem Steps.reaches (h : m.Steps code k c t c') :
    m.Reaches code ⟨code.drop c.pc, c.state⟩ t ⟨code.drop c'.pc, c'.state⟩ := by
  induction h with
  | refl => exact .refl
  | next hstep _ ih =>
    refine .next ?_ ih
    rw [advance_drop, hstep]
    rfl

theorem Reaches.steps (h : m.Reaches code p t q) (pc : Nat) (hp : p.ahead = code.drop pc)
    (hpc : pc ≤ code.length) :
    ∃ k pc', m.Steps code k ⟨pc, p.state⟩ t ⟨pc', q.state⟩ ∧ q.ahead = code.drop pc' ∧
      pc' ≤ code.length := by
  induction h generalizing pc with
  | refl => exact ⟨0, pc, .refl, hp, hpc⟩
  | @next p _ _ _ _ hstep _ ih =>
    obtain ⟨ahead, s⟩ := p
    obtain rfl : ahead = code.drop pc := hp
    rw [advance_drop, Option.map_eq_some_iff] at hstep
    obtain ⟨⟨es, c⟩, hstep, he⟩ := hstep
    cases he
    obtain ⟨k, pc', hsteps, hahead, hle⟩ := ih c.pc rfl (step_pc_le hstep)
    exact ⟨k + 1, pc', .next hstep hsteps, hahead, hle⟩

theorem ends_iff_reaches : m.Ends code s t s' ↔ m.Reaches code ⟨code, s⟩ t ⟨[], s'⟩ := by
  constructor
  · rintro ⟨k, h⟩
    simpa using h.reaches
  · intro h
    obtain ⟨k, pc', hsteps, hahead, hle⟩ := h.steps 0 rfl (Nat.zero_le _)
    have hge := List.drop_eq_nil_iff.mp hahead.symm
    exact ⟨k, hsteps.to (Nat.le_antisymm hle hge)⟩

-- ---------------------------------------------------------------------------
-- The same runs
-- ---------------------------------------------------------------------------

/-- The effects of a trace that are visible. -/
def seen (visible : Effect → Bool) (t : Trace σ) : Trace σ :=
  t.filter fun e => visible e.1

theorem seen_append (visible : Effect → Bool) (t u : Trace σ) :
    seen visible (t ++ u) = seen visible t ++ seen visible u :=
  List.filter_append t u

/-- The routine, started in `s`, ends in `s'` after the visible effects `t`. -/
def EndsSeen (m : Machine σ) (visible : Effect → Bool) (code : List Instr) (s : σ) (t : Trace σ)
    (s' : σ) : Prop :=
  ∃ u, m.Ends code s u s' ∧ seen visible u = t

/-- The routine, started in `s`, comes past the visible effects `t`, whether it ends or not. -/
def Shows (m : Machine σ) (visible : Effect → Bool) (code : List Instr) (s : σ) (t : Trace σ) :
    Prop :=
  ∃ k u c, m.Steps code k ⟨0, s⟩ u c ∧ seen visible u = t

/-- Both routines, started in `s`, end in the same states and show the same effects. -/
def SameRuns (m : Machine σ) (visible : Effect → Bool) (code code' : List Instr) (s : σ) : Prop :=
  (∀ t s', m.EndsSeen visible code' s t s' ↔ m.EndsSeen visible code s t s') ∧
    ∀ t, m.Shows visible code' s t ↔ m.Shows visible code s t

theorem SameRuns.refl (m : Machine σ) (visible : Effect → Bool) (code : List Instr) (s : σ) :
    m.SameRuns visible code code s :=
  ⟨fun _ _ => .rfl, fun _ => .rfl⟩

theorem SameRuns.trans (h : m.SameRuns visible code code₁ s)
    (h' : m.SameRuns visible code₁ code₂ s) : m.SameRuns visible code code₂ s :=
  ⟨fun t s' => (h'.1 t s').trans (h.1 t s'), fun t => (h'.2 t).trans (h.2 t)⟩

/-- Each step from a point of `code` is answered from the related point of `code'`. -/
structure Simulation (m : Machine σ) (visible : Effect → Bool) (code code' : List Instr)
    (R : Point σ → Point σ → Prop) : Prop where
  step : R p q → m.advance code p = some (es, p') →
    ∃ t q', m.Reaches code' q t q' ∧ seen visible t = seen visible es ∧ R p' q'
  stop : R p q → p.ahead = [] →
    ∃ t, m.Reaches code' q t ⟨[], p.state⟩ ∧ seen visible t = []

theorem Simulation.reaches (hsim : m.Simulation visible code code' R)
    (h : m.Reaches code p t p') (hR : R p q) :
    ∃ u q', m.Reaches code' q u q' ∧ seen visible u = seen visible t ∧ R p' q' := by
  induction h generalizing q with
  | refl => exact ⟨[], q, .refl, rfl, hR⟩
  | next hstep _ ih =>
    obtain ⟨u, q₁, hu, hseen, hR₁⟩ := hsim.step hR hstep
    obtain ⟨v, q₂, hv, hseen', hR₂⟩ := ih hR₁
    exact ⟨u ++ v, q₂, hu.trans hv, by rw [seen_append, seen_append, hseen, hseen'], hR₂⟩

theorem Simulation.ends (hsim : m.Simulation visible code code' R) (hR : R ⟨code, s⟩ ⟨code', s⟩)
    (h : m.EndsSeen visible code s t s') : m.EndsSeen visible code' s t s' := by
  obtain ⟨u, hends, rfl⟩ := h
  obtain ⟨v, q, hv, hseen, hR'⟩ := hsim.reaches (ends_iff_reaches.mp hends) hR
  obtain ⟨w, hw, hsilent⟩ := hsim.stop hR' rfl
  refine ⟨v ++ w, ends_iff_reaches.mpr (hv.trans hw), ?_⟩
  rw [seen_append, hseen, hsilent, List.append_nil]

theorem Simulation.shows (hsim : m.Simulation visible code code' R) (hR : R ⟨code, s⟩ ⟨code', s⟩)
    (h : m.Shows visible code s t) : m.Shows visible code' s t := by
  obtain ⟨k, u, c, hsteps, rfl⟩ := h
  obtain ⟨v, q, hv, hseen, -⟩ := hsim.reaches hsteps.reaches hR
  obtain ⟨j, pc, hsteps', -⟩ := hv.steps 0 rfl (Nat.zero_le _)
  exact ⟨j, v, _, hsteps', hseen⟩

theorem sameRuns_of_simulation (hsim : m.Simulation visible code code' R)
    (hback : m.Simulation visible code' code (flip R)) (hR : R ⟨code, s⟩ ⟨code', s⟩) :
    m.SameRuns visible code code' s :=
  ⟨fun _ _ => ⟨hback.ends hR, hsim.ends hR⟩, fun _ => ⟨hback.shows hR, hsim.shows hR⟩⟩

/-- A pass that rewrites what lies ahead and keeps every step: the same visible effects, and
behind the step the rewritten rest. -/
theorem sameRuns_of_lockstep {pass : List Instr → List Instr}
    (hnil : ∀ ahead, pass ahead = [] ↔ ahead = [])
    (hstep : ∀ p : Point σ, p.ahead <:+ code →
      (m.advance (pass code) ⟨pass p.ahead, p.state⟩).map (fun r => (seen visible r.1, r.2)) =
        (m.advance code p).map
          fun r => (seen visible r.1, ⟨pass r.2.ahead, r.2.state⟩)) :
    m.SameRuns visible code (pass code) s := by
  let R : Point σ → Point σ → Prop := fun p q => p.ahead <:+ code ∧ q = ⟨pass p.ahead, p.state⟩
  have hforth : m.Simulation visible code (pass code) R := by
    constructor
    · rintro p _ es p' ⟨hsuffix, rfl⟩ h
      have hanswer := hstep p hsuffix
      rw [h, Option.map_some, Option.map_eq_some_iff] at hanswer
      obtain ⟨⟨t, q'⟩, hq', he⟩ := hanswer
      obtain ⟨hseen, hpass⟩ := Prod.mk.inj he
      exact ⟨t, q', .single hq', hseen, advance_suffix hsuffix h, hpass⟩
    · rintro p _ ⟨-, rfl⟩ hend
      refine ⟨[], ?_, rfl⟩
      rw [(hnil p.ahead).mpr hend]
      exact .refl
  -- the same equation, read from the other side
  have hback : m.Simulation visible (pass code) code (flip R) := by
    constructor
    · rintro _ p es q' ⟨hsuffix, rfl⟩ h
      have hanswer := hstep p hsuffix
      rw [h, Option.map_some, eq_comm, Option.map_eq_some_iff] at hanswer
      obtain ⟨⟨t, p'⟩, hp', he⟩ := hanswer
      obtain ⟨hseen, hpass⟩ := Prod.mk.inj he
      exact ⟨t, p', .single hp', hseen, advance_suffix hsuffix hp', hpass.symm⟩
    · rintro _ ⟨ahead, s⟩ ⟨-, rfl⟩ hend
      obtain rfl := (hnil ahead).mp hend
      exact ⟨[], .refl, rfl⟩
  exact sameRuns_of_simulation hforth hback ⟨List.suffix_refl code, rfl⟩

end Machine

end Cartridge.Flat
