import Cartridge.Flat.Program

/-!
# Running flat routines

A machine says what assignments and calls do to its states and in which of
them a condition holds. Nothing else is assumed of states or operands, so a
statement about every machine covers every meaning of operand text.

A routine runs by a position in its instruction list. A branch goes to the
first label of its name and is stuck if there is none; a run is over when the
position has left the list. The trace of a run holds every effect with the
state that it found.
-/

namespace Cartridge.Flat

/-- What an instruction does to a state. -/
inductive Effect where
  | assign (target source : String)
  | call (callee : String) (args : List String)
deriving DecidableEq, Repr

/-- A meaning of effects and conditions over the states `σ`. -/
structure Machine (σ : Type u) where
  apply : Effect → σ → σ
  holds : String → σ → Bool

/-- Effects in the order in which they happened, each with the state before it. -/
abbrev Trace (σ : Type u) := List (Effect × σ)

/-- The position of the next instruction, and the state. -/
structure Config (σ : Type u) where
  pc : Nat
  state : σ

/-- Where a branch to `name` goes. -/
def labelPos? (code : List Instr) (name : String) : Option Nat :=
  code.idxOf? (.label name)

namespace Machine

variable {σ : Type u}

/-- Goes to the next instruction after an effect. -/
def perform (m : Machine σ) (e : Effect) (c : Config σ) : Trace σ × Config σ :=
  ([(e, c.state)], ⟨c.pc + 1, m.apply e c.state⟩)

/-- One step; `none` at the end of the routine and at a branch without a label. -/
def step (m : Machine σ) (code : List Instr) (c : Config σ) : Option (Trace σ × Config σ) :=
  match code[c.pc]? with
  | none => none
  | some (.label _) => some ([], ⟨c.pc + 1, c.state⟩)
  | some (.branch target cond) =>
    if cond.all (m.holds · c.state) then
      (labelPos? code target).map fun pc => ([], ⟨pc, c.state⟩)
    else some ([], ⟨c.pc + 1, c.state⟩)
  | some (.assign target source) => some (m.perform (.assign target source) c)
  | some (.call callee args) => some (m.perform (.call callee args) c)

/-- So many steps, with their trace. -/
inductive Steps (m : Machine σ) (code : List Instr) :
    Nat → Config σ → Trace σ → Config σ → Prop
  | refl : Steps m code 0 c [] c
  | next : m.step code c = some (es, c₁) → Steps m code k c₁ t c₂ →
      Steps m code (k + 1) c (es ++ t) c₂

/-- The routine, started at its first instruction in `s`, runs off its end in `s'`. -/
def Ends (m : Machine σ) (code : List Instr) (s : σ) (t : Trace σ) (s' : σ) : Prop :=
  ∃ k, m.Steps code k ⟨0, s⟩ t ⟨code.length, s'⟩

variable {m : Machine σ} {code : List Instr} {cond : String}

theorem Steps.single (h : m.step code c = some (es, c')) : m.Steps code 1 c es c' := by
  simpa using Steps.next h .refl

theorem Steps.to (h : m.Steps code k c t ⟨pc, s⟩) (hpc : pc = pc') :
    m.Steps code k c t ⟨pc', s⟩ :=
  hpc ▸ h

theorem Steps.trans (h : m.Steps code j a t b) (h' : m.Steps code k b u c) :
    m.Steps code (j + k) a (t ++ u) c := by
  induction h with
  | refl => simpa using h'
  | next hstep _ ih =>
    rw [List.append_assoc, Nat.add_right_comm]
    exact .next hstep (ih h')

/-- A run to where the machine stops starts with the step that the machine takes. -/
theorem Steps.uncons (h : m.Steps code k c t c') (hend : m.step code c' = none)
    (hstep : m.step code c = some (es, c₁)) :
    ∃ j u, k = j + 1 ∧ t = es ++ u ∧ m.Steps code j c₁ u c' := by
  cases h with
  | refl =>
    rw [hend] at hstep
    cases hstep
  | next hnext hrest =>
    rw [hstep] at hnext
    cases hnext
    exact ⟨_, _, rfl, rfl, hrest⟩

theorem Steps.eq_of_stop (h : m.Steps code k c t c') (hend : m.step code c = none) :
    t = [] ∧ c = c' := by
  cases h with
  | refl => exact ⟨rfl, rfl⟩
  | next hstep _ =>
    rw [hend] at hstep
    cases hstep

/-- A run to where the machine stops goes on from every configuration it can reach. -/
theorem Steps.after (h : m.Steps code k c t c') (hend : m.step code c' = none)
    (hfirst : m.Steps code j c u c₁) :
    ∃ i v, k = j + i ∧ t = u ++ v ∧ m.Steps code i c₁ v c' := by
  induction hfirst generalizing k t with
  | refl => exact ⟨k, t, by simp, by simp, h⟩
  | next hstep _ ih =>
    obtain ⟨k', t', rfl, rfl, hrest⟩ := h.uncons hend hstep
    obtain ⟨i, v, rfl, rfl, hlast⟩ := ih hrest
    exact ⟨i, v, by omega, by simp, hlast⟩

-- ---------------------------------------------------------------------------
-- One step, by the instruction at the position
-- ---------------------------------------------------------------------------

theorem step_length : m.step code ⟨code.length, s⟩ = none := by
  simp [step]

theorem Ends.unique (h : m.Ends code s t s') (h' : m.Ends code s u s'') : s' = s'' := by
  obtain ⟨j, hj⟩ := h
  obtain ⟨k, hk⟩ := h'
  obtain ⟨i, v, -, -, hlast⟩ := hk.after step_length hj
  obtain ⟨-, hend⟩ := hlast.eq_of_stop step_length
  cases hend
  rfl

theorem step_label (h : code[pc]? = some (.label name)) :
    m.step code ⟨pc, s⟩ = some ([], ⟨pc + 1, s⟩) := by
  simp [step, h]

theorem step_assign (h : code[pc]? = some (.assign target source)) :
    m.step code ⟨pc, s⟩ =
      some ([(.assign target source, s)], ⟨pc + 1, m.apply (.assign target source) s⟩) := by
  simp [step, h, perform]

theorem step_call (h : code[pc]? = some (.call callee args)) :
    m.step code ⟨pc, s⟩ =
      some ([(.call callee args, s)], ⟨pc + 1, m.apply (.call callee args) s⟩) := by
  simp [step, h, perform]

theorem step_jump (h : code[pc]? = some (.jump target)) (hl : labelPos? code target = some dest) :
    m.step code ⟨pc, s⟩ = some ([], ⟨dest, s⟩) := by
  simp [step, h, hl]

theorem step_taken (h : code[pc]? = some (.branchIf target cond)) (hc : m.holds cond s = true)
    (hl : labelPos? code target = some dest) :
    m.step code ⟨pc, s⟩ = some ([], ⟨dest, s⟩) := by
  simp [step, h, hc, hl]

theorem step_untaken (h : code[pc]? = some (.branchIf target cond))
    (hc : m.holds cond s = false) :
    m.step code ⟨pc, s⟩ = some ([], ⟨pc + 1, s⟩) := by
  simp [step, h, hc]

end Machine

end Cartridge.Flat
