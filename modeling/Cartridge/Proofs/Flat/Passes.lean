import Cartridge.Flat.Optimize
import Cartridge.Proofs.Flat.Simulation
import Cartridge.Proofs.Flat.Sources

/-!
# The passes keep runs

Pruning keeps every run of every machine, step by step. So does folding, on a
machine for which a folded assignment does the same. Dropping reassigned targets
takes steps away and leaves the stores apart until the target is written again;
that is not seen if no assignment that is kept reads the target in between.
-/

namespace Cartridge.Flat

open Pascal Machine

variable {σ : Type u}

-- ---------------------------------------------------------------------------
-- Pruning
-- ---------------------------------------------------------------------------

theorem fromLabel?_prune (name : String) (live : Bool) (code : List Instr) :
    fromLabel? name (prune live code) = (fromLabel? name code).map (prune true) := by
  induction code generalizing live with
  | nil => rfl
  | cons i rest ih =>
    by_cases hi : i = .label name
    · subst hi
      simp [prune, fromLabel?, Instr.isLabel, Instr.isJump]
    · rw [prune]
      split
      · simp [fromLabel?, hi, ih]
      · simp [fromLabel?, hi, ih]

theorem prune_eq_nil (ahead : List Instr) : prune true ahead = [] ↔ ahead = [] := by
  cases ahead <;> simp [prune]

theorem advance_prune (m : Machine σ) (code : List Instr) (p : Point σ) :
    m.advance (prune true code) ⟨prune true p.ahead, p.state⟩ =
      (m.advance code p).map fun r => (r.1, ⟨prune true r.2.ahead, r.2.state⟩) := by
  obtain ⟨ahead, s⟩ := p
  cases ahead with
  | nil => rfl
  | cons i rest =>
    cases i with
    | label name => rfl
    | branch target cond =>
      cases cond with
      | none => simp [prune, advance, fromLabel?_prune, Function.comp_def]
      | some cond =>
        simp only [prune, advance, fromLabel?_prune, Bool.true_or, if_true, Instr.isJump,
          Bool.not_false]
        split
        · simp [Function.comp_def]
        · rfl
    | assign target source => rfl
    | call callee args => rfl

theorem sameRuns_prune (m : Machine σ) (visible : Effect → Bool) (code : List Instr) (s : σ) :
    m.SameRuns visible code (pruneUnreachable code) s := by
  change m.SameRuns visible code (prune true code) s
  refine sameRuns_of_lockstep prune_eq_nil fun p _ => ?_
  rw [advance_prune, Option.map_map]
  rfl

-- ---------------------------------------------------------------------------
-- Folding
-- ---------------------------------------------------------------------------

/-- Only calls are seen from outside. -/
def isCall : Effect → Bool
  | .call _ _ => true
  | .assign _ _ => false

theorem fromLabel?_fold (name : String) (code : List Instr) :
    fromLabel? name (code.map foldInstr) = (fromLabel? name code).map (List.map foldInstr) := by
  induction code with
  | nil => rfl
  | cons i rest ih =>
    have hlabel : foldInstr i = .label name ↔ i = .label name := by
      cases i <;> simp [foldInstr]
    by_cases hi : i = .label name
    · simp [fromLabel?, hi, foldInstr]
    · simp [fromLabel?, hi, hlabel, ih]

theorem sameRuns_fold {m : Machine σ} {code : List Instr}
    (h : ∀ target source, .assign target source ∈ code →
      m.apply (.assign target (foldConstants source)) = m.apply (.assign target source)) (s : σ) :
    m.SameRuns isCall code (code.map foldInstr) s := by
  refine sameRuns_of_lockstep (fun ahead => List.map_eq_nil_iff) fun p hp => ?_
  obtain ⟨ahead, s⟩ := p
  cases ahead with
  | nil => rfl
  | cons i rest =>
    cases i with
    | label name => rfl
    | branch target cond =>
      simp only [List.map_cons, foldInstr, advance, fromLabel?_fold]
      split
      · simp [Function.comp_def]
      · rfl
    | assign target source =>
      have hassign := h target source (hp.subset List.mem_cons_self)
      simp [foldInstr, advance, seen, isCall, hassign]
    | call callee args => rfl

-- ---------------------------------------------------------------------------
-- Dropping
-- ---------------------------------------------------------------------------

/-- Whether what `x` holds is used: an assignment that is kept reads it before the run of
assignments writes it, or the run does not write it. -/
def needs (x : String) : List Instr → Bool
  | .assign target source :: rest =>
    (!reassigned target rest && (sourceNames source).contains x) || (target != x && needs x rest)
  | _ => true

/-- No assignment that is dropped wrote what is used. -/
def dropsUnneeded : List Instr → Bool
  | [] => true
  | .assign target _ :: rest => !(reassigned target rest && needs target rest) && dropsUnneeded rest
  | _ :: rest => dropsUnneeded rest

theorem dropsUnneeded_of_cons (h : dropsUnneeded (i :: rest)) : dropsUnneeded rest := by
  cases i with
  | assign target source => exact (Bool.and_eq_true_iff.mp h).2
  | label name => exact h
  | branch target cond => exact h
  | call callee args => exact h

theorem dropsUnneeded_suffix (h : dropsUnneeded code) (hsuffix : ahead <:+ code) :
    dropsUnneeded ahead := by
  induction code with
  | nil =>
    obtain rfl := List.suffix_nil.mp hsuffix
    rfl
  | cons i rest ih =>
    obtain rfl | hrest := List.suffix_cons_iff.mp hsuffix
    · exact h
    · exact ih (dropsUnneeded_of_cons h) hrest

theorem fromLabel?_drop (name : String) (code : List Instr) :
    fromLabel? name (dropReassigned code) = (fromLabel? name code).map dropReassigned := by
  induction code with
  | nil => rfl
  | cons i rest ih =>
    cases i with
    | assign target source =>
      rw [dropReassigned]
      split
      · simp [fromLabel?, ih]
      · simp [fromLabel?, ih]
    | label other =>
      by_cases hname : other = name
      · simp [dropReassigned, fromLabel?, hname]
      · simp [dropReassigned, fromLabel?, hname, ih]
    | branch target cond => simp [dropReassigned, fromLabel?, ih]
    | call callee args => simp [dropReassigned, fromLabel?, ih]

/-- The stores are the same where the instructions ahead use them. -/
def Agree (ahead : List Instr) (ρ ρ' : Store) : Prop :=
  ∀ x, needs x ahead → ρ x = ρ' x

/-- The runs of a routine and of the routine without its dropped assignments, side by side. -/
structure Beside (code : List Instr) (p q : Point Store) : Prop where
  suffix : p.ahead <:+ code
  dropped : q.ahead = dropReassigned p.ahead
  agree : Agree p.ahead p.state q.state

/-- The instruction ahead, if there is one, is not dropped. -/
def keepsNext : List Instr → Bool
  | .assign target _ :: rest => !reassigned target rest
  | _ => true

theorem eq_nil_of_dropReassigned (hnext : keepsNext ahead) (h : dropReassigned ahead = []) :
    ahead = [] := by
  cases ahead with
  | nil => rfl
  | cons i rest =>
    cases i with
    | assign target source =>
      have hkept : reassigned target rest = false := by simpa [keepsNext] using hnext
      simp [dropReassigned, hkept] at h
    | label name => cases h
    | branch target cond => cases h
    | call callee args => cases h

theorem Agree.eq (h : Agree ahead ρ ρ') (hahead : ∀ x, needs x ahead) : ρ = ρ' :=
  funext fun x => h x (hahead x)

theorem Agree.kept (rt : Runtime) (hkept : reassigned target rest = false)
    (h : Agree (.assign target source :: rest) ρ ρ') :
    Agree rest (rt.machine.apply (.assign target source) ρ)
      (rt.machine.apply (.assign target source) ρ') := by
  intro x hx
  simp only [Runtime.machine]
  split
  · refine rt.value_congr fun y hy => h y ?_
    simp [needs, hkept, hy]
  · next hne =>
    refine h x ?_
    simp [needs, hx, Ne.symm hne]

theorem Agree.dropped (rt : Runtime) (hneeds : needs target rest = false)
    (h : Agree (.assign target source :: rest) ρ ρ') :
    Agree rest (rt.machine.apply (.assign target source) ρ) ρ' := by
  intro x hx
  have hne : x ≠ target := by
    rintro rfl
    rw [hneeds] at hx
    cases hx
  simp only [Runtime.machine, if_neg hne]
  refine h x ?_
  simp [needs, hx, hne.symm]

section
variable {code : List Instr} {p q : Point Store}

/-- A dropped assignment is a step of one side only. -/
theorem Beside.drop (rt : Runtime) (hcode : dropsUnneeded code) (h : Beside code p q)
    (hnext : keepsNext p.ahead = false) :
    ∃ es p', rt.machine.advance code p = some (es, p') ∧ seen isCall es = [] ∧
      Beside code p' q ∧ p'.ahead.length < p.ahead.length := by
  obtain ⟨ahead, ρ⟩ := p
  match ahead, hnext with
  | .assign target source :: rest, hnext =>
    have hre : reassigned target rest = true := by simpa [keepsNext] using hnext
    have hneeds : needs target rest = false := by
      have hhead := dropsUnneeded_suffix hcode h.suffix
      simp only [dropsUnneeded, hre, Bool.true_and] at hhead
      simpa using (Bool.and_eq_true_iff.mp hhead).1
    refine ⟨_, _, rfl, rfl, ⟨?_, ?_, h.agree.dropped rt hneeds⟩, Nat.lt_succ_self _⟩
    · exact (List.suffix_cons _ rest).trans h.suffix
    · simpa [dropReassigned, hre] using h.dropped

/-- Any other step is a step of both sides. -/
theorem Beside.advance (rt : Runtime) (h : Beside code p q) (hnext : keepsNext p.ahead) :
    Option.Rel (fun r r' => seen isCall r'.1 = seen isCall r.1 ∧ Beside code r.2 r'.2)
      (rt.machine.advance code p) (rt.machine.advance (dropReassigned code) q) := by
  obtain ⟨ahead, ρ⟩ := p
  obtain ⟨ahead', ρ'⟩ := q
  obtain ⟨hsuffix, hdropped, hagree⟩ := h
  dsimp only at hsuffix hdropped hagree
  subst hdropped
  cases ahead with
  | nil => exact .none
  | cons i rest =>
    have hrest : rest <:+ code := (List.suffix_cons i rest).trans hsuffix
    cases i with
    | assign target source =>
      have hkept : reassigned target rest = false := by simpa [keepsNext] using hnext
      simp only [dropReassigned, hkept]
      exact .some ⟨rfl, hrest, rfl, hagree.kept rt hkept⟩
    -- behind a run of assignments the stores are the same
    | label name =>
      obtain rfl : ρ = ρ' := hagree.eq fun _ => rfl
      exact .some ⟨rfl, hrest, rfl, fun _ _ => rfl⟩
    | branch target cond =>
      obtain rfl : ρ = ρ' := hagree.eq fun _ => rfl
      simp only [dropReassigned, Machine.advance, fromLabel?_drop]
      split
      · cases hdest : fromLabel? target code with
        | none => exact .none
        | some dest => exact .some ⟨rfl, fromLabel?_suffix hdest, rfl, fun _ _ => rfl⟩
      · exact .some ⟨rfl, hrest, rfl, fun _ _ => rfl⟩
    | call callee args =>
      obtain rfl : ρ = ρ' := hagree.eq fun _ => rfl
      exact .some ⟨rfl, hrest, rfl, fun _ _ => rfl⟩

/-- The side with all assignments takes those that are dropped until both can step. -/
theorem Beside.catchUp (rt : Runtime) (hcode : dropsUnneeded code) {p : Point Store}
    (h : Beside code p q) :
    ∃ t p', rt.machine.Reaches code p t p' ∧ seen isCall t = [] ∧ Beside code p' q ∧
      keepsNext p'.ahead := by
  cases hnext : keepsNext p.ahead with
  | true => exact ⟨[], p, .refl, rfl, h, hnext⟩
  | false =>
    -- less lies ahead of `p₁`, so this comes to an end
    obtain ⟨es, p₁, hstep, hsilent, h₁, hlt⟩ := h.drop rt hcode hnext
    obtain ⟨t, p', ht, hsilent', h', hnext'⟩ := h₁.catchUp rt hcode
    refine ⟨es ++ t, p', .next hstep ht, ?_, h', hnext'⟩
    rw [seen_append, hsilent, hsilent', List.append_nil]
termination_by p.ahead.length

theorem simulation_drop (rt : Runtime) (hcode : dropsUnneeded code) :
    rt.machine.Simulation isCall code (dropReassigned code) (Beside code) := by
  constructor
  · intro p q es p' h hstep
    cases hnext : keepsNext p.ahead with
    | true =>
      have hrel := h.advance rt hnext
      rw [hstep] at hrel
      generalize hq : rt.machine.advance (dropReassigned code) q = answer at hrel
      obtain ⟨hseen, h'⟩ := hrel
      exact ⟨_, _, .single hq, hseen, h'⟩
    | false =>
      obtain ⟨es', p₁, hstep', hsilent, h', -⟩ := h.drop rt hcode hnext
      rw [hstep] at hstep'
      cases hstep'
      exact ⟨[], q, .refl, hsilent.symm, h'⟩
  · rintro ⟨_, ρ⟩ ⟨ahead, ρ'⟩ ⟨-, rfl, hagree⟩ rfl
    obtain rfl : ρ = ρ' := hagree.eq fun _ => rfl
    exact ⟨[], .refl, rfl⟩

theorem simulation_drop_back (rt : Runtime) (hcode : dropsUnneeded code) :
    rt.machine.Simulation isCall (dropReassigned code) code (flip (Beside code)) := by
  constructor
  · intro q p es q' h hstep
    obtain ⟨t, p₁, ht, hsilent, h₁, hnext⟩ := Beside.catchUp rt hcode h
    have hrel := h₁.advance rt hnext
    rw [hstep] at hrel
    generalize hp : rt.machine.advance code p₁ = answer at hrel
    obtain ⟨hseen, h'⟩ := hrel
    refine ⟨t ++ _, _, ht.trans (.single hp), ?_, h'⟩
    rw [seen_append, hsilent, hseen, List.nil_append]
  · intro q p h hend
    obtain ⟨t, ⟨ahead, ρ⟩, ht, hsilent, ⟨-, hdropped, hagree⟩, hnext⟩ := Beside.catchUp rt hcode h
    obtain rfl : ahead = [] := eq_nil_of_dropReassigned hnext (hdropped.symm.trans hend)
    obtain rfl : ρ = q.state := hagree.eq fun _ => rfl
    exact ⟨t, ht, hsilent⟩

theorem sameRuns_drop (rt : Runtime) (hcode : dropsUnneeded code) (ρ : Store) :
    rt.machine.SameRuns isCall code (dropReassigned code) ρ :=
  sameRuns_of_simulation (simulation_drop rt hcode) (simulation_drop_back rt hcode)
    ⟨List.suffix_refl code, rfl, fun _ _ => rfl⟩

end

-- ---------------------------------------------------------------------------
-- All passes
-- ---------------------------------------------------------------------------

theorem reassigned_fold (x : String) (code : List Instr) :
    reassigned x (code.map foldInstr) = reassigned x code := by
  induction code with
  | nil => rfl
  | cons i rest ih =>
    cases i with
    | assign target source => simp [reassigned, foldInstr, ih]
    | label name => rfl
    | branch target cond => rfl
    | call callee args => rfl

theorem needs_fold (x : String) {code : List Instr}
    (h : ∀ target source, .assign target source ∈ code → IsSource source) :
    needs x (code.map foldInstr) = needs x code := by
  induction code with
  | nil => rfl
  | cons i rest ih =>
    have ihrest := ih fun target source hmem => h target source (List.mem_cons_of_mem _ hmem)
    cases i with
    | assign target source =>
      have hnames := sourceNames_foldConstants (h target source List.mem_cons_self)
      simp [needs, foldInstr, reassigned_fold, hnames, ihrest]
    | label name => rfl
    | branch target cond => rfl
    | call callee args => rfl

theorem dropsUnneeded_fold {code : List Instr}
    (h : ∀ target source, .assign target source ∈ code → IsSource source) :
    dropsUnneeded (code.map foldInstr) = dropsUnneeded code := by
  induction code with
  | nil => rfl
  | cons i rest ih =>
    have hrest := fun target source hmem => h target source (List.mem_cons_of_mem i hmem)
    cases i with
    | assign target source =>
      simp [dropsUnneeded, foldInstr, reassigned_fold, needs_fold target hrest, ih hrest]
    | label name => exact ih hrest
    | branch target cond => exact ih hrest
    | call callee args => exact ih hrest

-- What is pruned stands behind a jump, so a run of assignments stays whole.

theorem reassigned_prune (x : String) (code : List Instr) :
    reassigned x (prune true code) = reassigned x code := by
  induction code with
  | nil => rfl
  | cons i rest ih =>
    cases i with
    | assign target source => simp [prune, reassigned, Instr.isJump, ih]
    | label name => rfl
    | branch target cond => cases cond <;> rfl
    | call callee args => rfl

theorem needs_prune (x : String) (code : List Instr) :
    needs x (prune true code) = needs x code := by
  induction code with
  | nil => rfl
  | cons i rest ih =>
    cases i with
    | assign target source => simp [prune, needs, Instr.isJump, reassigned_prune, ih]
    | label name => rfl
    | branch target cond => cases cond <;> rfl
    | call callee args => rfl

theorem dropsUnneeded_prune (h : dropsUnneeded code) (live : Bool) :
    dropsUnneeded (prune live code) := by
  induction code generalizing live with
  | nil => rfl
  | cons i rest ih =>
    have ihrest := ih (dropsUnneeded_of_cons h)
    rw [prune]
    split
    · cases i with
      | assign target source =>
        -- an assignment is no jump, so what follows it is live
        obtain ⟨hhead, -⟩ := Bool.and_eq_true_iff.mp h
        simp only [Instr.isJump, Bool.not_false, dropsUnneeded, reassigned_prune, needs_prune]
        exact Bool.and_eq_true_iff.mpr ⟨hhead, ihrest true⟩
      | label name => exact ihrest _
      | branch target cond => exact ihrest _
      | call callee args => exact ihrest _
    · exact ihrest false

theorem sameRuns_foldInstr (rt : Runtime) {code : List Instr}
    (h : ∀ target source, .assign target source ∈ code → IsSource source) (ρ : Store) :
    rt.machine.SameRuns isCall code (code.map foldInstr) ρ := by
  refine sameRuns_fold (fun target source hmem => ?_) ρ
  funext ρ'
  simp only [Runtime.machine, rt.value_foldConstants (h target source hmem)]

/-- An optimized routine ends in the same stores after the same calls, made in the same stores,
if every assigned operand is an expression and no write that is dropped was used. Runs that do
not end, or are stuck, make the same calls too. -/
theorem sameRuns_optimize (rt : Runtime) (level : OptLevel) (r : Routine)
    (hsources : ∀ target source, .assign target source ∈ r.instrs → IsSource source)
    (hdrops : level ≠ .off → dropsUnneeded r.instrs) (ρ : Store) :
    rt.machine.SameRuns isCall r.instrs (r.optimize level).instrs ρ := by
  simp only [Routine.optimize, optimizeInstrs]
  split
  · exact .refl ..
  · next hlevel =>
    have hfold := sameRuns_foldInstr rt hsources ρ
    have hunneeded : dropsUnneeded (r.instrs.map foldInstr) :=
      (dropsUnneeded_fold hsources).trans (hdrops hlevel)
    split
    · refine hfold.trans ((sameRuns_prune ..).trans (sameRuns_drop rt ?_ ρ))
      exact dropsUnneeded_prune hunneeded true
    · exact hfold.trans (sameRuns_drop rt hunneeded ρ)

theorem sameRuns_optimize_draw :
    let rt : Runtime := ⟨fun _ _ ρ => ρ, fun _ _ => true, fun _ _ _ => 0⟩
    let r : Routine := ⟨"main", [.assign "x" "1", .assign "y" "x", .assign "y" "4",
      .assign "x" "(y + (2 * 3))", .call "draw" ["x"], .jump "end", .assign "x" "0", .label "end"]⟩
    (∀ target source, .assign target source ∈ r.instrs → IsSource source) ∧
    dropsUnneeded r.instrs ∧
    (r.optimize .aggressive).instrs = [.assign "y" "4", .assign "x" "(y + 6)",
      .call "draw" ["x"], .jump "end", .label "end"] ∧
    rt.machine.SameRuns isCall r.instrs (r.optimize .aggressive).instrs fun _ => 0 := by
  intro rt r
  have hsources : ∀ target source, .assign target source ∈ r.instrs → IsSource source := by
    intro target source hmem
    simp only [r, List.mem_cons, Instr.assign.injEq, reduceCtorEq, List.not_mem_nil, or_false,
      false_or, Instr.jump] at hmem
    obtain ⟨-, rfl⟩ | ⟨-, rfl⟩ | ⟨-, rfl⟩ | ⟨-, rfl⟩ | ⟨-, rfl⟩ := hmem
    · exact ⟨.int 1, rfl, by decide⟩
    · exact ⟨.ident "x", by decide, by decide⟩
    · exact ⟨.int 4, rfl, by decide⟩
    · exact ⟨.binary .add (.ident "y") (.binary .mul (.int 2) (.int 3)), by decide, by decide⟩
    · exact ⟨.int 0, rfl, by decide⟩
  have hdrops : dropsUnneeded r.instrs := by decide
  refine ⟨hsources, hdrops, by decide, ?_⟩
  exact sameRuns_optimize rt .aggressive r hsources (fun _ => hdrops) _

/-- The first write to `x` is dropped although `y` gets its value. -/
theorem not_sameRuns_optimize :
    let rt : Runtime := ⟨fun _ _ ρ => ρ, fun _ _ => true, fun _ _ _ => 0⟩
    let r : Routine := ⟨"main", [.assign "x" "1", .assign "y" "x", .assign "x" "2"]⟩
    (∀ target source, .assign target source ∈ r.instrs → IsSource source) ∧
    ¬ rt.machine.SameRuns isCall r.instrs (r.optimize .basic).instrs fun _ => 0 := by
  intro rt r
  constructor
  · intro target source hmem
    simp only [r, List.mem_cons, Instr.assign.injEq, List.not_mem_nil, or_false] at hmem
    obtain ⟨-, rfl⟩ | ⟨-, rfl⟩ | ⟨-, rfl⟩ := hmem
    · exact ⟨.int 1, rfl, by decide⟩
    · exact ⟨.ident "x", by decide, by decide⟩
    · exact ⟨.int 2, rfl, by decide⟩
  · intro h
    have hopt : (r.optimize .basic).instrs = [.assign "y" "x", .assign "x" "2"] := by decide
    rw [hopt] at h
    obtain ⟨u, hends, -⟩ := (h.1 _ _).mpr
      ⟨_, ends_iff_reaches.mpr (.next rfl (.next rfl (.next rfl .refl))), rfl⟩
    have hy := congrFun (hends.unique
      (ends_iff_reaches.mpr (.next rfl (.next rfl .refl)))) "y"
    revert hy
    decide

end Cartridge.Flat
