import Cartridge.Proofs.Flat.Strings
import Cartridge.Proofs.Register.Labels

/-!
# Optimizing twice

Optimized code is settled: no group in an assigned operand folds, no assignment
is overwritten in its own run, and from `aggressive` on a label stands behind
every jump. The passes leave settled code as it is, so optimizing it once more
changes nothing, whatever its operands look like and whatever its branches name.
-/

namespace Cartridge.Flat

-- ---------------------------------------------------------------------------
-- Folding
-- ---------------------------------------------------------------------------

/-- Reading a text that was kept leads back to it, with the texts that were kept below it. -/
def Scan.Replays (st : Scan) : Prop :=
  ∀ text outer, text :: outer <:+ st.text :: st.opened →
    text.reverse.foldl Scan.step {} = ⟨text, outer⟩

theorem Scan.Replays.self {st : Scan} (h : st.Replays) :
    st.text.reverse.foldl Scan.step {} = st :=
  h st.text st.opened List.suffix_rfl

theorem Scan.Replays.keep {st : Scan} (h : st.Replays) (hstep : st.step c = st.keep c) :
    (st.keep c).Replays := by
  intro text outer hsuffix
  obtain hwhole | hbelow := List.suffix_cons_iff.mp hsuffix
  · obtain ⟨rfl, rfl⟩ := List.cons.inj hwhole
    rw [Scan.text_keep, List.reverse_cons, List.foldl_append, h.self]
    exact hstep
  · exact h text outer (hbelow.trans (st.opened_keep c))

/-- A value stands where its group stood, and what was read before the group was kept. -/
theorem Scan.Replays.fold {st : Scan} (h : st.Replays) (hopened : st.opened = before :: outer)
    (v : Int64) : (⟨(toString v.toInt).toList.reverse ++ before, outer⟩ : Scan).Replays := by
  have hbefore : before :: outer <:+ st.text :: st.opened := by
    rw [hopened]
    exact List.suffix_cons _ _
  have hdigits : ∀ c ∈ (toString v.toInt).toList, isParenthesis c = false :=
    isParenthesis_of_isBreak fun c hc => Pascal.isBreak_of_mem_toString hc
  intro text outer' hsuffix
  obtain hwhole | hbelow := List.suffix_cons_iff.mp hsuffix
  · obtain ⟨rfl, rfl⟩ := List.cons.inj hwhole
    rw [List.reverse_append, List.reverse_reverse, List.foldl_append, h before outer' hbefore]
    exact scan_of_noParens hdigits
  · exact h text outer' ((hbelow.trans (List.suffix_cons _ _)).trans hbefore)

theorem Scan.Replays.step {st : Scan} (h : st.Replays) (c : Char) : (st.step c).Replays := by
  obtain hkeep | ⟨rfl, before, outer, v, hopened, -, -, hfold⟩ := st.step_cases c
  · rw [hkeep]
    exact h.keep hkeep
  · rw [hfold]
    exact h.fold hopened v

theorem replays_scan (cs : List Char) : (cs.foldl Scan.step {}).Replays := by
  induction cs using List.reverseRecOn with
  | nil =>
    intro text outer hsuffix
    obtain hwhole | hbelow := List.suffix_cons_iff.mp hsuffix
    · obtain ⟨rfl, rfl⟩ := List.cons.inj hwhole
      rfl
    · simp at hbelow
  | append_singleton cs c ih => simpa using ih.step c

theorem foldConstants_foldConstants (source : String) :
    foldConstants (foldConstants source) = foldConstants source := by
  have hreplay := (replays_scan source.toList).self
  simp [foldConstants, hreplay]

theorem hasGroup_foldConstants (source : String) : ¬ HasGroup (foldConstants source).toList :=
  foldConstants_eq_self_iff.mp (foldConstants_foldConstants source)

-- ---------------------------------------------------------------------------
-- Pruning and overwritten assignments
-- ---------------------------------------------------------------------------

/-- What pruning keeps first, if nothing falls into it, is a label. -/
theorem pruned_prune (live : Bool) (code : List Instr) :
    Pruned (prune live code) ∧ (live = false → ∀ i ∈ (prune live code).head?, i.isLabel) := by
  induction code generalizing live with
  | nil => simp [prune, Pruned]
  | cons i rest ih =>
    obtain ⟨hrest, hhead⟩ := ih (!i.isJump)
    rw [prune]
    split
    · next hkept =>
      refine ⟨List.isChain_cons.mpr ⟨fun j hj hjump => hhead (by simp [hjump]) j hj, hrest⟩, ?_⟩
      rintro rfl j hj
      obtain rfl : i = j := by simpa using hj
      simpa using hkept
    · exact ⟨(ih false).1, fun _ => (ih false).2 rfl⟩

theorem Pruned.dropReassigned (h : Pruned code) : Pruned (dropReassigned code) := by
  refine isChain_dropReassigned (fun i target source j hij hjump => ?_) h
  cases hij hjump

/-- The last assignment to each target stays. -/
theorem reassigned_dropReassigned (x : String) (code : List Instr) :
    reassigned x (dropReassigned code) = reassigned x code := by
  induction code with
  | nil => rfl
  | cons i rest ih =>
    cases i with
    | assign target source =>
      rw [dropReassigned]
      split
      · next hagain =>
        rw [ih, reassigned]
        by_cases htarget : target = x
        · simp [← htarget, hagain]
        · simp [htarget]
      · simp [reassigned, ih]
    | _ => rfl

theorem reassigned_of_suffix_dropReassigned
    (h : .assign target source :: rest <:+ dropReassigned code) :
    reassigned target rest = false := by
  induction code with
  | nil => simp [dropReassigned] at h
  | cons i more ih =>
    cases i with
    | assign target' source' =>
      rw [dropReassigned] at h
      split at h
      · exact ih h
      · next hlast =>
        obtain hwhole | hlater := List.suffix_cons_iff.mp h
        · cases hwhole
          simpa [reassigned_dropReassigned] using hlast
        · exact ih hlater
    | _ =>
      obtain hwhole | hlater := List.suffix_cons_iff.mp h
      · cases hwhole
      · exact ih hlater

theorem dropReassigned_eq_self
    (h : ∀ target source rest, .assign target source :: rest <:+ code →
      reassigned target rest = false) : dropReassigned code = code := by
  induction code with
  | nil => rfl
  | cons i more ih =>
    have ihmore := ih fun target source rest hrest =>
      h target source rest (hrest.trans (List.suffix_cons _ _))
    cases i with
    | assign target source => simp [dropReassigned, h target source more List.suffix_rfl, ihmore]
    | _ => simp [dropReassigned, ihmore]

-- ---------------------------------------------------------------------------
-- Optimizing
-- ---------------------------------------------------------------------------

/-- What the optimizer leaves at a level above `off`. -/
structure Settled (level : OptLevel) (code : List Instr) : Prop where
  folded : ∀ target source, .assign target source ∈ code → ¬ HasGroup source.toList
  pruned : .aggressive ≤ level → Pruned code
  last : ∀ target source rest, .assign target source :: rest <:+ code →
    reassigned target rest = false

theorem Settled.map_foldInstr (h : Settled level code) : code.map foldInstr = code := by
  have hid : ∀ i ∈ code, foldInstr i = id i := by
    intro i hi
    cases i with
    | assign target source =>
      simp [foldInstr, foldConstants_eq_self_iff.mpr (h.folded target source hi)]
    | _ => rfl
  rw [List.map_congr_left hid, List.map_id]

theorem Settled.optimizeInstrs (h : Settled level code) : optimizeInstrs level code = code := by
  simp only [Flat.optimizeInstrs, h.map_foldInstr, pruneUnreachable]
  split
  · rfl
  · split
    · next hlevel => rw [(h.pruned hlevel).prune, dropReassigned_eq_self h.last]
    · exact dropReassigned_eq_self h.last

theorem settled_optimizeInstrs (hlevel : level ≠ .off) (code : List Instr) :
    Settled level (optimizeInstrs level code) := by
  simp only [optimizeInstrs, pruneUnreachable, if_neg hlevel]
  refine ⟨fun target source hmem => ?_, fun haggressive => ?_,
    fun _ _ _ hrest => reassigned_of_suffix_dropReassigned hrest⟩
  · have hfolded : .assign target source ∈ code.map foldInstr := by
      have hmem := (dropReassigned_sublist _).subset hmem
      split at hmem
      · exact (prune_sublist true _).subset hmem
      · exact hmem
    obtain ⟨i, -, hi⟩ := List.mem_map.mp hfolded
    cases i with
    | assign target' source' =>
      cases hi
      exact hasGroup_foldConstants source'
    | _ => cases hi
  · rw [if_pos haggressive]
    exact (pruned_prune true _).1.dropReassigned

theorem optimizeInstrs_optimizeInstrs (level : OptLevel) (code : List Instr) :
    optimizeInstrs level (optimizeInstrs level code) = optimizeInstrs level code := by
  by_cases hlevel : level = .off
  · simp [optimizeInstrs, hlevel]
  · exact (settled_optimizeInstrs hlevel code).optimizeInstrs

/-- Optimizing a program a second time at the same level changes nothing. -/
theorem optimize_optimize (level : OptLevel) (p : Program) :
    (p.optimize level).optimize level = p.optimize level := by
  simp only [Program.optimize]
  split
  · rfl
  · simp [Program.map, Module.map, Function.comp_def, Routine.optimize,
      optimizeInstrs_optimizeInstrs]

end Cartridge.Flat
