import Cartridge.Compiler.Stages
import Cartridge.Proofs.Flat.Sweep
import Cartridge.Proofs.Register.AddressTable

/-!
# The stages for the Atari do not crash

Every partial operation that the stages for the Atari run is used where it is
defined: no buffer is cut inside a character, no slot is missing, the counter of
addresses does not run over, no length falls below zero, and slices that are
copied have the length of their place. So each stage is the pass it stands for,
and fails with nothing but the errors of that pass.
-/

namespace Cartridge

theorem bind_eq_ok_iff {x : Except ε α} {f : α → Except ε β} :
    (x >>= f) = .ok b ↔ ∃ a, x = .ok a ∧ f a = .ok b := by
  cases x with
  | error e => simp [bind, Except.bind]
  | ok a => simp [bind, Except.bind]

theorem map_eq_ok_iff {x : Except ε α} {f : α → β} :
    x.map f = .ok b ↔ ∃ a, x = .ok a ∧ f a = b := by
  cases x with
  | error e => simp [Except.map]
  | ok a => simp [Except.map]

theorem mapError_eq_ok_iff {x : Except ε α} {f : ε → ε'} : x.mapError f = .ok a ↔ x = .ok a := by
  constructor
  · intro h
    cases x with
    | error e => cases h
    | ok b =>
      cases h
      rfl
  · rintro rfl
    rfl

-- ---------------------------------------------------------------------------
-- Register programs
-- ---------------------------------------------------------------------------

namespace Register

theorem dropLoads_sublist (instrs : List Instr) : (dropLoads instrs).Sublist instrs := by
  induction instrs using dropLoads.induct with
  | case1 => exact .slnil
  | case2 value reg address rest ih =>
    rw [dropLoads, if_pos rfl]
    exact ih.cons _
  | case3 reg value reg' address rest hreg ih =>
    rw [dropLoads, if_neg hreg]
    exact ih.cons_cons _
  | case4 reg value rest hstore ih =>
    rw [dropLoads]
    · exact ih.cons_cons _
    · exact hstore
  | case5 i rest hload ih =>
    rw [dropLoads]
    · exact ih.cons_cons _
    · exact hload

theorem Routine.tryOptimize_eq (r : Routine) : r.tryOptimize = .ok r.optimize := by
  rw [Routine.tryOptimize, Partial.difference, if_pos (dropLoads_sublist r.instrs).length_le]
  rfl

theorem Program.tryOptimize_eq (level : OptLevel) (p : Program) :
    p.tryOptimize level = .ok (p.optimize level) := by
  unfold Program.tryOptimize Program.optimize
  split
  · rfl
  · rw [Module.mapM_eq_ok Routine.tryOptimize_eq]
    rfl

end Register

-- ---------------------------------------------------------------------------
-- Images
-- ---------------------------------------------------------------------------

namespace Rom

theorem overPairs_six {places : List UInt8} (h : places.length = 6) :
    overPairs vector places = .ok vectors := by
  match places, h with
  | [_, _, _, _, _, _], _ => rfl

/-- A blank image with code copied onto it. -/
def overwritten (code : List UInt8) : List UInt8 :=
  code.take (min code.length capacity) ++
    (List.replicate size 0).drop (min code.length capacity)

theorem length_overwritten (code : List UInt8) : (overwritten code).length = size := by
  have hroom : capacity ≤ size := by decide
  simp [overwritten]
  omega

/-- In front of the vectors stand the code and zeros. -/
theorem take_overwritten (code : List UInt8) : (overwritten code).take capacity =
    code.take capacity ++ List.replicate (capacity - (code.take capacity).length) 0 := by
  have hkept : code.take (min code.length capacity) = code.take capacity := by
    rw [List.take_eq_take_iff]
    omega
  have hfull : (code.take capacity).take capacity = code.take capacity := by
    rw [List.take_take, Nat.min_self]
  have hzeros : capacity - (code.take capacity).length ≤ size - min code.length capacity := by
    rw [← hkept, List.length_take_of_le (Nat.min_le_left _ _)]
    exact Nat.sub_le_sub_right (by decide) _
  rw [overwritten, List.take_append, hkept, hfull, List.drop_replicate, List.take_replicate,
    Nat.min_eq_left hzeros]

/-- Copying onto a blank image makes the image. -/
theorem tryPackage_eq (code : List UInt8) : tryPackage code = .ok (package code) := by
  let len := min code.length capacity
  let blank := List.replicate size (0 : UInt8)
  have hlen : len ≤ size := (Nat.min_le_right _ _).trans (by decide)
  have hplace : Partial.upTo blank len = .ok (blank.take len) :=
    if_pos (by rwa [List.length_replicate])
  have hsource : Partial.upTo code len = .ok (code.take len) := if_pos (Nat.min_le_left _ _)
  have hcopy : Partial.copy (blank.take len) (code.take len) = .ok (code.take len) :=
    if_pos (by simp [blank]; omega)
  have htail : Partial.startingAt (overwritten code) capacity =
      .ok ((overwritten code).drop capacity) :=
    if_pos (by rw [length_overwritten]; decide)
  have hvectors : overPairs vector ((overwritten code).drop capacity) = .ok vectors :=
    overPairs_six (by rw [List.length_drop, length_overwritten]; rfl)
  have hrun : tryPackage code = .ok ((overwritten code).take capacity ++ vectors) :=
    bind_eq_ok_iff.mpr ⟨_, hplace, bind_eq_ok_iff.mpr ⟨_, hsource,
      bind_eq_ok_iff.mpr ⟨_, hcopy, bind_eq_ok_iff.mpr ⟨_, htail,
      bind_eq_ok_iff.mpr ⟨_, hvectors, rfl⟩⟩⟩⟩⟩
  rw [hrun, take_overwritten]
  rfl

theorem tryOfListing_eq (l : Listing) : tryOfListing l = .ok (ofListing l) := by
  unfold tryOfListing ofListing
  cases Listing.assemble l.lines with
  | ok code => exact congrArg (Except.map Except.ok) (tryPackage_eq code)
  | error e => rfl

end Rom

-- ---------------------------------------------------------------------------
-- Stages
-- ---------------------------------------------------------------------------

namespace Attempt

theorem ofResult_ok (report : ε → CompileError) (x : Except ε α) :
    ofResult report (.ok x) = x.mapError fun e => .error (report e) := rfl

end Attempt

namespace Stages

theorem optimizeFlat_eq (level : OptLevel) (p : Flat.Program) :
    atari2600.optimizeFlat level p = .ok (p.optimize level) :=
  congrArg Attempt.ofPartial (Flat.Program.tryOptimize_eq level p)

theorem optimizeRegister_eq (level : OptLevel) (p : Register.Program) :
    atari2600.optimizeRegister level p = .ok (p.optimize level) :=
  congrArg Attempt.ofPartial (Register.Program.tryOptimize_eq level p)

theorem toRegister_eq (p : Flat.Program) :
    atari2600.toRegister p = (Register.lower p).mapError fun e => .error (loweringFailed e) :=
  congrArg (Attempt.ofResult loweringFailed) (Register.tryLower_eq p)

theorem generate_eq (options : CodeGenOptions) (l : Listing) :
    atari2600.generate options l =
      if options.target = .atari2600 then
        (Rom.ofListing l).mapError fun e => .error (encodingFailed e)
      else .error (.error (unsupportedTarget options.target)) := by
  change Atari2600.generate options l = _
  rw [Atari2600.generate, Rom.tryOfListing_eq, Attempt.ofResult_ok]

end Stages

end Cartridge
