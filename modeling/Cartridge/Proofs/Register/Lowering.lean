import Cartridge.Proofs.Register.ZeroPage
import Cartridge.Register.Lowering
import Cartridge.Register.Optimize

/-!
# Register programs made from flat ones

Lowering fails exactly if the variables of the program do not fit in RAM.
Otherwise every routine goes over under one address map, and the stream is the
routines in order, each behind its label. Every load then stands in front of a
store from its register, so the optimizer drops all loads and nothing else.
-/

namespace Cartridge.Register

theorem exists_lower_iff {p : Flat.Program} :
    (∃ q, lower p = .ok q) ↔ (variableKeys p.targets).length ≤ ramSize := by
  constructor
  · rintro ⟨q, hq⟩
    unfold lower at hq
    split at hq
    · next hm => exact (AddressMap.bindAll_eq_ok_iff.mp hm).2
    · cases hq
  · intro hfit
    have hm := (AddressMap.bindAll_eq_ok_iff (m := ⟨variableKeys p.targets⟩)).mpr ⟨rfl, hfit⟩
    exact ⟨_, by rw [lower, hm]⟩

/-- What lowering does, with the address map that it uses. -/
theorem lower_cases (h : lower p = .ok q) :
    ∃ m, AddressMap.bindAll {} p.targets = .ok m ∧
      q.routines = p.routines.map (lowerRoutine m) ∧
      q.stream = q.routines.flatMap Routine.stream := by
  unfold lower at h
  split at h
  · next m hm =>
    cases h
    exact ⟨m, hm, Module.allRoutines_map _ p.modules, rfl⟩
  · cases h

theorem mem_targets {p : Flat.Program} (hr : r ∈ p.routines)
    (hi : .assign target source ∈ r.instrs) : target ∈ p.targets :=
  List.mem_flatMap.mpr ⟨r, hr, List.mem_filterMap.mpr ⟨_, hi, rfl⟩⟩

/-- An instruction of the stream is the label of a routine or comes from one of its instructions. -/
theorem mem_stream_of_lower (h : lower p = .ok q) (hi : i ∈ q.stream) :
    ∃ m, AddressMap.bindAll {} p.targets = .ok m ∧
      ∃ r ∈ p.routines, i = .label r.name ∨ ∃ j ∈ r.instrs, i ∈ lowerInstr m j := by
  obtain ⟨m, hm, hroutines, hstream⟩ := lower_cases h
  rw [hstream, hroutines, List.flatMap_map] at hi
  obtain ⟨r, hr, hi⟩ := List.mem_flatMap.mp hi
  refine ⟨m, hm, r, hr, ?_⟩
  obtain hlabel | hi := List.mem_cons.mp hi
  · exact .inl hlabel
  · exact .inr (List.mem_flatMap.mp hi)

/-- A store of the stream goes to the operand of a target. -/
theorem store_of_mem_stream (h : lower p = .ok q) (hmem : .store reg address ∈ q.stream) :
    ∃ m, AddressMap.bindAll {} p.targets = .ok m ∧
      ∃ target ∈ p.targets, address = m.operand target := by
  obtain ⟨m, hm, r, hr, hlabel | ⟨i, hi, hstore⟩⟩ := mem_stream_of_lower h hmem
  · cases hlabel
  · cases i with
    | assign target source =>
      obtain ⟨-, rfl⟩ : _ ∧ address = m.operand target := by simpa [lowerInstr] using hstore
      exact ⟨m, hm, target, mem_targets hr hi, rfl⟩
    | label name => simp [lowerInstr] at hstore
    | branch target cond => simp [lowerInstr] at hstore
    | call callee args => simp [lowerInstr] at hstore

/-- A label of the stream names a routine or stands in one. -/
theorem label_of_mem_stream (h : lower p = .ok q) (hmem : .label name ∈ q.stream) :
    ∃ r ∈ p.routines, name = r.name ∨ .label name ∈ r.instrs := by
  obtain ⟨m, -, r, hr, hlabel | ⟨i, hi, hlabel⟩⟩ := mem_stream_of_lower h hmem
  · cases hlabel
    exact ⟨r, hr, .inl rfl⟩
  · cases i with
    | label name' =>
      obtain rfl : name = name' := by simpa [lowerInstr] using hlabel
      exact ⟨r, hr, .inr hi⟩
    | assign target source => simp [lowerInstr] at hlabel
    | branch target cond => simp [lowerInstr] at hlabel
    | call callee args => simp [lowerInstr] at hlabel

theorem isAddress_of_lower (h : lower p = .ok q) (hmem : .store reg address ∈ q.stream) :
    isAddress address := by
  obtain ⟨m, hm, target, htarget, rfl⟩ := store_of_mem_stream h hmem
  exact AddressMap.isAddress_operand hm htarget

def Instr.isLoad : Instr → Bool
  | .load _ _ => true
  | _ => false

/-- A load stands only in front of the store of its assignment. -/
theorem dropLoads_lowerInstr (m : AddressMap) (code : List Flat.Instr) :
    dropLoads (code.flatMap (lowerInstr m)) = (code.flatMap (lowerInstr m)).filter (!·.isLoad) := by
  induction code with
  | nil => rfl
  | cons i rest ih =>
    cases i with
    | assign target source => simp [lowerInstr, dropLoads, Instr.isLoad, ih]
    | label name => simp [lowerInstr, dropLoads, Instr.isLoad, ih]
    | branch target cond => simp [lowerInstr, dropLoads, Instr.isLoad, ih]
    | call callee args => simp [lowerInstr, dropLoads, Instr.isLoad, ih]

/-- The optimizer leaves a lowered program without loads, and leaves all the rest. -/
theorem stream_optimize (h : lower p = .ok q) (hlevel : level ≠ .off) :
    (q.optimize level).stream = q.stream.filter (!·.isLoad) := by
  obtain ⟨m, -, hroutines, hstream⟩ := lower_cases h
  have hopt : (q.optimize level).stream =
      (q.routines.map Routine.optimize).flatMap Routine.stream := by
    rw [Program.optimize, if_neg hlevel, Program.map, Program.ofModules, Module.allRoutines_map]
    rfl
  rw [hopt, hstream, hroutines]
  simp only [List.map_map, List.flatMap_map, List.filter_flatMap]
  congr 1
  funext r
  simp [Routine.stream, Routine.optimize, lowerRoutine, dropLoads_lowerInstr, Instr.isLoad]

end Cartridge.Register
