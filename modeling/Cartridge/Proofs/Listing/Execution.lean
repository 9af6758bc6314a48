import Mathlib.Logic.Function.Basic
import Cartridge.Listing.Optimize
import Cartridge.Proofs.Listing.Lines

/-!
# Running listings

Machine code without jumps is run from its start to its end, on an accumulator
and a RAM of bytes. Running the lines one by one comes to the same, and stops at
the line at which assembling stops. No line does more when it is run again at
once, and blank lines and comments do nothing, so lines that repeat the last one
that speaks can be dropped.
-/

namespace Cartridge.Listing

/-- The state of the machine. -/
structure Processor where
  accumulator : UInt8
  ram : Nat → UInt8

def Operation.run : Operation → Processor → Processor
  | load value, s => { s with accumulator := value }
  | store address, s => { s with ram := Function.update s.ram address s.accumulator }

/-- The state after machine code, from start to end; none if it cannot be read. -/
def execute (code : List UInt8) (s : Processor) : Option Processor :=
  (decode code).map fun ops => ops.foldl (fun s op => op.run s) s

theorem Operation.run_run (op : Operation) (s : Processor) : op.run (op.run s) = op.run s := by
  cases op <;> simp [run]

theorem execute_nil (s : Processor) : execute [] s = some s := rfl

theorem execute_bytes_append (op : Operation) (h : op.Fits) (rest : List UInt8) (s : Processor) :
    execute (op.bytes ++ rest) s = execute rest (op.run s) := by
  rw [execute, decode_bytes_append h, Option.map_map]
  rfl

-- ---------------------------------------------------------------------------
-- Line by line
-- ---------------------------------------------------------------------------

/-- The state after what a line says; a malformed line has none. -/
def Reading.run : Reading → Processor → Except OperandFault Processor
  | nothing, s => .ok s
  | load value, s => .ok ((Operation.load (lowByte value)).run s)
  | store address, s => .ok ((Operation.store address).run s)
  | malformed fault, _ => .error fault

/-- The state after some lines, or the fault of the first that is malformed. -/
def runLines : List String → Processor → Except OperandFault Processor
  | [], s => .ok s
  | line :: rest, s =>
    match (reading (Text.trim line.toList)).run s with
    | .ok s' => runLines rest s'
    | .error fault => .error fault

theorem Reading.run_of_run {r : Reading} (h : r.run s = .ok s') : r.run s' = .ok s' := by
  cases r with
  | nothing => rfl
  | load value =>
    obtain rfl := Except.ok.inj h
    rw [run, Operation.run_run]
  | store address =>
    obtain rfl := Except.ok.inj h
    rw [run, Operation.run_run]
  | malformed fault => cases h

/-- What a line is encoded to does what the line says. -/
theorem run_of_encodeLine (h : encodeLine line = .ok code) (rest : List UInt8) (s : Processor) :
    ∃ s', (reading (Text.trim line.toList)).run s = .ok s' ∧
      execute (code ++ rest) s = execute rest s' := by
  have hmeans := means_reading (Text.trim line.toList)
  rw [encodeLine_of_reads hmeans] at h
  generalize reading (Text.trim line.toList) = r at hmeans h ⊢
  cases r with
  | nothing =>
    obtain rfl := Except.ok.inj h
    exact ⟨s, rfl, rfl⟩
  | load value =>
    obtain rfl := Except.ok.inj h
    exact ⟨_, rfl, execute_bytes_append (.load (lowByte value)) trivial rest s⟩
  | store address =>
    obtain rfl := Except.ok.inj h
    exact ⟨_, rfl, execute_bytes_append (.store address) (fits_of_means hmeans rfl) rest s⟩
  | malformed fault => cases h

/-- Assembled lines leave the machine where running them one by one leaves it. -/
theorem execute_of_assembleFrom {lines : List String} (h : assembleFrom n lines = .ok code)
    (s : Processor) : ∃ s', execute code s = some s' ∧ runLines lines s = .ok s' := by
  induction lines generalizing n code s with
  | nil =>
    obtain rfl := Except.ok.inj h
    exact ⟨s, execute_nil s, rfl⟩
  | cons line rest ih =>
    rw [assembleFrom] at h
    split at h
    · cases h
    · next first hfirst =>
      split at h
      · cases h
      · next more hmore =>
        obtain rfl := Except.ok.inj h
        obtain ⟨s₁, hrun, hexecute⟩ := run_of_encodeLine hfirst more s
        obtain ⟨s', hrest, hlines⟩ := ih hmore s₁
        refine ⟨s', hexecute.trans hrest, ?_⟩
        rw [runLines, hrun]
        exact hlines

/-- Lines that are refused are not run either, for the same fault. -/
theorem runLines_of_assembleFrom_error {lines : List String}
    (h : assembleFrom n lines = .error e) (s : Processor) :
    runLines lines s = .error e.fault := by
  induction lines generalizing n s with
  | nil => cases h
  | cons line rest ih =>
    rw [assembleFrom] at h
    split at h
    · next fault hfault =>
      obtain rfl := Except.error.inj h
      rw [runLines, Reading.encoded_eq_error_iff.mp
        ((encodeLine_of_reads (means_reading _)).symm.trans hfault)]
      rfl
    · next first hfirst =>
      split at h
      · next e' hrest =>
        obtain rfl := Except.error.inj h
        obtain ⟨s₁, hrun, -⟩ := run_of_encodeLine hfirst [] s
        rw [runLines, hrun]
        exact ih hrest s₁
      · cases h

theorem exists_assembleFrom_iff (lines : List String) (s : Processor) :
    (∃ code, assembleFrom n lines = .ok code) ↔ ∃ s', runLines lines s = .ok s' := by
  cases h : assembleFrom n lines with
  | ok code =>
    obtain ⟨s', -, hrun⟩ := execute_of_assembleFrom h s
    exact iff_of_true ⟨code, rfl⟩ ⟨s', hrun⟩
  | error e => simp [runLines_of_assembleFrom_error h s]

-- ---------------------------------------------------------------------------
-- Dropping repeated lines
-- ---------------------------------------------------------------------------

theorem reading_of_isSilent (h : isSilent text) : reading text = .nothing := by
  have hnothing : encodesNothing text = true := (Bool.or_eq_true _ _).mpr (.inl h)
  rw [reading, if_pos hnothing]

/-- The last line that spoke has no more effect in the state behind it, so a repetition has
none. -/
theorem runLines_dropRepeats (previous : Option (List Char)) (lines : List String) (s : Processor)
    (hprevious : ∀ text ∈ previous, (reading text).run s = .ok s) :
    runLines (dropRepeats previous lines) s = runLines lines s := by
  induction lines generalizing previous s with
  | nil => rfl
  | cons line rest ih =>
    rw [dropRepeats]
    split
    · next hsilent =>
      rw [runLines, runLines, reading_of_isSilent hsilent]
      exact ih previous s hprevious
    · split
      · next hrepeat =>
        rw [runLines, hprevious _ hrepeat]
        exact ih previous s hprevious
      · rw [runLines, runLines]
        cases hrun : (reading (Text.trim line.toList)).run s with
        | error fault => rfl
        | ok s₁ =>
          refine ih _ s₁ fun text htext => ?_
          obtain rfl := Option.some.inj htext
          exact Reading.run_of_run hrun

theorem runLines_optimize (level : OptLevel) (l : Listing) (s : Processor) :
    runLines (l.optimize level).lines s = runLines l.lines s := by
  unfold optimize
  split
  · rfl
  · exact runLines_dropRepeats none l.lines s (by simp)

/-- An optimized listing is assembled exactly if the whole one is. If they are not, it is for the
same fault; if they are, both machine codes run from start to end and take every state to the same
one. -/
theorem execute_optimize (level : OptLevel) (l : Listing) :
    ((∃ code, assemble (l.optimize level).lines = .ok code) ↔
      ∃ code, assemble l.lines = .ok code) ∧
    (∀ e e', assemble l.lines = .error e → assemble (l.optimize level).lines = .error e' →
      e'.fault = e.fault) ∧
    ∀ code code', assemble l.lines = .ok code →
      assemble (l.optimize level).lines = .ok code' →
      ∀ s, ∃ s', execute code s = some s' ∧ execute code' s = some s' := by
  have hsame := runLines_optimize level l
  have start : Processor := ⟨0, fun _ => 0⟩
  refine ⟨?_, fun e e' hwhole hopt => ?_, fun code code' hwhole hopt s => ?_⟩
  · rw [assemble, assemble, exists_assembleFrom_iff _ start, hsame, ← exists_assembleFrom_iff]
  · have hfault := runLines_of_assembleFrom_error hwhole start
    rw [← hsame, runLines_of_assembleFrom_error hopt start] at hfault
    exact Except.error.inj hfault
  · obtain ⟨s', hexecute, hrun⟩ := execute_of_assembleFrom hwhole s
    obtain ⟨s'', hexecute', hrun'⟩ := execute_of_assembleFrom hopt s
    rw [hsame, hrun] at hrun'
    obtain rfl := Except.ok.inj hrun'
    exact ⟨s', hexecute, hexecute'⟩

end Cartridge.Listing
