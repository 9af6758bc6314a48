import Cartridge.Listing.Optimize
import Cartridge.Proofs.Listing.Encoding

/-!
# Comments do not matter

Blank lines and comments encode to nothing, and the optimizer looks through
them: the lines that speak are optimized as if they stood alone. A listing with
debugging information has the same lines that speak as one without.
-/

namespace Cartridge.Listing

open Register (Instr)

/-- Whether a line is more than blanks and comment. -/
def speaks (line : String) : Bool :=
  !isSilent (Text.trim line.toList)

theorem encodeLine_of_silent (h : speaks line = false) : encodeLine line = .ok [] := by
  have hsilent : isSilent (Text.trim line.toList) = true := by simpa [speaks] using h
  have hnothing : encodesNothing (Text.trim line.toList) = true :=
    (Bool.or_eq_true _ _).mpr (.inl hsilent)
  simp only [encodeLine, hnothing, if_true]

theorem flatMap_lineBytes_filter (lines : List String) :
    (lines.filter speaks).flatMap lineBytes = lines.flatMap lineBytes := by
  induction lines with
  | nil => rfl
  | cons line rest ih =>
    cases hspeaks : speaks line with
    | true => simp [hspeaks, ih]
    | false => simp [hspeaks, ih, lineBytes_eq (encodeLine_of_silent hspeaks)]

/-- Lines are assembled to what those among them that speak are assembled to. -/
theorem assembleFrom_filter_speaks {lines : List String} :
    assembleFrom n lines = .ok code ↔ assembleFrom m (lines.filter speaks) = .ok code := by
  rw [assembleFrom_eq_ok_iff, assembleFrom_eq_ok_iff]
  have hall : (∀ line ∈ lines, encodeLine line = .ok (lineBytes line)) ↔
      ∀ line ∈ lines.filter speaks, encodeLine line = .ok (lineBytes line) := by
    refine ⟨fun h line hline => h line (List.mem_filter.mp hline).1, fun h line hline => ?_⟩
    cases hspeaks : speaks line with
    | true => exact h line (List.mem_filter.mpr ⟨hline, hspeaks⟩)
    | false =>
      have hnone := encodeLine_of_silent hspeaks
      rw [lineBytes_eq hnone, hnone]
  rw [hall, flatMap_lineBytes_filter]

theorem filter_dropRepeats (previous : Option (List Char)) (lines : List String) :
    (dropRepeats previous lines).filter speaks = dropRepeats previous (lines.filter speaks) := by
  induction lines generalizing previous with
  | nil => rfl
  | cons line rest ih =>
    cases hsilent : isSilent (Text.trim line.toList) with
    | true =>
      have hspeaks : speaks line = false := by simp [speaks, hsilent]
      simp [dropRepeats, hsilent, hspeaks, ih]
    | false =>
      have hspeaks : speaks line = true := by simp [speaks, hsilent]
      by_cases hrepeat : previous = some (Text.trim line.toList)
      · simp [dropRepeats, hsilent, hspeaks, hrepeat, ih]
      · simp [dropRepeats, hsilent, hspeaks, hrepeat, ih]

theorem speaks_of_head (h : line.toList = c :: cs) (hblank : Text.isBlank c = false) :
    speaks line = (c != ';') := by
  rw [speaks, h, Text.trim_cons_of_not_blank hblank]
  simp [isSilent, bne]

theorem speaks_comment (text : String) : speaks (";" ++ text) = false := by
  have hline : (";" ++ text).toList = ';' :: text.toList := by simp
  exact speaks_of_head hline rfl

/-- Debugging information is in comments only. -/
theorem filter_speaks_streamLines (debugInfo : Bool) (stream : List Instr) :
    (streamLines debugInfo stream).filter speaks = (streamLines false stream).filter speaks := by
  have hjump (debugInfo : Bool) (target : String) (c : Option String) :
      (instrLine? debugInfo (.jump target c)).filter speaks = none := by
    cases hline : instrLine? debugInfo (.jump target c) with
    | none => rfl
    | some line =>
      obtain ⟨text, rfl⟩ := instrLine?_jump hline
      simp [Option.filter, speaks_comment]
  rw [streamLines, streamLines, List.filter_filterMap, List.filter_filterMap]
  congr 1
  funext i
  cases i with
  | load reg value => rfl
  | store reg address => rfl
  | call callee => rfl
  | label name => rfl
  | jump target c => rw [hjump, hjump]

/-- Whether lines that differ in what is silent are assembled, and to what, is the same before
and after optimizing. -/
theorem assemble_optimize_congr {l l' : Listing}
    (h : l.lines.filter speaks = l'.lines.filter speaks) :
    assemble (l.optimize level).lines = .ok code ↔
      assemble (l'.optimize level).lines = .ok code := by
  have hlines : (l.optimize level).lines.filter speaks =
      (l'.optimize level).lines.filter speaks := by
    unfold optimize
    split
    · exact h
    · rw [filter_dropRepeats, filter_dropRepeats, h]
  rw [assemble, assemble, assembleFrom_filter_speaks (m := 1), hlines,
    ← assembleFrom_filter_speaks]

end Cartridge.Listing
