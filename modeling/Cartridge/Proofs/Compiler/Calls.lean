import Cartridge.Proofs.Compiler.Stages
import Cartridge.Proofs.Flat.Calls
import Cartridge.Proofs.Listing.Comments
import Cartridge.Proofs.Listing.Operands
import Cartridge.Proofs.Register.Lowering

/-!
# Calls in the final listing

Every call of the optimized flat program is a line of the listing, in order,
except that the optimizer of listings takes a call for a repeated line if the
line in front of it, comments aside, is a call of the same routine. Only branches
have no line of their own, and none stands between two calls, so such a call is
directly behind the other one in the flat program too.
-/

namespace Cartridge

-- ---------------------------------------------------------------------------
-- Calls of a lowered program
-- ---------------------------------------------------------------------------

namespace Register

open Pascal (isWord)

def Instr.callee? : Instr → Option String
  | .call callee => some callee
  | _ => none

def Instr.isJump : Instr → Bool
  | .jump _ _ => true
  | _ => false

/-- Labels and routines that are called have words for names. -/
def Instr.isNamed : Instr → Bool
  | .label name => isWord name
  | .call callee => isWord callee
  | _ => true

theorem filterMap_callee?_stream (h : lower p = .ok q) :
    q.stream.filterMap Instr.callee? = p.routines.flatMap fun r => Flat.calls r.instrs := by
  obtain ⟨m, -, hroutines, hstream⟩ := lower_cases h
  rw [hstream, hroutines, List.filterMap_flatMap, List.flatMap_map]
  congr 1
  funext r
  exact filterMap_lowerInstr (fun i => by cases i <;> rfl) r.instrs

theorem isNamed_of_lower {p : Pascal.Program} (hwords : p.all (fun _ => true) isWord)
    (h : lower (p.lower.optimize level) = .ok q) : ∀ i ∈ q.stream, i.isNamed := by
  intro i hi
  cases i with
  | label name =>
    obtain ⟨r, hr, hname⟩ := label_of_mem_stream h hi
    obtain ⟨hroutine, hlabels⟩ := Flat.isWord_of_mem_routines hwords hr
    obtain rfl | hname := hname
    · exact hroutine
    · exact hlabels name (List.mem_filterMap.mpr ⟨_, hname, rfl⟩)
  | call callee =>
    have hcallee : callee ∈ q.stream.filterMap Instr.callee? :=
      List.mem_filterMap.mpr ⟨_, hi, rfl⟩
    rw [filterMap_callee?_stream h] at hcallee
    obtain ⟨r, hr, hcallee⟩ := List.mem_flatMap.mp hcallee
    exact Flat.isWord_of_mem_calls hwords hr callee hcallee
  | load reg value => rfl
  | store reg address => rfl
  | jump target cond => rfl

/-- Without loads and jumps, an instruction of the stream stands for one of the flat program that
is no branch, or for the start of a routine. -/
theorem map_callee?_stream (h : lower p = .ok q) :
    ((q.stream.filter (!·.isLoad)).filter (!·.isJump)).map Instr.callee? =
      p.routines.flatMap fun r =>
        none :: (r.instrs.filter (!·.isBranch)).map Flat.Instr.callee? := by
  obtain ⟨m, -, hroutines, hstream⟩ := lower_cases h
  have hcode (code : List Flat.Instr) :
      (((code.flatMap (lowerInstr m)).filter (!·.isLoad)).filter (!·.isJump)).map Instr.callee? =
        (code.filter (!·.isBranch)).map Flat.Instr.callee? := by
    induction code with
    | nil => rfl
    | cons i rest ih =>
      rw [List.flatMap_cons, List.filter_append, List.filter_append, List.map_append, ih]
      cases i <;> rfl
  rw [hstream, hroutines, List.flatMap_map, List.filter_flatMap, List.filter_flatMap,
    List.map_flatMap]
  congr 1
  funext r
  exact congrArg (none :: ·) (hcode r.instrs)

end Register

namespace Listing

open Register (Instr)
open Pascal (isWord)

-- ---------------------------------------------------------------------------
-- Lines that call
-- ---------------------------------------------------------------------------

def callMnemonic : List Char := "JSR ".toList

/-- The routine that a line calls. -/
def callee? (line : String) : Option String :=
  (callMnemonic.isPrefixOf? line.toList).map String.ofList

theorem callee?_eq_some_iff : callee? line = some callee ↔ line = "JSR " ++ callee := by
  rw [callee?, Option.map_eq_some_iff]
  constructor
  · rintro ⟨rest, hrest, rfl⟩
    have happend := List.isPrefixOf?_eq_some_iff_append_eq.mp hrest
    simp [← String.toList_inj, ← happend, callMnemonic]
  · rintro rfl
    refine ⟨callee.toList, List.isPrefixOf?_eq_some_iff_append_eq.mpr ?_, String.ofList_toList⟩
    rw [String.toList_append]
    rfl

theorem toList_call (callee : String) :
    ("JSR " ++ callee).toList = 'J' :: ("SR ".toList ++ callee.toList) := by
  simp

theorem callee?_of_silent (h : speaks line = false) : callee? line = none := by
  rw [Option.eq_none_iff_forall_ne_some]
  intro callee hcallee
  rw [callee?_eq_some_iff.mp hcallee, speaks_of_head (toList_call callee) rfl] at h
  cases h

/-- Blanks around a line have no part in what it calls. -/
def Told (line : String) : Prop :=
  callee? (Text.trimmed line) = callee? line

theorem Told.callee?_eq {line line' : String} (h : Told line) (h' : Told line')
    (htrim : Text.trim line.toList = Text.trim line'.toList) : callee? line = callee? line' := by
  rw [← h, ← h', Text.trimmed, Text.trimmed, htrim]

/-- The lines behind a line `first` that was kept. -/
theorem filterMap_dropRepeats_some {first : String} {lines : List String} (hfirst : Told first)
    (h : ∀ line ∈ lines, speaks line → Told line) :
    (callee? first).toList ++
        (dropRepeats (some (Text.trim first.toList)) lines).filterMap callee? =
      (((lines.filter speaks).map callee?).destutter' (· ≠ ·) (callee? first)).reduceOption := by
  have hcons (line : String) (rest : List String) : (line :: rest).filterMap callee? =
      (callee? line).toList ++ rest.filterMap callee? := by
    cases hline : callee? line <;> simp [hline]
  induction lines generalizing first with
  | nil => cases hcallee : callee? first <;> simp [dropRepeats]
  | cons line rest ih =>
    obtain ⟨hline, hrest⟩ := List.forall_mem_cons.mp h
    cases hsilent : isSilent (Text.trim line.toList) with
    | true =>
      have hspeaks : speaks line = false := by simp [speaks, hsilent]
      simpa [dropRepeats, hsilent, hspeaks, callee?_of_silent hspeaks] using ih hfirst hrest
    | false =>
      have hspeaks : speaks line = true := by simp [speaks, hsilent]
      have htold := hline hspeaks
      rw [List.filter_cons_of_pos hspeaks, List.map_cons]
      by_cases hrepeat : Text.trim first.toList = Text.trim line.toList
      · have hsame : ¬ callee? first ≠ callee? line := not_not.mpr (hfirst.callee?_eq htold hrepeat)
        rw [List.destutter'_cons_neg (h := hsame), ← ih hfirst hrest]
        simp [dropRepeats, hsilent, hrepeat]
      · have hkept : dropRepeats (some (Text.trim first.toList)) (line :: rest) =
            line :: dropRepeats (some (Text.trim line.toList)) rest := by
          simp [dropRepeats, hsilent, hrepeat]
        rw [hkept, hcons, ih htold hrest]
        by_cases hdiffer : callee? first ≠ callee? line
        · rw [List.destutter'_cons_pos (h := hdiffer)]
          cases hcallee : callee? first <;> simp
        · -- Two lines that call the same routine are equal, so neither of these is a call.
          have hsame := not_not.mp hdiffer
          rw [List.destutter'_cons_neg (h := hdiffer), hsame]
          cases hcallee : callee? line with
          | none => simp
          | some callee =>
            have heq : first = line := by
              rw [callee?_eq_some_iff.mp hcallee, callee?_eq_some_iff.mp (hsame.trans hcallee)]
            exact absurd (heq ▸ rfl) hrepeat

/-- Calls are dropped exactly where a call of the same routine is the last line that speaks. -/
theorem filterMap_dropRepeats {lines : List String}
    (h : ∀ line ∈ lines, speaks line → Told line) :
    (dropRepeats none lines).filterMap callee? =
      unrepeated ((lines.filter speaks).map callee?) := by
  induction lines with
  | nil => rfl
  | cons line rest ih =>
    obtain ⟨hline, hrest⟩ := List.forall_mem_cons.mp h
    cases hsilent : isSilent (Text.trim line.toList) with
    | true =>
      have hspeaks : speaks line = false := by simp [speaks, hsilent]
      simpa [dropRepeats, hsilent, hspeaks, callee?_of_silent hspeaks] using ih hrest
    | false =>
      have hspeaks : speaks line = true := by simp [speaks, hsilent]
      have hkept : dropRepeats none (line :: rest) =
          line :: dropRepeats (some (Text.trim line.toList)) rest := by
        simp [dropRepeats, hsilent]
      rw [hkept, List.filter_cons_of_pos hspeaks, List.map_cons, unrepeated, List.destutter_cons',
        ← filterMap_dropRepeats_some (hline hspeaks) hrest]
      cases hcallee : callee? line <;> simp [hcallee]

-- ---------------------------------------------------------------------------
-- Lines of a stream
-- ---------------------------------------------------------------------------

theorem told_of_trim (h : Text.trim line.toList = line.toList) : Told line := by
  rw [Told, Text.trimmed, h, String.ofList_toList]

theorem callee?_of_head (h : line.toList = c :: cs) (hc : c ≠ 'J') : callee? line = none := by
  rw [Option.eq_none_iff_forall_ne_some]
  intro callee hcallee
  rw [callee?_eq_some_iff.mp hcallee, String.toList_append] at h
  exact hc (List.cons.inj h).1.symm

theorem told_of_head (h : line.toList = c :: cs) (hblank : Text.isBlank c = false) (hc : c ≠ 'J') :
    Told line := by
  have htrim : (Text.trimmed line).toList = c :: Text.trimRight cs := by
    rw [Text.toList_trimmed, h, Text.trim_cons_of_not_blank hblank]
  rw [Told, callee?_of_head htrim hc, callee?_of_head h hc]

theorem callee?_label (h : isWord name) : callee? (name ++ ":") = none := by
  rw [Option.eq_none_iff_forall_ne_some]
  intro callee hcallee
  have hblank : Text.isBlank ' ' = false := by
    apply Pascal.isBlank_of_mem_label h
    rw [callee?_eq_some_iff.mp hcallee, String.toList_append]
    exact List.mem_append_left _ (by decide)
  exact absurd hblank (by decide)

theorem told_call (h : isWord callee) : Told ("JSR " ++ callee) := by
  obtain ⟨c, cs, hcallee, -, hpart⟩ := Pascal.isWord_cons h
  have hne : callee.toList ≠ [] := by simp [hcallee]
  obtain ⟨init, last, hlast⟩ : ∃ init last, callee.toList = init ++ [last] :=
    ⟨_, _, (List.dropLast_append_getLast hne).symm⟩
  have hblank : Text.isBlank last = false :=
    Pascal.isBlank_of_isWordPart (hpart last (by simp [hlast]))
  apply told_of_trim
  have hline : ("JSR " ++ callee).toList = 'J' :: (['S', 'R', ' '] ++ init ++ [last]) := by
    simp [hlast]
  rw [hline]
  exact Text.trim_eq_self_of_ends rfl hblank

/-- The line of an instruction tells what it calls, and speaks unless it is a jump. -/
theorem callee?_of_instrLine {i : Instr} (hi : i.isNamed)
    (h : instrLine? debugInfo i = some line) :
    callee? line = i.callee? ∧ speaks line = !i.isJump ∧ Told line := by
  cases i with
  | load reg value =>
    obtain rfl := Option.some.inj (instrLine?_load.symm.trans h)
    have hline : ("LDA #" ++ value).toList = 'L' :: ("DA #".toList ++ value.toList) := by simp
    exact ⟨callee?_of_head hline (by decide), speaks_of_head hline rfl,
      told_of_head hline rfl (by decide)⟩
  | store reg address =>
    obtain rfl := Option.some.inj (instrLine?_store.symm.trans h)
    have hline : ("STA " ++ address).toList = 'S' :: ("TA ".toList ++ address.toList) := by simp
    exact ⟨callee?_of_head hline (by decide), speaks_of_head hline rfl,
      told_of_head hline rfl (by decide)⟩
  | call callee =>
    obtain rfl := Option.some.inj (instrLine?_call.symm.trans h)
    exact ⟨callee?_eq_some_iff.mpr rfl, speaks_of_head (toList_call callee) rfl, told_call hi⟩
  | label name =>
    obtain rfl := Option.some.inj (instrLine?_label.symm.trans h)
    obtain ⟨c, cs, hname, hc, -⟩ := Pascal.isWord_cons hi
    have hline : (name ++ ":").toList = c :: (cs ++ [':']) := by simp [hname]
    have hblank := Pascal.isBlank_of_mem_label hi
    have hspeaks := speaks_of_head hline (hblank c (by simp [hline]))
    refine ⟨callee?_label hi, ?_, told_of_trim (Text.trim_eq_self hblank)⟩
    have hne : c ≠ ';' := by
      rintro rfl
      exact absurd hc (by decide)
    rw [hspeaks, bne_iff_ne.mpr hne]
    rfl
  | jump target c =>
    obtain ⟨text, rfl⟩ := instrLine?_jump h
    have hline : (";" ++ text).toList = ';' :: text.toList := by simp
    exact ⟨callee?_of_head hline (by decide), speaks_of_head hline rfl,
      told_of_head hline rfl (by decide)⟩

theorem filterMap_streamLines {stream : List Instr} (h : ∀ i ∈ stream, i.isNamed) :
    (streamLines debugInfo stream).filterMap callee? = stream.filterMap Instr.callee? := by
  rw [streamLines, List.filterMap_filterMap]
  refine List.filterMap_congr fun i hi => ?_
  cases hline : instrLine? debugInfo i with
  | some line => exact (callee?_of_instrLine (h i hi) hline).1
  | none =>
    cases i with
    | jump target c => rfl
    | _ => cases hline

theorem map_callee?_streamLines {stream : List Instr} (h : ∀ i ∈ stream, i.isNamed) :
    ((streamLines debugInfo stream).filter speaks).map callee? =
      (stream.filter (!·.isJump)).map Instr.callee? := by
  induction stream with
  | nil => rfl
  | cons i rest ih =>
    obtain ⟨hi, hrest⟩ := List.forall_mem_cons.mp h
    have hlines := ih hrest
    rw [streamLines] at hlines ⊢
    cases hline : instrLine? debugInfo i with
    | none =>
      rw [List.filterMap_cons_none hline]
      cases i with
      | jump target c => exact hlines
      | _ => cases hline
    | some line =>
      obtain ⟨hcallee, hspeaks, -⟩ := callee?_of_instrLine hi hline
      rw [List.filterMap_cons_some hline]
      cases hjump : i.isJump with
      | true => simpa [hspeaks, hjump] using hlines
      | false => simp [hspeaks, hjump, hcallee, hlines]

/-- The calls of a final listing: all calls of the flat program if nothing is optimized, else those
that are no repeats. -/
theorem filterMap_callee?_optimize {p : Pascal.Program} (hwords : p.all (fun _ => true) isWord)
    (h : Register.lower (p.lower.optimize level) = .ok q) :
    ((ofProgram debugInfo (q.optimize level)).optimize level).lines.filterMap callee? =
      (p.lower.optimize level).routines.flatMap fun r =>
        if level = .off then Flat.calls r.instrs else Flat.distinctCalls r.instrs := by
  have hnamed := Register.isNamed_of_lower hwords h
  by_cases hlevel : level = .off
  · subst hlevel
    exact (filterMap_streamLines hnamed).trans (Register.filterMap_callee?_stream h)
  · have hstream := Register.stream_optimize h hlevel
    have hnamed' : ∀ i ∈ (q.optimize level).stream, i.isNamed := by
      intro i hi
      rw [hstream] at hi
      exact hnamed i (List.mem_filter.mp hi).1
    have htold : ∀ line ∈ streamLines debugInfo (q.optimize level).stream,
        speaks line → Told line := by
      intro line hline _
      obtain ⟨i, hi, hline⟩ := List.mem_filterMap.mp hline
      exact (callee?_of_instrLine (hnamed' i hi) hline).2.2
    have hlines : ((ofProgram debugInfo (q.optimize level)).optimize level).lines =
        dropRepeats none (streamLines debugInfo (q.optimize level).stream) := by
      rw [optimize, if_neg hlevel]
      rfl
    rw [hlines, filterMap_dropRepeats htold, map_callee?_streamLines hnamed', hstream,
      Register.map_callee?_stream h, unrepeated_flatMap]
    simp only [hlevel, if_false]
    refine List.flatMap_congr fun r hr => ?_
    exact Flat.unrepeated_filter_isBranch (Flat.joined_of_mem_routines hlevel hr)

end Listing

-- ---------------------------------------------------------------------------
-- The listing of a source
-- ---------------------------------------------------------------------------

/-- The calls of the final listing are those of the optimized flat program, routine by routine;
if the optimizer is on, without those that repeat the instruction in front of them. -/
theorem listing_calls (options : CompileOptions) (source : Source)
    (h : (Stages.atari2600.buildIr options source).outcome = .ok a) :
    a.listing.lines.filterMap Listing.callee? =
      a.flat.routines.flatMap fun r =>
        if options.effectiveLevel = .off then Flat.calls r.instrs
        else Flat.distinctCalls r.instrs := by
  obtain ⟨-, p, hparse, warnings, -, q, hlower, rfl⟩ := Stages.buildIr_eq_ok_iff.mp h
  exact Listing.filterMap_callee?_optimize (Stages.all_isWord_named hparse) hlower

/-- A call of another routine and an empty branch keep calls apart. -/
theorem listing_calls_apart :
    let options : CompileOptions := { optimize := true, optLevel := .full, debugInfo := true }
    let source : Source := ⟨"begin Flash; Beep; Flash; if x then; Flash; Flash end.", "", "pas"⟩
    ∃ a, (Stages.atari2600.buildIr options source).outcome = .ok a ∧
      a.listing.lines.filterMap Listing.callee? =
        a.flat.routines.flatMap (fun r => Flat.distinctCalls r.instrs) ∧
      a.listing.lines.filterMap Listing.callee? = ["Flash", "Beep", "Flash", "Flash"] := by
  intro options source
  let p : Pascal.Program := { modules := [⟨"main", [{ name := "main", body :=
    [.eval (.call "Flash" []), .eval (.call "Beep" []), .eval (.call "Flash" []),
      .ifThen (.ident "x") [], .eval (.call "Flash" []), .eval (.call "Flash" [])] }]⟩] }
  let ks : List Pascal.Kind :=
    [.keyword .begin, .ident "Flash", .sign .semicolon, .ident "Beep", .sign .semicolon,
      .ident "Flash", .sign .semicolon, .keyword .if_, .ident "x", .keyword .then_,
      .sign .semicolon, .ident "Flash", .sign .semicolon, .ident "Flash", .keyword .end_,
      .sign .dot]
  have hlex : (Pascal.lexFrom 0 source.text.toList).map Pascal.kinds = .ok ks := by
    dsimp only [source]
    with_unfolding_all rfl
  have hparse : Pascal.parse source.text = .ok p :=
    Pascal.parse_of_kinds hlex (by with_unfolding_all rfl)
  have haccepts : Pascal.accepts source.extension := by decide
  have hvalid : Stages.atari2600.validate options p = .ok [] := rfl
  obtain ⟨q, hlower⟩ : ∃ q, Register.lower ((Stages.named source p).lower.optimize .full) = .ok q :=
    ⟨_, rfl⟩
  have hbuild := Stages.buildIr_eq_ok_iff.mpr
    ⟨haccepts, p, hparse, [], hvalid, q, hlower, rfl⟩
  have hcalls := listing_calls options source hbuild
  have hroutines : (p.lower.optimize .full).routines.flatMap
      (fun r => Flat.distinctCalls r.instrs) = ["Flash", "Beep", "Flash", "Flash"] := by
    with_unfolding_all rfl
  exact ⟨_, hbuild, hcalls, hcalls.trans hroutines⟩

/-- The listing has one line for two calls of `Flash`. -/
theorem listing_loses_call :
    let options : CompileOptions := { optimize := true, optLevel := .basic }
    let source : Source := ⟨"procedure Flash; begin end; begin Flash; Flash end.", "", "pas"⟩
    ∃ a, (Stages.atari2600.buildIr options source).outcome = .ok a ∧
      a.flat.routines.flatMap (fun r => Flat.calls r.instrs) = ["Flash", "Flash"] ∧
      a.listing.lines = ["Flash:", "main:", "JSR Flash"] ∧
      a.listing.lines.filterMap Listing.callee? ≠
        a.flat.routines.flatMap (fun r => Flat.calls r.instrs) := by
  intro options source
  let p : Pascal.Program := { modules := [⟨"main", [{ name := "Flash", body := [] },
    { name := "main", body := [.eval (.call "Flash" []), .eval (.call "Flash" [])] }]⟩] }
  let q : Register.Program :=
    { sourceFile := ""
      modules := [⟨"main", [⟨"Flash", []⟩, ⟨"main", [.call "Flash", .call "Flash"]⟩]⟩]
      stream := [.label "Flash", .label "main", .call "Flash", .call "Flash"] }
  let ks : List Pascal.Kind :=
    [.keyword .procedure, .ident "Flash", .sign .semicolon, .keyword .begin, .keyword .end_,
      .sign .semicolon, .keyword .begin, .ident "Flash", .sign .semicolon, .ident "Flash",
      .keyword .end_, .sign .dot]
  have hlex : (Pascal.lexFrom 0 source.text.toList).map Pascal.kinds = .ok ks := by
    dsimp only [source]
    with_unfolding_all rfl
  have hparse : Pascal.parse source.text = .ok p :=
    Pascal.parse_of_kinds hlex (by with_unfolding_all rfl)
  have haccepts : Pascal.accepts source.extension := by decide
  have hvalid : Stages.atari2600.validate options p = .ok [] := rfl
  have hlower : Register.lower ((Stages.named source p).lower.optimize .basic) = .ok q := by
    with_unfolding_all rfl
  have hbuild := Stages.buildIr_eq_ok_iff.mpr
    ⟨haccepts, p, hparse, [], hvalid, q, hlower, rfl⟩
  have hcalls : (p.lower.optimize .basic).routines.flatMap (fun r => Flat.calls r.instrs) =
      ["Flash", "Flash"] := by
    with_unfolding_all rfl
  have hlines : (Stages.finalListing options q).lines = ["Flash:", "main:", "JSR Flash"] := by
    with_unfolding_all rfl
  have hone : (Stages.finalListing options q).lines.filterMap Listing.callee? = ["Flash"] := by
    rw [hlines]
    with_unfolding_all rfl
  exact ⟨_, hbuild, hcalls, hlines, fun hsame =>
    absurd (hone.symm.trans (hsame.trans hcalls)) (by decide)⟩

end Cartridge
