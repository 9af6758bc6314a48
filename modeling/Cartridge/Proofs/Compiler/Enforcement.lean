import Mathlib.Control.Monad.Basic
import Cartridge.Proofs.Compiler.Stages

/-!
# Strict and advisory enforcement

Enforcement is looked at in one place, where violations have been found. So the
two modes differ only for a source that is read and has violations: the strict
compilation fails with all of them, and the advisory one keeps their messages as
warnings, in the same order, however its later stages end.
-/

namespace Cartridge

namespace Stages

variable {s : Stages} {options : CompileOptions} {p : Pascal.Program} {profile : Profile}
  {granted : List String} {ds : List Diagnostic} {failure : Failure}

-- ---------------------------------------------------------------------------
-- Violations
-- ---------------------------------------------------------------------------

theorem violations_eq_nil_iff (h : s.capabilities.offer = .ok (profile, granted)) :
    s.violations options p = .ok [] ↔
      requestViolations options profile = [] ∧ programViolations p profile.base granted = [] := by
  simp [violations_of_offer h]

theorem violations_strict (h : s.capabilities.offer = .ok (profile, granted))
    (hmode : options.enforcement = .strict) :
    s.violations options p = .ok (
      (requestViolations options profile).map (fun v =>
        { code := .requestExceedsBackend, message := v.message }) ++
      (programViolations p profile.base granted).map fun v =>
        { code := .capabilityDenied, message := v.message
          notes := [s!"{options.target.id} provides {profile.base.text}"] }) := by
  rw [violations_of_offer h, hmode]

/-- The messages of violations are those that the two checks give, in either mode. -/
theorem map_message_violations (h : s.capabilities.offer = .ok (profile, granted))
    (hds : s.violations options p = .ok ds) :
    ds.map (·.message) =
      (requestViolations options profile ++ programViolations p profile.base granted).map
        Violation.message := by
  rw [violations_of_offer h] at hds
  cases hds
  simp only [List.map_append, List.map_map]
  rfl

theorem violations_of_offer_error (h : s.capabilities.offer = .error failure) :
    s.violations options p = .error failure := by
  rw [violations, h]
  rfl

theorem validate_of_violations_error (h : s.violations options p = .error failure) :
    s.validate options p = .error failure := by
  rw [validate, h]
  rfl

theorem validate_strict (h : s.violations options p = .ok ds) (hne : ds ≠ [])
    (hmode : options.enforcement = .strict) :
    s.validate options p = .error (.error (.capability ds)) := by
  obtain ⟨d, ds, rfl⟩ := List.exists_cons_of_ne_nil hne
  rw [validate, h, hmode]
  rfl

theorem validate_advisory (h : s.violations options p = .ok ds)
    (hmode : options.enforcement = .advisory) :
    s.validate options p = .ok (ds.map (·.message)) := by
  rw [validate, h, hmode]
  cases ds <;> rfl

end Stages

/-- The two modes of enforcement agree unless a source is read, the backend says what it offers,
and there are violations. A strict compilation then fails with those of the request followed by
those of the routines, in declaration order, and their messages are the warnings of an advisory
one, which may fail later or not. -/
theorem compile_enforcement (s : Stages) (options : CompileOptions) (source : Source) :
    let strictOptions := { options with enforcement := .strict }
    let strict := s.compile strictOptions source
    let advisory := s.compile { options with enforcement := .advisory } source
    (∀ failure, s.read source = .error failure → strict = advisory) ∧
    ∀ p, s.read source = .ok p →
      (∀ failure, s.capabilities.offer = .error failure → strict = advisory) ∧
      ∀ profile granted, s.capabilities.offer = .ok (profile, granted) →
        let requested := requestViolations options profile
        let needed := programViolations p profile.base granted
        (requested = [] ∧ needed = [] → strict = advisory) ∧
        (¬ (requested = [] ∧ needed = []) →
          (s.build strictOptions source).outcome =
            .error (.error (.capability strict.diagnostics)) ∧
          strict.success = false ∧ strict.code = [] ∧ strict.warnings = [] ∧
          strict.diagnostics =
            requested.map (fun v => { code := .requestExceedsBackend, message := v.message }) ++
              needed.map (fun v =>
                { code := .capabilityDenied, message := v.message
                  notes := [s!"{options.target.id} provides {profile.base.text}"] }) ∧
          advisory.warnings = strict.diagnostics.map (·.message)) := by
  intro strictOptions strict advisory
  let advisoryOptions := { options with enforcement := .advisory }
  have hsame (h : s.build strictOptions source = s.build advisoryOptions source) :
      strict = advisory := by
    change CompileResult.ofReport strictOptions _ _ (s.build strictOptions source) = _
    rw [h]
    rfl
  refine ⟨fun failure hread => hsame ?_, fun p hread =>
    ⟨fun failure hoffer => hsame ?_, fun profile granted hoffer => ?_⟩⟩
  · rw [Stages.build_of_read_error hread, Stages.build_of_read_error hread]
  · have hfails (o : CompileOptions) : s.validate o p = .error failure :=
      Stages.validate_of_violations_error (Stages.violations_of_offer_error hoffer)
    rw [Stages.build_of_validate_error hread (hfails _),
      Stages.build_of_validate_error hread (hfails _)]
  intro requested needed
  constructor
  · intro hnone
    have hstrict : s.violations strictOptions p = .ok [] :=
      (Stages.violations_eq_nil_iff hoffer).mpr hnone
    have hadvisory : s.violations advisoryOptions p = .ok [] :=
      (Stages.violations_eq_nil_iff hoffer).mpr hnone
    apply hsame
    rw [Stages.build_of_validate hread (Stages.validate_of_nil hstrict),
      Stages.build_of_validate hread (Stages.validate_of_nil hadvisory)]
    -- The stages behind validation do not see the mode.
    rfl
  · intro hsome
    obtain ⟨ds, hviolations, hds⟩ : ∃ ds, s.violations strictOptions p = .ok ds ∧ ds = _ :=
      ⟨_, Stages.violations_strict hoffer rfl, rfl⟩
    obtain ⟨advice, hadvice⟩ : ∃ advice, s.violations advisoryOptions p = .ok advice :=
      ⟨_, Stages.violations_of_offer hoffer⟩
    have hne : ds ≠ [] := by
      rintro rfl
      have hnone := (Stages.violations_eq_nil_iff hoffer).mp hviolations
      exact hsome hnone
    have hbuild : s.build strictOptions source = ⟨[], .error (.error (.capability ds))⟩ :=
      Stages.build_of_validate_error hread (Stages.validate_strict hviolations hne rfl)
    have hstrict : strict = .fail strictOptions source.file [] (.capability ds) :=
      Stages.compile_of_build_error hbuild
    have hdiagnostics : strict.diagnostics = ds := by
      rw [hstrict]
      rfl
    have hadvisory : advisory.warnings = advice.map (·.message) := by
      have hwarnings : advisory.warnings = (s.build advisoryOptions source).warnings :=
        Stages.warnings_compile
      rw [hwarnings, Stages.build_of_validate hread (Stages.validate_advisory hadvice rfl)]
    refine ⟨?_, ?_, ?_, ?_, ?_, ?_⟩
    · rw [hbuild, hdiagnostics]
    · rw [hstrict]
      rfl
    · rw [hstrict]
      rfl
    · rw [hstrict]
      rfl
    · rw [hdiagnostics, hds]
      rfl
    · rw [hadvisory, hdiagnostics, Stages.map_message_violations hoffer hadvice,
        Stages.map_message_violations hoffer hviolations]
      rfl

/-- The warnings of a request and a routine that ask for too much outlive a crash behind them. -/
theorem compile_enforcement_crash :
    let s : Stages := { Stages.atari2600 with toRegister := fun _ => .error (.crash none) }
    let options : CompileOptions := { tier := .l3, extensions := ["Ext.Net"] }
    let source : Source :=
      ⟨"procedure Flash; requires L4 via Ext.Video; begin end; begin x := 1 end.", "a.pas", "pas"⟩
    let strict := s.compile { options with enforcement := .strict } source
    let advisory := s.compile { options with enforcement := .advisory } source
    strict.success = false ∧ strict.code = [] ∧ strict.warnings = [] ∧
      strict.diagnostics.map (·.code) =
        [.requestExceedsBackend, .requestExceedsBackend, .capabilityDenied] ∧
      advisory.warnings = strict.diagnostics.map (·.message) ∧
      advisory.warnings =
        ["Requested profile L3 exceeds backend base capability L1",
          "Backend does not support extension 'Ext.Net'", "Function 'Flash' requires L4"] ∧
      advisory.success = false := by
  intro s options source strict advisory
  let p : Pascal.Program := { modules := [⟨"main",
    [{ name := "Flash", body := [], tier := .l4, extension? := some "Ext.Video" },
      { name := "main", body := [.assign "x" (.int 1)] }]⟩] }
  let ks : List Pascal.Kind :=
    [.keyword .procedure, .ident "Flash", .sign .semicolon, .keyword .requires, .ident "L4",
      .keyword .via, .ident "Ext", .sign .dot, .ident "Video", .sign .semicolon,
      .keyword .begin, .keyword .end_, .sign .semicolon,
      .keyword .begin, .ident "x", .sign .assign, .int 1, .keyword .end_, .sign .dot]
  have hlex : (Pascal.lexFrom 0 source.text.toList).map Pascal.kinds = .ok ks := by
    dsimp only [source]
    with_unfolding_all rfl
  have hparse : Pascal.parse source.text = .ok p :=
    Pascal.parse_of_kinds hlex (by with_unfolding_all rfl)
  have haccepts : Pascal.accepts source.extension := by decide
  have hread : s.read source = .ok (Stages.named source p) :=
    Stages.read_eq_ok_iff.mpr ⟨haccepts, p, hparse, rfl⟩
  obtain ⟨-, hsuccess, hcode, hwarnings, hdiagnostics, hadvisory⟩ :=
    (((compile_enforcement s options source).2 _ hread).2 _ _ rfl).2 (by decide)
  have hmessages : strict.diagnostics.map (·.message) =
      ["Requested profile L3 exceeds backend base capability L1",
        "Backend does not support extension 'Ext.Net'", "Function 'Flash' requires L4"] := by
    rw [hdiagnostics]
    with_unfolding_all rfl
  have hcodes : strict.diagnostics.map (·.code) =
      [.requestExceedsBackend, .requestExceedsBackend, .capabilityDenied] := by
    rw [hdiagnostics]
    rfl
  refine ⟨hsuccess, hcode, hwarnings, hcodes, hadvisory, hadvisory.trans hmessages, ?_⟩
  have hvalid : s.validate { options with enforcement := .advisory } (Stages.named source p) =
      .ok _ := Stages.validate_advisory (Stages.violations_of_offer rfl) rfl
  have hbuild := Stages.build_of_validate hread hvalid
  have hfail : advisory = .fail _ _ _ _ := Stages.compile_of_build_error hbuild
  rw [hfail]
  rfl

end Cartridge
