import Cartridge.Proofs.Compiler.Stages

/-!
# Checking and compiling

A check is the front of a compilation: both read and validate the source, and a
compilation that gets past that has the warnings of the check. What is behind it
for the Atari cannot crash and fails for three reasons only: the variables do not
fit in RAM, no backend serves the target, or a line of the listing has no
encoding.
-/

namespace Cartridge

namespace Stages

section

variable {s : Stages} {options : CompileOptions} {source : Source} {p : Pascal.Program}
  {failure : Failure}

-- ---------------------------------------------------------------------------
-- The common front
-- ---------------------------------------------------------------------------

theorem check_of_prepare_error (h : s.prepare options source = .error failure) :
    s.check options source = .fail options source.file [] failure.toError := by
  simp [check, checkOnly, h, CompileResult.ofReport]

theorem check_of_prepare (h : s.prepare options source = .ok (p, warnings)) :
    s.check options source = .succeed options source.file warnings [] := by
  simp [check, checkOnly, h, CompileResult.ofReport]

theorem check_success_iff :
    (s.check options source).success = true ↔
      ∃ p warnings, s.prepare options source = .ok (p, warnings) := by
  rcases hprepare : s.prepare options source with failure | ⟨p, warnings⟩
  · simp [check_of_prepare_error hprepare, CompileResult.fail]
  · simp [check_of_prepare hprepare, CompileResult.succeed]

theorem compile_eq_check (h : (s.check options source).success = false) :
    s.compile options source = s.check options source := by
  cases hprepare : s.prepare options source with
  | ok r => simp [check_of_prepare hprepare, CompileResult.succeed] at h
  | error failure =>
    rw [check_of_prepare_error hprepare]
    exact compile_of_build_error (build_of_prepare_error hprepare)

theorem warnings_compile_eq_check (h : (s.check options source).success = true) :
    (s.compile options source).warnings = (s.check options source).warnings := by
  obtain ⟨p, warnings, hprepare⟩ := check_success_iff.mp h
  rw [warnings_compile, build_of_prepare hprepare, check_of_prepare hprepare]
  rfl

end

-- ---------------------------------------------------------------------------
-- Behind validation
-- ---------------------------------------------------------------------------

/-- How a stage behind validation may fail. -/
inductive LateFailure : Failure → Prop
  | target (t : Target) : LateFailure (.error (unsupportedTarget t))
  | lowering (e : Register.ZeroPageExhausted) : LateFailure (.error (loweringFailed e))
  | encoding (e : Listing.EncodeError) : LateFailure (.error (encodingFailed e))

variable {failure : Failure}

theorem LateFailure.diagnostics (h : LateFailure failure) :
    ∃ d, failure.toError.diagnostics = [d] ∧ d.code.text ∈ ["E2001", "E2003", "E2004"] ∧
      d.message = failure.toError.message := by
  cases h with
  | target t => exact ⟨_, rfl, .head _, rfl⟩
  | lowering e => exact ⟨_, rfl, .tail _ (.head _), rfl⟩
  | encoding e => exact ⟨_, rfl, .tail _ (.tail _ (.head _)), rfl⟩

theorem lateFailure_of_descend (h : atari2600.descend options p warnings = .error failure) :
    LateFailure failure := by
  rw [descend_eq] at h
  cases hlower : Register.lower (p.lower.optimize options.effectiveLevel) with
  | ok q => simp [hlower, Except.mapError, Except.map] at h
  | error e =>
    obtain rfl : .error (loweringFailed e) = failure := by
      simpa [hlower, Except.mapError, Except.map] using h
    exact .lowering e

theorem lateFailure_of_generate (h : atari2600.generate options l = .error failure) :
    LateFailure failure := by
  rw [generate_eq] at h
  split at h
  · unfold Rom.ofListing at h
    cases hassemble : Listing.assemble l.lines with
    | ok code => simp [hassemble, Except.mapError] at h
    | error fault =>
      obtain rfl : .error (encodingFailed fault) = failure := by
        simpa [hassemble, Except.mapError] using h
      exact .encoding fault
  · cases h
    exact .target options.target

theorem lateFailure_of_finish (h : atari2600.finish options a = .error failure) :
    LateFailure failure := by
  cases hcode : atari2600.generate options.codeGen a.listing with
  | ok code => simp [finish, hcode, bind, Except.bind, pure, Except.pure] at h
  | error e =>
    obtain rfl : e = failure := by simpa [finish, hcode, bind, Except.bind] using h
    exact lateFailure_of_generate hcode

/-- Past reading and validation, the stages for the Atari end in one of three ways. -/
theorem lateFailure_of_build (hprepare : atari2600.prepare options source = .ok (p, warnings))
    (h : (atari2600.build options source).outcome = .error failure) : LateFailure failure := by
  rw [build_of_prepare hprepare] at h
  cases hdescend : atari2600.descend options p warnings with
  | error e =>
    obtain rfl : e = failure := by simpa [hdescend, Except.bind] using h
    exact lateFailure_of_descend hdescend
  | ok a =>
    rw [hdescend] at h
    exact lateFailure_of_finish h

end Stages

/-- A check that fails is the compilation; behind one that succeeds the warnings stay, and for the
Atari only the target, the lowering or the encoding can fail. -/
theorem compile_check (options : CompileOptions) (source : Source) :
    (∀ s : Stages, (s.check options source).success = false →
      s.compile options source = s.check options source) ∧
    (∀ s : Stages, (s.check options source).success = true →
      (s.compile options source).warnings = (s.check options source).warnings) ∧
    let compiled := Stages.atari2600.compile options source
    ((Stages.atari2600.check options source).success = true → compiled.success = false →
      ∃ d, compiled.diagnostics = [d] ∧ d.code.text ∈ ["E2001", "E2003", "E2004"] ∧
        d.message = compiled.errorMessage) := by
  refine ⟨fun s => Stages.compile_eq_check, fun s => Stages.warnings_compile_eq_check,
    fun hcheck hcompile => ?_⟩
  obtain ⟨p, warnings, hprepare⟩ := Stages.check_success_iff.mp hcheck
  cases houtcome : (Stages.atari2600.build options source).outcome with
  | ok a =>
    have hsuccess := Stages.compile_success_iff.mpr ⟨a, houtcome⟩
    simp [hsuccess] at hcompile
  | error failure =>
    have hlate := Stages.lateFailure_of_build hprepare houtcome
    simpa [Stages.compile, CompileResult.ofReport, houtcome, CompileResult.fail]
      using hlate.diagnostics

/-- A routine that asks for too much fails a strict check and the compilation with it. Otherwise it
is a warning, which stays when no backend turns out to serve the target. -/
theorem compile_check_unserved :
    let strict : CompileOptions := { target := .nes }
    let options : CompileOptions := { target := .nes, enforcement := .advisory }
    let source : Source :=
      ⟨"procedure Flash; requires L4; begin end; begin x := y end.", "a.pas", ".PAS"⟩
    let checked := Stages.atari2600.check options source
    let compiled := Stages.atari2600.compile options source
    (Stages.atari2600.check strict source).success = false ∧
      Stages.atari2600.compile strict source = Stages.atari2600.check strict source ∧
      checked.success = true ∧ compiled.success = false ∧
      checked.warnings = ["Function 'Flash' requires L4"] ∧
      compiled.warnings = checked.warnings ∧
      ∃ d, compiled.diagnostics = [d] ∧ d.code.text ∈ ["E2001", "E2003", "E2004"] ∧
        d.message = compiled.errorMessage := by
  intro strict options source checked compiled
  let p : Pascal.Program := { modules := [⟨"main",
    [{ name := "Flash", body := [], tier := .l4 },
      { name := "main", body := [.assign "x" (.ident "y")] }]⟩] }
  let ks : List Pascal.Kind :=
    [.keyword .procedure, .ident "Flash", .sign .semicolon, .keyword .requires, .ident "L4",
      .sign .semicolon, .keyword .begin, .keyword .end_, .sign .semicolon,
      .keyword .begin, .ident "x", .sign .assign, .ident "y", .keyword .end_, .sign .dot]
  have hlex : (Pascal.lexFrom 0 source.text.toList).map Pascal.kinds = .ok ks := by
    dsimp only [source]
    with_unfolding_all rfl
  have hparse : Pascal.parse source.text = .ok p :=
    Pascal.parse_of_kinds hlex (by with_unfolding_all rfl)
  have hread : Stages.atari2600.read source = .ok (Stages.named source p) :=
    Stages.read_eq_ok_iff.mpr ⟨by decide, p, hparse, rfl⟩
  obtain ⟨failure, hrefused⟩ : ∃ failure, Stages.atari2600.prepare strict source = .error failure :=
    ⟨_, by rw [Stages.prepare, hread]; with_unfolding_all rfl⟩
  have hprepare : Stages.atari2600.prepare options source =
      .ok (Stages.named source p, ["Function 'Flash' requires L4"]) := by
    rw [Stages.prepare, hread]
    with_unfolding_all rfl
  have hstrict : (Stages.atari2600.check strict source).success = false := by
    rw [Stages.check_of_prepare_error hrefused]
    rfl
  have hcheck : checked = .succeed options source.file _ [] := Stages.check_of_prepare hprepare
  have hchecked : checked.success = true := Stages.check_success_iff.mpr ⟨_, _, hprepare⟩
  have hcompiled : compiled.success = false := by
    have hbuild := Stages.build_of_prepare hprepare
    have houtcome : (Stages.atari2600.descend options (Stages.named source p)
        ["Function 'Flash' requires L4"]).bind (Stages.atari2600.finish options) =
        .error (.error (unsupportedTarget .nes)) := by
      with_unfolding_all rfl
    rw [houtcome] at hbuild
    have hfail : compiled = .fail options source.file _ _ := Stages.compile_of_build_error hbuild
    rw [hfail]
    rfl
  refine ⟨hstrict, (compile_check strict source).1 _ hstrict, hchecked, hcompiled, ?_, ?_, ?_⟩
  · rw [hcheck]
    rfl
  · exact (compile_check options source).2.1 _ hchecked
  · exact (compile_check options source).2.2 hchecked hcompiled

end Cartridge
