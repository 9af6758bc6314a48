import Cartridge.Compiler.Compile
import Cartridge.Proofs.Compiler.Total
import Cartridge.Proofs.Pascal.Names

/-!
# What a compilation comes to

A build stops where a stage fails; the warnings of validation are in its report
from then on.

For the Atari, every optimizer leaves its program as it is when the optimizer is
off; so one account covers all options, at the level in effect. A compilation
succeeds exactly if the extension is accepted, the source parses, no violation
stops it, the variables fit in RAM, and every line of the final listing has an
encoding.
-/

namespace Cartridge

namespace Stages

section

variable {s : Stages} {options : CompileOptions} {source : Source} {p : Pascal.Program}
  {failure : Failure}

-- ---------------------------------------------------------------------------
-- How far a build comes
-- ---------------------------------------------------------------------------

theorem build_of_prepare_error (h : s.prepare options source = .error failure) :
    s.build options source = ⟨[], .error failure⟩ := by
  simp [build, buildIr, h, Except.bind]

/-- Warnings stay, whatever becomes of the stages behind validation. -/
theorem build_of_prepare (h : s.prepare options source = .ok (p, warnings)) :
    s.build options source =
      ⟨warnings, (s.descend options p warnings).bind (s.finish options)⟩ := by
  simp [build, buildIr, h]

theorem build_of_read_error (h : s.read source = .error failure) :
    s.build options source = ⟨[], .error failure⟩ := by
  refine build_of_prepare_error ?_
  simp only [prepare, h, bind, Except.bind]

theorem build_of_validate_error (hread : s.read source = .ok p)
    (hvalid : s.validate options p = .error failure) :
    s.build options source = ⟨[], .error failure⟩ := by
  refine build_of_prepare_error ?_
  simp only [prepare, hread, hvalid, bind, Except.bind]

theorem build_of_validate (hread : s.read source = .ok p)
    (hvalid : s.validate options p = .ok warnings) :
    s.build options source =
      ⟨warnings, (s.descend options p warnings).bind (s.finish options)⟩ := by
  refine build_of_prepare ?_
  simp only [prepare, hread, hvalid, bind, Except.bind, pure, Except.pure]

/-- How far a build came is in its report; its outcome is that of the stages in a row. -/
theorem outcome_buildIr :
    (s.buildIr options source).outcome =
      (s.prepare options source >>= fun r => s.descend options r.1 r.2) := by
  unfold buildIr
  cases s.prepare options source <;> rfl

theorem outcome_build :
    (s.build options source).outcome =
      ((s.buildIr options source).outcome >>= s.finish options) := rfl

theorem compile_of_build_error (h : s.build options source = ⟨warnings, .error failure⟩) :
    s.compile options source = .fail options source.file warnings failure.toError := by
  rw [compile, h]
  rfl

theorem warnings_compile :
    (s.compile options source).warnings = (s.build options source).warnings := by
  unfold compile CompileResult.ofReport
  split <;> rfl

theorem compile_success_iff :
    (s.compile options source).success ↔ ∃ a, (s.build options source).outcome = .ok a := by
  unfold compile CompileResult.ofReport
  split
  · next a h => simp [h, CompileResult.succeed]
  · next failure h => simp [h, CompileResult.fail]

theorem compile_code (h : (s.build options source).outcome = .ok a) :
    (s.compile options source).code = a.code := by
  simp [compile, CompileResult.ofReport, h, CompileResult.succeed]

end

-- ---------------------------------------------------------------------------
-- The stages for the Atari
-- ---------------------------------------------------------------------------

/-- A program under the name of its source file. -/
def named (source : Source) (p : Pascal.Program) : Pascal.Program :=
  { p with sourceFile := source.file }

theorem all_isWord_named (h : Pascal.parse source.text = .ok p) :
    (named source p).all (fun _ => true) Pascal.isWord := by
  have hwords := Pascal.all_isWord_of_parse h
  exact hwords

theorem read_eq_ok_iff :
    atari2600.read source = .ok p ↔
      Pascal.accepts source.extension ∧
        ∃ q, Pascal.parse source.text = .ok q ∧ named source q = p := by
  have haccepted : atari2600.frontend.accepts source.extension =
      .ok (Pascal.accepts source.extension) := rfl
  rw [read, haccepted]
  change (if Pascal.accepts source.extension then _ else _ : Attempt Pascal.Program) = .ok p ↔ _
  split
  · next haccepts =>
    change ((Pascal.parse source.text).mapError _ >>= fun q => .ok (named source q)) = .ok p ↔ _
    simp [bind_eq_ok_iff, mapError_eq_ok_iff, haccepts]
  · next hrefused =>
    change (Except.error _ : Attempt Pascal.Program) = .ok p ↔ _
    simp [hrefused]

/-- What violations there are is up to what the backend offers. -/
theorem violations_of_offer {s : Stages} (h : s.capabilities.offer = .ok (profile, granted)) :
    s.violations options p = .ok (
      let severity : Severity :=
        match options.enforcement with
        | .strict => .error
        | .advisory => .warning
      (requestViolations options profile).map (fun v =>
        { code := .requestExceedsBackend, severity, message := v.message }) ++
      (programViolations p profile.base granted).map fun v =>
        { code := .capabilityDenied, severity, message := v.message
          notes := [s!"{options.target.id} provides {profile.base.text}"] }) := by
  rw [violations, h]
  rfl

theorem validate_of_nil {s : Stages} (h : s.violations options p = .ok []) :
    s.validate options p = .ok [] := by
  rw [validate, h]
  rfl

/-- Violations stop a compilation unless they are only advice. -/
theorem exists_validate_iff :
    (∃ warnings, atari2600.validate options p = .ok warnings) ↔
      atari2600.violations options p = .ok [] ∨ options.enforcement = .advisory := by
  obtain ⟨ds, hds⟩ : ∃ ds, atari2600.violations options p = .ok ds :=
    ⟨_, violations_of_offer rfl⟩
  rw [validate, hds]
  cases ds with
  | nil => exact iff_of_true ⟨[], rfl⟩ (.inl rfl)
  | cons d ds =>
    cases options.enforcement with
    | strict =>
      refine iff_of_false ?_ (by simp)
      rintro ⟨warnings, hfails⟩
      cases hfails
    | advisory => exact iff_of_true ⟨_, rfl⟩ (.inr rfl)

/-- An optimizer that does nothing if it is off needs no switch. -/
theorem whenOptimizing_eq {run : OptLevel → α → Attempt α} {optimize : OptLevel → α → α}
    (hrun : ∀ level a, run level a = .ok (optimize level a)) (hoff : ∀ a, optimize .off a = a)
    (a : α) : whenOptimizing options run a = .ok (optimize options.effectiveLevel a) := by
  unfold whenOptimizing CompileOptions.effectiveLevel
  split
  · exact hrun _ a
  · rw [hoff]

def finalListing (options : CompileOptions) (q : Register.Program) : Listing :=
  (Listing.ofProgram options.debugInfo (q.optimize options.effectiveLevel)).optimize
    options.effectiveLevel

theorem descend_eq (options : CompileOptions) (p : Pascal.Program) (warnings : List String) :
    atari2600.descend options p warnings =
      ((Register.lower (p.lower.optimize options.effectiveLevel)).mapError fun e =>
        .error (loweringFailed e)).map fun q =>
          { structured := p, flat := p.lower.optimize options.effectiveLevel
            register := q.optimize options.effectiveLevel
            listing := finalListing options q, warnings } := by
  have hflat (p : Flat.Program) : whenOptimizing options atari2600.optimizeFlat p =
      .ok (p.optimize options.effectiveLevel) :=
    whenOptimizing_eq optimizeFlat_eq (fun _ => rfl) p
  have hregister (q : Register.Program) : whenOptimizing options atari2600.optimizeRegister q =
      .ok (q.optimize options.effectiveLevel) :=
    whenOptimizing_eq optimizeRegister_eq (fun _ => rfl) q
  have hlisting (l : Listing) : whenOptimizing options atari2600.optimizeListing l =
      .ok (l.optimize options.effectiveLevel) :=
    whenOptimizing_eq (fun _ _ => rfl) (fun _ => rfl) l
  have hflatten : atari2600.frontend.flatten p = .ok p.lower := rfl
  have hlist (q : Register.Program) : atari2600.toListing options.codeGen q =
      .ok (.ofProgram options.debugInfo q) := rfl
  simp only [descend, hflat, hregister, hlisting, hflatten, toRegister_eq, hlist, bind, Except.bind]
  cases Register.lower (p.lower.optimize options.effectiveLevel) <;> rfl

theorem descend_eq_ok_iff :
    atari2600.descend options p warnings = .ok a ↔
      ∃ q, Register.lower (p.lower.optimize options.effectiveLevel) = .ok q ∧
        { structured := p, flat := p.lower.optimize options.effectiveLevel
          register := q.optimize options.effectiveLevel
          listing := finalListing options q, warnings } = a := by
  simp only [descend_eq, map_eq_ok_iff, mapError_eq_ok_iff]

theorem generate_eq_ok_iff {options : CompileOptions} (htarget : options.target = .atari2600) :
    atari2600.generate options.codeGen l = .ok image ↔
      ∃ code, Listing.assemble l.lines = .ok code ∧ Rom.package code = image := by
  have hcodeGen : options.codeGen.target = .atari2600 := htarget
  rw [generate_eq, if_pos hcodeGen, mapError_eq_ok_iff, Rom.ofListing]
  cases Listing.assemble l.lines <;> simp

/-- The levels of a source, stage by stage. -/
theorem buildIr_eq_ok_iff :
    (atari2600.buildIr options source).outcome = .ok a ↔
      Pascal.accepts source.extension ∧
      ∃ p, Pascal.parse source.text = .ok p ∧
      ∃ warnings, atari2600.validate options p = .ok warnings ∧
      ∃ q, Register.lower ((named source p).lower.optimize options.effectiveLevel) = .ok q ∧
        { structured := named source p
          flat := (named source p).lower.optimize options.effectiveLevel
          register := q.optimize options.effectiveLevel
          listing := finalListing options q, warnings } = a := by
  simp only [outcome_buildIr, prepare, bind_eq_ok_iff, read_eq_ok_iff, descend_eq_ok_iff, pure,
    Except.pure, Except.ok.injEq]
  constructor
  · rintro ⟨_, ⟨_, ⟨haccepts, p, hp, rfl⟩, warnings, hvalid, rfl⟩, q, hq, rfl⟩
    exact ⟨haccepts, p, hp, warnings, hvalid, q, hq, rfl⟩
  · rintro ⟨haccepts, p, hp, warnings, hvalid, q, hq, rfl⟩
    exact ⟨_, ⟨_, ⟨haccepts, p, hp, rfl⟩, warnings, hvalid, rfl⟩, q, hq, rfl⟩

/-- Success, stage by stage: what the artifacts of a compilation are. -/
theorem build_eq_ok_iff {options : CompileOptions} (htarget : options.target = .atari2600) :
    (atari2600.build options source).outcome = .ok a ↔
      Pascal.accepts source.extension ∧
      ∃ p, Pascal.parse source.text = .ok p ∧
      ∃ warnings, atari2600.validate options p = .ok warnings ∧
      ∃ q, Register.lower ((named source p).lower.optimize options.effectiveLevel) = .ok q ∧
      ∃ code, Listing.assemble (finalListing options q).lines = .ok code ∧
        { structured := named source p
          flat := (named source p).lower.optimize options.effectiveLevel
          register := q.optimize options.effectiveLevel
          listing := finalListing options q
          code := Rom.package code, warnings } = a := by
  simp only [outcome_build, finish, bind_eq_ok_iff, buildIr_eq_ok_iff, generate_eq_ok_iff htarget,
    pure, Except.pure, Except.ok.injEq]
  constructor
  · rintro ⟨_, ⟨haccepts, p, hp, warnings, hvalid, q, hq, rfl⟩, _, ⟨code, hcode, rfl⟩, rfl⟩
    exact ⟨haccepts, p, hp, warnings, hvalid, q, hq, code, hcode, rfl⟩
  · rintro ⟨haccepts, p, hp, warnings, hvalid, q, hq, code, hcode, rfl⟩
    exact ⟨_, ⟨haccepts, p, hp, warnings, hvalid, q, hq, rfl⟩, _, ⟨code, hcode, rfl⟩, rfl⟩

end Stages

end Cartridge
