import Cartridge.Proofs.Compiler.Check
import Cartridge.Proofs.Compiler.Enforcement

/-!
# Results of a compilation

A compilation gives an image or an error, never some of both. Every way in which
the stages for the Atari may fail, crashes of the backend included, is an error
that is reported whole: its diagnostics are errors, there is at least one, and
its message is made of theirs.
-/

namespace Cartridge

-- ---------------------------------------------------------------------------
-- Errors that are reported whole
-- ---------------------------------------------------------------------------

/-- Whether a diagnostic is about capabilities. -/
def Diagnostic.isViolation (d : Diagnostic) : Bool :=
  d.code == .capabilityDenied || d.code == .requestExceedsBackend

/-- The message of a failed result with these diagnostics. -/
def Diagnostic.report (ds : List Diagnostic) : String :=
  (if ds.any Diagnostic.isViolation then "Backend capability violations: " else "") ++
    "; ".intercalate (ds.map (·.message))

/-- Diagnostics, all of them errors, say what the message says, and that is not nothing. -/
structure CompileError.Reported (e : CompileError) : Prop where
  diagnostics_ne_nil : e.diagnostics ≠ []
  severity : ∀ d ∈ e.diagnostics, d.severity = .error
  message_eq : e.message = Diagnostic.report e.diagnostics
  message_ne : e.message ≠ ""

theorem append_ne_empty {s t : String} (h : s ≠ "" ∨ t ≠ "") : s ++ t ≠ "" := by
  intro happend
  obtain ⟨hs, ht⟩ := String.append_eq_empty_iff.mp happend
  exact h.elim (· hs) (· ht)

/-- An error with one diagnostic is reported whole if the two have the same message. -/
theorem CompileError.reported_of_one {e : CompileError} (h : e.diagnostics = [d])
    (hcode : d.isViolation = false) (hseverity : d.severity = .error)
    (hmessage : d.message = e.message) (hne : e.message ≠ "") : e.Reported where
  diagnostics_ne_nil := by simp [h]
  severity := by simp [h, hseverity]
  message_eq := by simp [h, Diagnostic.report, hcode, hmessage]
  message_ne := hne

theorem CompileError.reported_pipeline (stage reason : String)
    (hcode : ({ code := c } : Diagnostic).isViolation = false) :
    (CompileError.pipeline c stage reason).Reported :=
  reported_of_one rfl hcode rfl rfl
    (append_ne_empty (.inl (append_ne_empty (.inr (by decide)))))

theorem CompileError.reported_unexpected (reason : String) :
    (CompileError.unexpected reason).Reported :=
  reported_of_one rfl rfl rfl rfl (append_ne_empty (.inl (by decide)))

theorem Pascal.ParseError.isViolation_diagnostic (e : Pascal.ParseError) :
    e.diagnostic.isViolation = false := by
  have hcause (c : Pascal.ParseCause) : ({ code := c.code } : Diagnostic).isViolation = false := by
    cases c with
    | expected what found => cases what <;> rfl
    | _ => rfl
  exact hcause e.cause

theorem Pascal.ParseError.text_ne (e : Pascal.ParseError) : e.text ≠ "" := by
  unfold text
  repeat refine append_ne_empty (.inl ?_)
  decide

theorem Pascal.ParseError.reported (e : Pascal.ParseError) : e.toCompileError.Reported := by
  have hmessage : e.toCompileError.message = e.text := by
    change "; ".intercalate [e.text] = e.text
    exact String.intercalate_singleton
  refine CompileError.reported_of_one rfl e.isViolation_diagnostic rfl hmessage.symm ?_
  rw [hmessage]
  exact e.text_ne

theorem CompileError.reported_capability (hne : ds ≠ [])
    (h : ∀ d ∈ ds, d.isViolation ∧ d.severity = .error) :
    (CompileError.capability ds).Reported where
  diagnostics_ne_nil := hne
  severity d hd := (h d hd).2
  message_eq := by
    obtain ⟨d, hd⟩ := List.exists_mem_of_ne_nil ds hne
    have hany : ds.any Diagnostic.isViolation := List.any_eq_true.mpr ⟨d, hd, (h d hd).1⟩
    change "Backend capability violations: " ++ Diagnostic.joinMessages ds = Diagnostic.report ds
    rw [Diagnostic.report, if_pos hany, Diagnostic.joinMessages]
  message_ne := append_ne_empty (.inl (by decide))

-- ---------------------------------------------------------------------------
-- Attempts whose failures are known
-- ---------------------------------------------------------------------------

/-- If it fails, then in a way that `P` allows. -/
def FailsAs (P : Failure → Prop) (x : Attempt α) : Prop :=
  ∀ failure, x = .error failure → P failure

section

variable {P : Failure → Prop} {failure : Failure} {x : Attempt α}

theorem failsAs_ok (a : α) : FailsAs P (.ok a) := by
  intro failure h
  cases h

theorem failsAs_error (h : P failure) : FailsAs P (.error failure : Attempt α) := by
  rintro _ ⟨⟩
  exact h

theorem FailsAs.bind {f : α → Attempt β} (hx : FailsAs P x) (hf : ∀ a, FailsAs P (f a)) :
    FailsAs P (x >>= f) := by
  cases x with
  | error failure => exact failsAs_error (hx failure rfl)
  | ok a => exact hf a

theorem FailsAs.map (f : α → β) (hx : FailsAs P x) : FailsAs P (x.map f) := by
  cases x with
  | error failure => exact failsAs_error (hx failure rfl)
  | ok a => exact failsAs_ok (f a)

theorem failsAs_mapError {y : Except ε α} {g : ε → Failure} (h : ∀ e, P (g e)) :
    FailsAs P (y.mapError g) := by
  cases y with
  | error e => exact failsAs_error (h e)
  | ok a => exact failsAs_ok a

end

/-- A failure whose error is reported whole. -/
def Failure.Reported (failure : Failure) : Prop :=
  failure.toError.Reported

-- ---------------------------------------------------------------------------
-- Stages that break down
-- ---------------------------------------------------------------------------

/-- How a stage ends that never gives a result. -/
inductive Breakdown where
  | crash (reason : Option String)
  | unexpected (reason : String)
deriving DecidableEq, Repr

def Breakdown.failure : Breakdown → Failure
  | crash reason => .crash reason
  | unexpected reason => .error (.unexpected reason)

theorem Breakdown.reported (b : Breakdown) : b.failure.Reported := by
  cases b with
  | unexpected reason => exact CompileError.reported_unexpected reason
  | crash reason =>
    cases reason with
    | none => exact CompileError.reported_unexpected _
    | some text => exact CompileError.reported_unexpected text

namespace Stages

/-- The stages for the Atari, but for stages of the backend that break down. -/
def breaking (toRegister? : Option (Flat.Program → Breakdown))
    (toListing? : Option (CodeGenOptions → Register.Program → Breakdown))
    (generate? : Option (CodeGenOptions → Listing → Breakdown)) : Stages where
  frontend := atari2600.frontend
  optimizeFlat := atari2600.optimizeFlat
  optimizeRegister := atari2600.optimizeRegister
  optimizeListing := atari2600.optimizeListing
  toRegister := match toRegister? with
    | some breakdown => fun p => .error (breakdown p).failure
    | none => atari2600.toRegister
  toListing := match toListing? with
    | some breakdown => fun options p => .error (breakdown options p).failure
    | none => atari2600.toListing
  generate := match generate? with
    | some breakdown => fun options l => .error (breakdown options l).failure
    | none => atari2600.generate
  capabilities := atari2600.capabilities

section

variable {s : Stages} {options : CompileOptions} {source : Source} {P : Failure → Prop}

theorem failsAs_whenOptimizing {run : OptLevel → α → Attempt α}
    (h : ∀ level a, FailsAs P (run level a)) (a : α) :
    FailsAs P (whenOptimizing options run a) := by
  unfold whenOptimizing
  split
  · exact h _ a
  · exact failsAs_ok a

/-- A build fails where one of its stages does. -/
theorem failsAs_build (hread : FailsAs P (s.read source))
    (hvalidate : ∀ p, FailsAs P (s.validate options p))
    (hdescend : ∀ p warnings, FailsAs P (s.descend options p warnings))
    (hgenerate : ∀ l, FailsAs P (s.generate options.codeGen l)) :
    FailsAs P (s.build options source).outcome := by
  rw [outcome_build, outcome_buildIr]
  refine .bind (.bind (.bind hread fun p => .bind (hvalidate p) fun warnings => failsAs_ok _)
    fun r => hdescend r.1 r.2) fun a => ?_
  exact .bind (hgenerate a.listing) fun code => failsAs_ok _

theorem compile_of_ok (h : (s.build options source).outcome = .ok a) :
    s.compile options source =
      .succeed options source.file (s.build options source).warnings a.code := by
  simp only [compile, CompileResult.ofReport, h]

/-- A strict validation leaves no warnings. -/
theorem validate_warnings (hmode : options.enforcement = .strict)
    (h : s.validate options p = .ok warnings) : warnings = [] := by
  cases hviolations : s.violations options p with
  | error failure =>
    rw [validate_of_violations_error hviolations] at h
    cases h
  | ok ds =>
    by_cases hnone : ds = []
    · rw [validate_of_nil (hnone ▸ hviolations)] at h
      exact (Except.ok.inj h).symm
    · rw [validate_strict hviolations hnone hmode] at h
      cases h

/-- A strict compilation has no warnings. -/
theorem warnings_build (hmode : options.enforcement ≠ .advisory) :
    (s.build options source).warnings = [] := by
  have hstrict : options.enforcement = .strict := by
    cases h : options.enforcement with
    | strict => rfl
    | advisory => exact absurd h hmode
  rcases hprepare : s.prepare options source with failure | ⟨p, warnings⟩
  · rw [build_of_prepare_error hprepare]
  · rw [build_of_prepare hprepare]
    obtain ⟨p', -, hvalidate⟩ := bind_eq_ok_iff.mp hprepare
    obtain ⟨warnings', hvalid, hpair⟩ := bind_eq_ok_iff.mp hvalidate
    cases hpair
    exact validate_warnings hstrict hvalid

/-- A strict validation that fails reports its violations; another does not fail. -/
theorem failsAs_validate (hoffer : s.capabilities.offer = .ok (profile, granted))
    (p : Pascal.Program) : FailsAs Failure.Reported (s.validate options p) := by
  cases hmode : options.enforcement with
  | advisory =>
    rw [validate_advisory (violations_of_offer hoffer) hmode]
    exact failsAs_ok _
  | strict =>
    obtain ⟨ds, hviolations, hds⟩ : ∃ ds, s.violations options p = .ok ds ∧ ds = _ :=
      ⟨_, violations_strict hoffer hmode, rfl⟩
    by_cases hnone : ds = []
    · rw [validate_of_nil (hnone ▸ hviolations)]
      exact failsAs_ok _
    · rw [validate_strict hviolations hnone hmode]
      refine failsAs_error (CompileError.reported_capability hnone fun d hd => ?_)
      rw [hds, List.mem_append, List.mem_map, List.mem_map] at hd
      obtain ⟨v, -, rfl⟩ | ⟨v, -, rfl⟩ := hd <;> exact ⟨rfl, rfl⟩

end

theorem failsAs_read (source : Source) : FailsAs Failure.Reported (atari2600.read source) := by
  refine .bind (failsAs_ok _) fun accepted => ?_
  split
  · exact .bind (failsAs_mapError fun e => e.reported) fun p => failsAs_ok _
  · exact failsAs_error (CompileError.reported_pipeline _ _ rfl)

section

variable (toRegister? : Option (Flat.Program → Breakdown))
  (toListing? : Option (CodeGenOptions → Register.Program → Breakdown))
  (generate? : Option (CodeGenOptions → Listing → Breakdown))

theorem failsAs_toRegister (p : Flat.Program) :
    FailsAs Failure.Reported ((breaking toRegister? toListing? generate?).toRegister p) := by
  cases toRegister? with
  | some breakdown => exact failsAs_error (breakdown p).reported
  | none =>
    change FailsAs _ (atari2600.toRegister p)
    rw [toRegister_eq]
    exact failsAs_mapError fun e => CompileError.reported_pipeline _ _ rfl

theorem failsAs_toListing (options : CodeGenOptions) (p : Register.Program) :
    FailsAs Failure.Reported ((breaking toRegister? toListing? generate?).toListing options p) := by
  cases toListing? with
  | some breakdown => exact failsAs_error (breakdown options p).reported
  | none => exact failsAs_ok _

theorem failsAs_generate (options : CodeGenOptions) (l : Listing) :
    FailsAs Failure.Reported ((breaking toRegister? toListing? generate?).generate options l) := by
  cases generate? with
  | some breakdown => exact failsAs_error (breakdown options l).reported
  | none =>
    intro failure h
    cases lateFailure_of_generate h <;> exact CompileError.reported_pipeline _ _ rfl

theorem failsAs_descend (options : CompileOptions) (p : Pascal.Program) (warnings : List String) :
    FailsAs Failure.Reported
      ((breaking toRegister? toListing? generate?).descend options p warnings) := by
  refine .bind (failsAs_ok _) fun flat => .bind ?_ fun flat => ?_
  · refine failsAs_whenOptimizing (fun level p => ?_) flat
    change FailsAs _ (atari2600.optimizeFlat level p)
    rw [optimizeFlat_eq]
    exact failsAs_ok _
  refine .bind (failsAs_toRegister _ _ _ flat) fun register => .bind ?_ fun register => ?_
  · refine failsAs_whenOptimizing (fun level p => ?_) register
    change FailsAs _ (atari2600.optimizeRegister level p)
    rw [optimizeRegister_eq]
    exact failsAs_ok _
  refine .bind (failsAs_toListing _ _ _ _ register) fun listing => .bind ?_ fun listing => ?_
  · exact failsAs_whenOptimizing (fun _ _ => failsAs_ok _) listing
  exact failsAs_ok _

/-- Code comes as an image. -/
theorem package_of_generate {options : CodeGenOptions} {l : Listing}
    (h : (breaking toRegister? toListing? generate?).generate options l = .ok image) :
    ∃ code, image = Rom.package code := by
  cases generate? with
  | some breakdown => cases h
  | none =>
    change atari2600.generate options l = .ok image at h
    rw [generate_eq] at h
    split at h
    · rw [mapError_eq_ok_iff, Rom.ofListing] at h
      split at h
      · next code _ => exact ⟨code, (Except.ok.inj h).symm⟩
      · cases h
    · cases h

theorem package_of_build {options : CompileOptions} {source : Source}
    (h : ((breaking toRegister? toListing? generate?).build options source).outcome = .ok a) :
    ∃ code, a.code = Rom.package code := by
  rw [outcome_build, bind_eq_ok_iff] at h
  obtain ⟨b, -, hfinish⟩ := h
  obtain ⟨image, himage, ha⟩ := bind_eq_ok_iff.mp hfinish
  cases ha
  exact package_of_generate toRegister? toListing? generate? himage

/-- Whatever of the backend breaks down, a failure is reported whole. -/
theorem failsAs_breaking (options : CompileOptions) (source : Source) :
    FailsAs Failure.Reported
      ((breaking toRegister? toListing? generate?).build options source).outcome :=
  failsAs_build (failsAs_read source) (failsAs_validate rfl)
    (failsAs_descend toRegister? toListing? generate? options)
    (failsAs_generate toRegister? toListing? generate? options.codeGen)

end

end Stages

theorem Rom.drop_package (code : List UInt8) : (package code).drop 4090 = vectors := by
  have hlength : (code.take capacity ++ List.replicate (capacity - (code.take capacity).length)
      0).length = 4090 := by
    simp [capacity, size]
  rw [package, List.drop_append_of_le_length hlength.ge, List.drop_of_length_le hlength.le]
  rfl

/-- A compilation for the Atari, whichever stages of its backend break down, gives an image and
nothing else, or errors and no code. -/
theorem compile_all_or_nothing (toRegister? : Option (Flat.Program → Breakdown))
    (toListing? : Option (CodeGenOptions → Register.Program → Breakdown))
    (generate? : Option (CodeGenOptions → Listing → Breakdown))
    (options : CompileOptions) (source : Source) :
    let result := (Stages.breaking toRegister? toListing? generate?).compile options source
    (result.success ↔ result.errorMessage = "") ∧
    (result.success ↔ result.diagnostics = []) ∧
    (result.success ↔ result.code ≠ []) ∧
    (result.success → result.code.length = 4096 ∧
      result.code.drop 4090 = [0x00, 0xF0, 0x00, 0xF0, 0x00, 0xF0]) ∧
    (¬ result.success → result.code = [] ∧ (∀ d ∈ result.diagnostics, d.severity = .error) ∧
      result.errorMessage = Diagnostic.report result.diagnostics) ∧
    result.sourceFile = source.file ∧ result.target = options.target ∧
    result.tier = options.tier ∧
    (options.enforcement ≠ .advisory → result.warnings = []) := by
  intro result
  have hwarnings (hmode : options.enforcement ≠ .advisory) : result.warnings = [] :=
    Stages.warnings_compile.trans (Stages.warnings_build hmode)
  cases houtcome : ((Stages.breaking toRegister? toListing? generate?).build options source).outcome
  with
  | ok a =>
    obtain ⟨code, hcode⟩ := Stages.package_of_build toRegister? toListing? generate? houtcome
    have hresult : result = _ := Stages.compile_of_ok houtcome
    have hlength : a.code.length = 4096 := by
      rw [hcode]
      exact Rom.length_package code
    have hne : a.code ≠ [] := List.ne_nil_of_length_pos (by omega)
    have hdrop : a.code.drop 4090 = Rom.vectors := by
      rw [hcode]
      exact Rom.drop_package code
    refine ⟨?_, ?_, ?_, ?_, ?_, ?_, ?_, ?_, hwarnings⟩ <;> rw [hresult]
    · simp [CompileResult.succeed]
    · simp [CompileResult.succeed]
    · simp [CompileResult.succeed, hne]
    · exact fun _ => ⟨hlength, hdrop⟩
    · simp [CompileResult.succeed]
    all_goals rfl
  | error failure =>
    have hreported := Stages.failsAs_breaking _ _ _ options source failure houtcome
    have hresult : result = _ := Stages.compile_of_build_error (by rw [← houtcome])
    refine ⟨?_, ?_, ?_, ?_, ?_, ?_, ?_, ?_, hwarnings⟩ <;> rw [hresult]
    · simp [CompileResult.fail, hreported.message_ne]
    · simp [CompileResult.fail, hreported.diagnostics_ne_nil]
    · simp [CompileResult.fail]
    · simp [CompileResult.fail]
    · exact fun _ => ⟨rfl, hreported.severity, hreported.message_eq⟩
    all_goals rfl

/-- A crash on the way down is all that is reported. -/
theorem compile_all_or_nothing_crash :
    let stages := Stages.breaking (some fun _ => .crash (some "register file on fire")) none none
    let result := stages.compile {} ⟨"begin x := 1 end.", "a.pas", "pas"⟩
    ¬ result.success ∧ result.code = [] ∧ (∀ d ∈ result.diagnostics, d.severity = .error) ∧
      result.errorMessage = Diagnostic.report result.diagnostics ∧
      result.errorMessage = "Compilation failed: register file on fire" ∧
      result.sourceFile = "a.pas" ∧ result.warnings = [] := by
  intro stages result
  let source : Source := ⟨"begin x := 1 end.", "a.pas", "pas"⟩
  let p : Pascal.Program :=
    { modules := [⟨"main", [{ name := "main", body := [.assign "x" (.int 1)] }]⟩] }
  let ks : List Pascal.Kind :=
    [.keyword .begin, .ident "x", .sign .assign, .int 1, .keyword .end_, .sign .dot]
  have hlex : (Pascal.lexFrom 0 source.text.toList).map Pascal.kinds = .ok ks := by
    dsimp only [source]
    with_unfolding_all rfl
  have hparse : Pascal.parse source.text = .ok p :=
    Pascal.parse_of_kinds hlex (by with_unfolding_all rfl)
  have hread : stages.read source = .ok (Stages.named source p) :=
    Stages.read_eq_ok_iff.mpr ⟨by decide, p, hparse, rfl⟩
  have hvalid : stages.validate {} (Stages.named source p) = .ok [] := rfl
  have hresult : result = .fail {} "a.pas" [] (.unexpected "register file on fire") :=
    Stages.compile_of_build_error (Stages.build_of_validate hread hvalid)
  obtain ⟨-, -, -, -, hfail, hfile, -, -, hwarnings⟩ := compile_all_or_nothing
    (some fun _ => .crash (some "register file on fire")) none none {} source
  have hfailed : ¬ result.success := by simp [hresult, CompileResult.fail]
  obtain ⟨hcode, hseverity, hmessage⟩ := hfail hfailed
  refine ⟨hfailed, hcode, hseverity, hmessage, ?_, hfile, hwarnings (by decide)⟩
  rw [hresult]
  rfl

end Cartridge
