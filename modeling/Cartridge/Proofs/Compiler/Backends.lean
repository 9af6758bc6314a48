import Mathlib.Data.List.Basic
import Cartridge.Proofs.Compiler.Enforcement
import Cartridge.Proofs.Compiler.Independence

/-!
# More capable backends

A backend with a higher base tier and more extensions has fewer violations, and
violations are all that a compilation asks its backend about. So a strict
compilation that succeeds does so on every more capable backend, with the same
result. The request is held against the advertised extensions and the routines
against the granted ones; both lists have to grow.
-/

namespace Cartridge

-- ---------------------------------------------------------------------------
-- Fewer violations
-- ---------------------------------------------------------------------------

theorem isAllowed_mono (hbase : base ≤ base') (hgranted : granted ⊆ granted')
    (h : isAllowed base granted required ext?) : isAllowed base' granted' required ext? := by
  simp only [isAllowed, Bool.or_eq_true, decide_eq_true_eq] at h ⊢
  obtain htier | hext := h
  · exact .inl (Tier.le_trans htier hbase)
  · right
    cases ext? with
    | none => cases hext
    | some ext =>
      simp only [Bool.and_eq_true, List.contains_iff_mem] at hext ⊢
      exact ⟨hext.1, hgranted hext.2⟩

theorem programViolations_sublist (p : Pascal.Program) (hbase : base ≤ base')
    (hgranted : granted ⊆ granted') :
    (programViolations p base' granted').Sublist (programViolations p base granted) := by
  refine (List.monotone_filter_right _ fun r hr => ?_).map _
  rw [Bool.not_eq_true', Bool.eq_false_iff] at hr ⊢
  exact mt (isAllowed_mono hbase hgranted) hr

/-- The violation of a tier names the base, so it may change, but it does not appear anew. -/
theorem requestViolations_eq_nil_mono (hbase : profile.base ≤ profile'.base)
    (hextensions : profile.extensions ⊆ profile'.extensions)
    (h : requestViolations options profile = []) : requestViolations options profile' = [] := by
  simp only [requestViolations, List.append_eq_nil_iff, ite_eq_right_iff, List.cons_ne_nil,
    imp_false, Tier.lt_def, Nat.not_lt, List.map_eq_nil_iff, List.filter_eq_nil_iff,
    Profile.supports, Bool.not_eq_true', Bool.not_eq_false, List.contains_iff_mem] at h ⊢
  exact ⟨Nat.le_trans h.1 hbase, fun ext hext => hextensions (h.2 ext hext)⟩

-- ---------------------------------------------------------------------------
-- The same compilation
-- ---------------------------------------------------------------------------

/-- What the first backend offers, the second does too. -/
def Capabilities.Within (c c' : Capabilities) : Prop :=
  ∀ profile granted, c.offer = .ok (profile, granted) →
    ∃ profile' granted', c'.offer = .ok (profile', granted') ∧ profile.base ≤ profile'.base ∧
      profile.extensions ⊆ profile'.extensions ∧ granted ⊆ granted'

namespace Stages

variable {s : Stages} {options : CompileOptions} {source : Source} {p : Pascal.Program}

theorem offer_of_violations (h : s.violations options p = .ok ds) :
    ∃ profile granted, s.capabilities.offer = .ok (profile, granted) := by
  obtain ⟨⟨profile, granted⟩, hoffer, -⟩ := bind_eq_ok_iff.mp h
  exact ⟨profile, granted, hoffer⟩

theorem violations_eq_nil_of_within (hwithin : s.capabilities.Within c)
    (h : s.violations options p = .ok []) :
    { s with capabilities := c }.violations options p = .ok [] := by
  obtain ⟨profile, granted, hoffer⟩ := offer_of_violations h
  obtain ⟨profile', granted', hoffer', hbase, hextensions, hgranted⟩ := hwithin _ _ hoffer
  obtain ⟨hrequest, hprogram⟩ := (violations_eq_nil_iff hoffer).mp h
  refine (violations_eq_nil_iff hoffer').mpr ⟨?_, ?_⟩
  · exact requestViolations_eq_nil_mono hbase hextensions hrequest
  · have hsublist := programViolations_sublist p hbase hgranted
    rw [hprogram] at hsublist
    exact List.sublist_nil.mp hsublist

theorem violations_of_compile (hstrict : options.enforcement = .strict)
    (h : (s.compile options source).success) :
    ∃ p, s.read source = .ok p ∧ s.violations options p = .ok [] := by
  obtain ⟨a, ha⟩ := compile_success_iff.mp h
  cases hread : s.read source with
  | error failure => simp [build_of_read_error hread] at ha
  | ok p =>
    refine ⟨p, rfl, ?_⟩
    cases hviolations : s.violations options p with
    | error failure =>
      simp [build_of_validate_error hread (validate_of_violations_error hviolations)] at ha
    | ok ds =>
      by_contra hsome
      have hne : ds ≠ [] := fun hnil => hsome (congrArg Except.ok hnil)
      simp [build_of_validate_error hread (validate_strict hviolations hne hstrict)] at ha

/-- Without violations the backend's word about itself is not heard any more. -/
theorem compile_eq_of_violations (hread : s.read source = .ok p)
    (h : s.violations options p = .ok [])
    (h' : { s with capabilities := c }.violations options p = .ok []) :
    { s with capabilities := c }.compile options source = s.compile options source := by
  have hread' : { s with capabilities := c }.read source = .ok p := hread
  rw [compile, compile, build_of_validate hread (validate_of_nil h),
    build_of_validate hread' (validate_of_nil h')]
  rfl

end Stages

/-- A more capable backend leaves some of the violations of a program, in their order, and a strict
compilation that succeeds comes to the same result with it. -/
theorem compile_more_capable :
    (∀ (p : Pascal.Program) (base base' : Tier) (granted granted' : List String),
      base ≤ base' → (∀ ext ∈ granted, ext ∈ granted') →
      ((programViolations p base' granted').map (·.message)).Sublist
        ((programViolations p base granted).map (·.message))) ∧
    ∀ (s : Stages) (c : Capabilities) (options : CompileOptions) (source : Source),
      options.enforcement = .strict → s.capabilities.Within c →
      (s.compile options source).success →
      { s with capabilities := c }.compile options source = s.compile options source := by
  constructor
  · intro p base base' granted granted' hbase hgranted
    exact (programViolations_sublist p hbase fun ext => hgranted ext).map _
  · intro s c options source hstrict hwithin hsuccess
    obtain ⟨p, hread, hnone⟩ := Stages.violations_of_compile hstrict hsuccess
    exact Stages.compile_eq_of_violations hread hnone
      (Stages.violations_eq_nil_of_within hwithin hnone)

/-- A routine that is above the base and let through by its extension. The empty extension of
another is none, whatever is granted. -/
theorem compile_more_capable_extended :
    let granted := ["", "Ext.Math.Fast", "Ext.Snd.Polyphonic"]
    let c : Capabilities :=
      { profile := .ok
          { base := .l2, extensions := ["Ext.Net", "Ext.Snd.Polyphonic", "Ext.Math.Fast"] }
        granted := .ok granted }
    let options : CompileOptions := { extensions := ["Ext.Math.Fast"] }
    let source : Source :=
      ⟨"procedure Fade; requires L4 via Ext.Math.Fast; begin end; begin x := 1 end.", "a", "pas"⟩
    let p : Pascal.Program := { modules := [⟨"main",
      [{ name := "Fade", body := [], tier := .l4, extension? := some "Ext.Math.Fast" },
        { name := "Mute", body := [], tier := .l3, extension? := some "" }]⟩] }
    ((programViolations p .l2 granted).map (·.message)).Sublist
        ((programViolations p .l1 [""]).map (·.message)) ∧
      (programViolations p .l2 granted).map (·.message) = ["Function 'Mute' requires L3"] ∧
      (Stages.atari2600.compile options source).success ∧
      { Stages.atari2600 with capabilities := c }.compile options source =
        Stages.atari2600.compile options source := by
  intro granted c options source p
  let ks : List Pascal.Kind :=
    [.keyword .procedure, .ident "Fade", .sign .semicolon, .keyword .requires, .ident "L4",
      .keyword .via, .ident "Ext", .sign .dot, .ident "Math", .sign .dot, .ident "Fast",
      .sign .semicolon, .keyword .begin, .keyword .end_, .sign .semicolon,
      .keyword .begin, .ident "x", .sign .assign, .int 1, .keyword .end_, .sign .dot]
  let q : Pascal.Program := { modules := [⟨"main",
    [{ name := "Fade", body := [], tier := .l4, extension? := some "Ext.Math.Fast" },
      { name := "main", body := [.assign "x" (.int 1)] }]⟩] }
  have hlex : (Pascal.lexFrom 0 source.text.toList).map Pascal.kinds = .ok ks := by
    dsimp only [source]
    with_unfolding_all rfl
  have hparse : Pascal.parse source.text = .ok q :=
    Pascal.parse_of_kinds hlex (by with_unfolding_all rfl)
  have hcode : Stages.code? .off q = some [0xA9, 0x01, 0x85, 0x80] := by decide +kernel
  have hsuccess : (Stages.atari2600.compile options source).success :=
    Stages.compile_succeeds_iff.mpr ⟨rfl, by decide, q, hparse, .inl rfl, _, hcode⟩
  have hwithin : Stages.atari2600.capabilities.Within c :=
    fun _ _ hoffer => ⟨_, _, rfl, by cases hoffer; exact ⟨by decide, by decide, by decide⟩⟩
  obtain ⟨hfewer, hsame⟩ := compile_more_capable
  exact ⟨hfewer p _ _ _ _ (by decide) (by decide), by with_unfolding_all rfl, hsuccess,
    hsame _ c options source rfl hwithin hsuccess⟩

end Cartridge
