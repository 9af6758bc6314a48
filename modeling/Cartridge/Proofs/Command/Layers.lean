import Mathlib.Data.List.Induction
import Cartridge.Command.Options

/-!
# Layers of options

Options come in layers: the defaults, then project files one after another, then
flags. Of every choice the last layer that makes it counts; extensions are listed
in the order in which they are first mentioned. A project file is written over
the options setting by setting, but what can fail comes first, so that a layer
that fails leaves no trace.
-/

namespace Cartridge

-- ---------------------------------------------------------------------------
-- One layer
-- ---------------------------------------------------------------------------

/-- What a layer says; `none` leaves a choice to the layers below. -/
structure Settings where
  target? : Option Target
  tier? : Option Tier
  enforcement? : Option Enforcement
  optLevel? : Option OptLevel
  extensions : List String

def ProjectFile.settings (p : ProjectFile) : Settings where
  target? := p.target?
  tier? := p.profile?.bind Tier.ofText?
  enforcement? := p.enforcement?
  optLevel? := p.optLevel?
  extensions := p.extensions

def Command.BuildOptions.settings (flags : BuildOptions) : Settings where
  target? := flags.target?
  tier? := flags.profile?
  enforcement? := flags.enforcement?
  optLevel? := flags.optLevel?
  extensions := flags.extensions

def Settings.over (s : Settings) (options : CompileOptions) : CompileOptions :=
  { options with
    target := s.target?.getD options.target
    tier := s.tier?.getD options.tier
    enforcement := s.enforcement?.getD options.enforcement
    optLevel := s.optLevel?.getD options.optLevel
    optimize := s.optLevel?.elim options.optimize fun level => decide (OptLevel.off < level)
    extensions := (options.addExtensions s.extensions).extensions }

/-- Why a project file cannot be written over any options: its profile names no tier. -/
def ProjectFile.fault? (p : ProjectFile) : Option ProjectError :=
  p.profile?.bind fun profile =>
    match Tier.read profile with
    | .ok _ => none
    | .error e => some (.profile e)

theorem ProjectFile.write_of_fault {p : ProjectFile} (h : p.fault? = some e)
    (options : CompileOptions) : p.write.run.run options = (.error e, options) := by
  obtain ⟨profile, hprofile, hread⟩ := Option.bind_eq_some_iff.mp h
  split at hread
  · cases hread
  · next hread' =>
    cases hread
    simp only [write, hprofile, hread']
    rfl

theorem ProjectFile.write_of_none {p : ProjectFile} (h : p.fault? = none)
    (options : CompileOptions) :
    p.write.run.run options = (.ok (), p.settings.over options) := by
  obtain ⟨profile?, enforcement?, extensions, target?, optLevel?⟩ := p
  cases profile? with
  | none => cases enforcement? <;> cases target? <;> cases optLevel? <;> rfl
  | some profile =>
    cases htier : Tier.ofText? profile with
    | none => simp [fault?, Tier.read, htier] at h
    | some tier =>
      simp only [write, settings, Settings.over, Tier.read, htier, Option.bind_some]
      cases enforcement? <;> cases target? <;> cases optLevel? <;> rfl

theorem Command.BuildOptions.apply_eq (flags : BuildOptions) (options : CompileOptions) :
    flags.apply options =
      { flags.settings.over options with
        debugInfo := flags.debugInfo || options.debugInfo
        dispatch := flags.dispatch?.getD options.dispatch } := by
  unfold BuildOptions.apply
  cases hlevel : flags.optLevel? <;>
    simp [settings, Settings.over, hlevel, CompileOptions.withLevel, CompileOptions.addExtensions]

-- ---------------------------------------------------------------------------
-- Extensions
-- ---------------------------------------------------------------------------

theorem eraseDups_concat (ids : List String) (ext : String) :
    (ids ++ [ext]).eraseDups =
      if ids.eraseDups.contains ext then ids.eraseDups else ids.eraseDups ++ [ext] := by
  by_cases hknown : ext ∈ ids <;>
    simp [List.eraseDups_append, List.cons_removeAll, List.eraseDups_cons, hknown]

theorem nodup_eraseDups (ids : List String) : ids.eraseDups.Nodup := by
  induction ids using List.reverseRecOn with
  | nil => exact List.nodup_nil
  | append_singleton ids ext ih =>
    rw [eraseDups_concat]
    split
    · exact ih
    · next hnew =>
      refine List.nodup_append.mpr ⟨ih, by simp, fun known hknown last hlast heq => hnew ?_⟩
      rwa [← List.mem_singleton.mp hlast, ← heq, List.contains_iff_mem]

namespace CompileOptions

variable {options : CompileOptions}

theorem addExtensions_cons :
    options.addExtensions (ext :: ids) = (options.addExtensions [ext]).addExtensions ids := rfl

/-- New extensions go behind those that were mentioned before. -/
theorem addExtensions_eraseDups (h : options.extensions = mentioned.eraseDups) :
    (options.addExtensions ids).extensions = (mentioned ++ ids).eraseDups := by
  induction ids generalizing options mentioned with
  | nil => simpa [addExtensions] using h
  | cons ext ids ih =>
    have hone : (options.addExtensions [ext]).extensions = (mentioned ++ [ext]).eraseDups := by
      rw [eraseDups_concat, ← h]
      rfl
    rw [addExtensions_cons, ih hone, ← List.append_cons]

theorem mem_addExtensions :
    ext ∈ (options.addExtensions ids).extensions ↔ ext ∈ options.extensions ∨ ext ∈ ids := by
  induction ids generalizing options with
  | nil => simp [addExtensions]
  | cons ext' ids ih =>
    have hone : ext ∈ (options.addExtensions [ext']).extensions ↔
        ext ∈ options.extensions ∨ ext = ext' := by
      by_cases hknown : ext' ∈ options.extensions
      · simpa [addExtensions, hknown] using fun h => h ▸ hknown
      · simp [addExtensions, hknown]
    rw [addExtensions_cons, ih, hone, List.mem_cons, or_assoc]

theorem addExtensions_of_known (h : ∀ ext ∈ ids, ext ∈ options.extensions) :
    options.addExtensions ids = options := by
  induction ids with
  | nil => rfl
  | cons ext ids ih =>
    obtain ⟨hext, hids⟩ := List.forall_mem_cons.mp h
    have hone : options.addExtensions [ext] = options := by simp [addExtensions, hext]
    rw [addExtensions_cons, hone, ih hids]

end CompileOptions

theorem Settings.over_over (s : Settings) (options : CompileOptions) :
    s.over (s.over options) = s.over options := by
  have hknown : (s.over options).addExtensions s.extensions = s.over options :=
    CompileOptions.addExtensions_of_known fun ext hext =>
      CompileOptions.mem_addExtensions.mpr (.inr hext)
  obtain ⟨target?, tier?, enforcement?, optLevel?, extensions⟩ := s
  rw [Settings.over, hknown]
  cases target? <;> cases tier? <;> cases enforcement? <;> cases optLevel? <;> rfl

-- ---------------------------------------------------------------------------
-- Layers in a row
-- ---------------------------------------------------------------------------

/-- What options are after layers on top of the defaults. -/
structure Layered (layers : List Settings) (options : CompileOptions) : Prop where
  target : options.target = (layers.filterMap (·.target?)).getLastD ({} : CompileOptions).target
  tier : options.tier = (layers.filterMap (·.tier?)).getLastD ({} : CompileOptions).tier
  enforcement : options.enforcement =
    (layers.filterMap (·.enforcement?)).getLastD ({} : CompileOptions).enforcement
  optLevel : options.optLevel =
    (layers.filterMap (·.optLevel?)).getLastD ({} : CompileOptions).optLevel
  optimize : options.optimize = decide (.off < options.optLevel)
  extensions : options.extensions = (layers.flatMap (·.extensions)).eraseDups

theorem layered_nil : Layered [] {} :=
  ⟨rfl, rfl, rfl, rfl, rfl, rfl⟩

theorem getLastD_filterMap_concat (f : Settings → Option α) (layers : List Settings)
    (s : Settings) (default : α) :
    ((layers ++ [s]).filterMap f).getLastD default =
      (f s).getD ((layers.filterMap f).getLastD default) := by
  cases hs : f s <;> simp [List.filterMap_append, hs]

theorem Layered.over (h : Layered layers options) (s : Settings) :
    Layered (layers ++ [s]) (s.over options) := by
  refine ⟨?_, ?_, ?_, ?_, ?_, ?_⟩
  · rw [getLastD_filterMap_concat, ← h.target]
    rfl
  · rw [getLastD_filterMap_concat, ← h.tier]
    rfl
  · rw [getLastD_filterMap_concat, ← h.enforcement]
    rfl
  · rw [getLastD_filterMap_concat, ← h.optLevel]
    rfl
  · -- The switch follows the level, whichever layer the level is from.
    cases hlevel : s.optLevel? <;> simp [Settings.over, hlevel, h.optimize]
  · rw [List.flatMap_append, List.flatMap_singleton]
    exact CompileOptions.addExtensions_eraseDups h.extensions

theorem Layered.apply (h : Layered layers options) (flags : Command.BuildOptions) :
    Layered (layers ++ [flags.settings]) (flags.apply options) := by
  have hover := h.over flags.settings
  rw [flags.apply_eq]
  exact ⟨hover.target, hover.tier, hover.enforcement, hover.optLevel, hover.optimize,
    hover.extensions⟩

theorem Layered.effectiveLevel (h : Layered layers options) :
    options.effectiveLevel = options.optLevel := by
  rw [CompileOptions.effectiveLevel, h.optimize]
  cases options.optLevel <;> rfl

/-- Writes project files over the options one after another, each over what the one before has
left. Also gives those that could be written. -/
def ProjectFile.writeAll (options : CompileOptions) :
    List ProjectFile → List ProjectFile × CompileOptions
  | [] => ([], options)
  | p :: ps =>
    match p.write.run.run options with
    | (.ok (), options) =>
      let (written, options) := writeAll options ps
      (p :: written, options)
    | (.error _, options) => writeAll options ps

theorem Layered.writeAll (h : Layered layers options) (ps : List ProjectFile) :
    Layered (layers ++ (ProjectFile.writeAll options ps).1.map (·.settings))
      (ProjectFile.writeAll options ps).2 := by
  induction ps generalizing layers options with
  | nil => simpa [ProjectFile.writeAll] using h
  | cons p ps ih =>
    rw [ProjectFile.writeAll]
    cases hfault : p.fault? with
    | none => simpa [ProjectFile.write_of_none hfault] using ih (h.over p.settings)
    | some e => simpa [ProjectFile.write_of_fault hfault] using ih h

/-- Project files in any number and then flags: the last layer that was written and makes a choice
counts, and the optimizer is on exactly at the levels above `off`. A project file that fails
leaves the options as they were, and writing one twice is writing it once. -/
theorem layered_apply_writeAll (ps : List ProjectFile) (flags : Command.BuildOptions) :
    let written := (ProjectFile.writeAll {} ps).1
    let options := flags.apply (ProjectFile.writeAll {} ps).2
    Layered (written.map (·.settings) ++ [flags.settings]) options ∧
      options.effectiveLevel = options.optLevel ∧ options.extensions.Nodup ∧
      (∀ (p : ProjectFile) options e, (p.write.run.run options).1 = .error e →
        (p.write.run.run options).2 = options) ∧
      ∀ (p : ProjectFile) options,
        p.write.run.run (p.write.run.run options).2 = p.write.run.run options := by
  intro written options
  have hlayered : Layered (written.map (·.settings) ++ [flags.settings]) options :=
    (layered_nil.writeAll ps).apply flags
  refine ⟨hlayered, hlayered.effectiveLevel, ?_, ?_, ?_⟩
  · rw [hlayered.extensions]
    exact nodup_eraseDups _
  · intro p options e he
    cases hfault : p.fault? with
    | none => simp [ProjectFile.write_of_none hfault] at he
    | some e => rw [ProjectFile.write_of_fault hfault]
  · intro p options
    cases hfault : p.fault? with
    | none => simp only [ProjectFile.write_of_none hfault, Settings.over_over]
    | some e => simp only [ProjectFile.write_of_fault hfault]

/-- The file in the middle asks for another target, but names no tier. -/
theorem layered_apply_writeAll_fault :
    let broken : ProjectFile :=
      { profile? := some "L9", target? := some .nes, extensions := ["Ext.Net"] }
    let ps : List ProjectFile :=
      [{ profile? := some "GV.Spec.L3", optLevel? := some .full, extensions := ["Ext.A", "Ext.B"] },
        broken, { profile? := some " l2 ", extensions := ["Ext.C", "Ext.A"] }]
    let flags : Command.BuildOptions :=
      { optLevel? := some .basic, extensions := ["Ext.Net", "Ext.B"] }
    let options := flags.apply (ProjectFile.writeAll {} ps).2
    (broken.write.run.run options).1 = .error (.profile ⟨"L9"⟩) ∧
      (broken.write.run.run options).2 = options ∧
      options.target = .atari2600 ∧ options.tier = .l2 ∧ options.effectiveLevel = .basic ∧
      options.extensions = ["Ext.A", "Ext.B", "Ext.C", "Ext.Net"] := by
  intro broken ps flags options
  have hbroken : (broken.write.run.run options).1 = .error (.profile ⟨"L9"⟩) := by decide +kernel
  obtain ⟨hlayered, hlevel, -, hatomic, -⟩ := layered_apply_writeAll ps flags
  have hwritten : (ProjectFile.writeAll {} ps).1 = [ps[0], ps[2]] := by decide +kernel
  rw [hwritten] at hlayered
  refine ⟨hbroken, hatomic broken options _ hbroken, ?_, ?_, ?_, ?_⟩
  · exact hlayered.target
  · exact hlayered.tier.trans (by decide +kernel)
  · exact hlevel.trans hlayered.optLevel
  · exact hlayered.extensions.trans (by decide +kernel)

end Cartridge
