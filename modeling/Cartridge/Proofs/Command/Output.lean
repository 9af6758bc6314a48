import Cartridge.Command.Run
import Cartridge.Proofs.Compiler.Stages
import Cartridge.Proofs.Files.Renaming

/-!
# What a command leaves behind

A run of `build` writes as its last act: whatever stops it, stops it before the
files have changed. One that ends well has changed one file at most, the one it
was asked for or the image beside its source, and never the source itself
unless it was told to. A run of `check` writes nothing.
-/

namespace Cartridge.Command

/-- A run fails and leaves the files as they were, or ends well and leaves them as `P` says. -/
def Leaves (fs : FileSystem) (P : FileSystem → Prop) (r : Run) : Prop :=
  r.exitCode ≠ 0 ∧ r.files = fs ∨ r.exitCode = 0 ∧ P r.files

section

variable {fs : FileSystem} {path : String} {build : BuildOptions} {options : CompileOptions}
  {P Q : FileSystem → Prop} {files : FileSystem} {r : Run}

theorem leaves_fail (lines : List String) : Leaves fs P (.fail fs lines) :=
  .inl ⟨Nat.one_ne_zero, rfl⟩

theorem Leaves.after (h : Leaves fs P r) (complaints : List String) :
    Leaves fs P (r.after complaints) := h

theorem Leaves.mono (h : Leaves fs P r) (hPQ : ∀ files, P files → Q files) : Leaves fs Q r :=
  h.imp_right fun hP => ⟨hP.1, hPQ _ hP.2⟩

theorem target_of_forTarget {target : Target} {stages : Stages}
    (h : Stages.forTarget target = .ok stages) :
    target = .atari2600 ∧ stages = Stages.atari2600 := by
  cases target <;> cases h
  exact ⟨rfl, rfl⟩

/-- A command comes to run with flags that were read, options that were settled and the stages
for the Atari, or it fails before. -/
theorem leaves_withStages {flags : List String}
    {run : Stages → BuildOptions → CompileOptions → Run}
    (h : ∀ ignored build options, BuildOptions.parse flags = (ignored, .ok build) →
      build.compileOptions fs path = .ok options → options.target = .atari2600 →
      Leaves fs P (run Stages.atari2600 build options)) :
    Leaves fs P (withStages fs path flags run) := by
  rw [withStages]
  rcases hparse : BuildOptions.parse flags with ⟨ignored, e | build⟩
  · exact (leaves_fail _).after _
  · refine Leaves.after ?_ _
    dsimp only
    split
    next => exact leaves_fail _
    next options hoptions =>
      split
      next => exact leaves_fail _
      next stages hstages =>
        obtain ⟨htarget, rfl⟩ := target_of_forTarget hstages
        exact h ignored build options hparse hoptions htarget

-- ---------------------------------------------------------------------------
-- The flags that name an output
-- ---------------------------------------------------------------------------

/-- Whether a flag says where the output goes. -/
def namesOutput (flag : String) : Bool :=
  flag == "-o" || (valueOf? "--output=" flag).isSome

/-- A flag with a value that leaves the output as it is. -/
def KeepsOutput (set : BuildOptions.Setter) : Prop :=
  ∀ o value o', set o value = .ok o' → o'.output? = o.output?

/-- Of the flags with a value, only the first is about the output. -/
theorem keepsOutput_of_mem_tail :
    ∀ setter ∈ BuildOptions.setters.tail, KeepsOutput setter.2 := by
  simp only [BuildOptions.setters, List.tail_cons, List.forall_mem_cons]
  refine ⟨?target, ?profile, ?enforcement, ?extension, ?level, ?dispatch, ?emit, ?project, by simp⟩
  case extension =>
    rintro o value _ ⟨⟩
    rw [BuildOptions.addExtension]
    split_ifs <;> rfl
  case project =>
    rintro o value _ ⟨⟩
    rfl
  all_goals
    intro o value o' h
    obtain ⟨_, -, rfl⟩ := map_eq_ok_iff.1 h
    rfl

theorem output?_of_applyFlag? {o o' : BuildOptions} {flag : String}
    (h : o.applyFlag? flag = some (.ok o')) :
    o'.output? = none ↔ o.output? = none ∧ valueOf? "--output=" flag = none := by
  rw [BuildOptions.applyFlag?] at h
  split_ifs at h with hdebug
  · obtain rfl := Except.ok.inj (Option.some.inj h)
    obtain rfl := eq_of_beq hdebug
    have hvalue : valueOf? "--output=" "--debug" = none := by decide +kernel
    simp [hvalue]
  · cases hvalue : valueOf? "--output=" flag with
    | some value =>
      have hset : ({ o with output? := some value } : BuildOptions) = o' := by
        simpa [BuildOptions.setters, hvalue] using h
      simp [← hset]
    | none =>
      have htail : BuildOptions.setters.tail.findSome? (fun s => (valueOf? s.1 flag).map (s.2 o)) =
          some (.ok o') := by
        simpa [BuildOptions.setters, hvalue] using h
      obtain ⟨⟨key, set⟩, hmem, hset⟩ := List.exists_of_findSome?_eq_some htail
      obtain ⟨value, -, hset⟩ := Option.map_eq_some_iff.1 hset
      simp [keepsOutput_of_mem_tail _ hmem o value o' hset]

theorem valueOf?_output_of_applyFlag? {o : BuildOptions} {flag : String}
    (h : o.applyFlag? flag = none) : valueOf? "--output=" flag = none := by
  rw [BuildOptions.applyFlag?] at h
  split_ifs at h
  have hfirst := List.findSome?_eq_none_iff.1 h _ List.mem_cons_self
  simpa using hfirst

/-- Flags leave the output open exactly if none of them names it. -/
theorem output?_eq_none_iff {o o' : BuildOptions} {flags ignored : List String}
    (h : BuildOptions.parseFrom o flags = (ignored, .ok o')) :
    o'.output? = none ↔ o.output? = none ∧ ∀ flag ∈ flags, namesOutput flag = false := by
  fun_induction BuildOptions.parseFrom o flags generalizing ignored with
  | case1 => simp_all
  | case2 => simp at h
  | case3 o path rest ih => simp [ih h, namesOutput]
  | case4 o flag rest hone htwo o1 hflag ih =>
    have hnamed : namesOutput flag = false ↔ valueOf? "--output=" flag = none := by
      cases rest <;> simp_all [namesOutput]
    rw [ih h, output?_of_applyFlag? hflag, List.forall_mem_cons, hnamed, and_assoc]
  | case5 o flag rest hone htwo e hflag => simp at h
  | case6 o flag rest hone htwo hflag ignored' result hrest ih =>
    have hnamed : namesOutput flag = false := by
      have hvalue := valueOf?_output_of_applyFlag? hflag
      cases rest <;> simp_all [namesOutput]
    obtain ⟨-, rfl⟩ := Prod.mk.inj h
    rw [ih hrest, List.forall_mem_cons]
    simp [hnamed]

-- ---------------------------------------------------------------------------
-- What each command writes
-- ---------------------------------------------------------------------------

theorem exists_read_of_readText {text : String} (h : fs.readText path = .ok text) :
    ∃ bytes, fs.read path = .ok bytes := by
  rw [FileSystem.readText] at h
  split at h
  next => cases h
  next bytes hread => exact ⟨bytes, hread⟩

/-- A file that compiles is a source by its extension, and its image is as long as a cartridge. -/
theorem exists_of_compileFile (htarget : options.target = .atari2600)
    (h : (Stages.atari2600.compileFile options fs path).success) :
    (∃ bytes, fs.read path = .ok bytes) ∧ Pascal.accepts (Path.extension path) ∧
      (Stages.atari2600.compileFile options fs path).code.length = 4096 := by
  rw [Stages.compileFile] at h ⊢
  split at h
  next text htext =>
    obtain ⟨a, hbuild⟩ := Stages.compile_success_iff.1 h
    obtain ⟨haccepts, p, -, warnings, -, q, -, code, -, rfl⟩ :=
      (Stages.build_eq_ok_iff htarget).1 hbuild
    refine ⟨exists_read_of_readText htext, haccepts, ?_⟩
    simp only [Stages.compile_code hbuild]
    exact Rom.length_package code
  next => cases h

/-- An image goes beside its source, not over it. -/
theorem place_ne_of_accepts {bytes : List UInt8} (hread : fs.read path = .ok bytes)
    (haccepts : Pascal.accepts (Path.extension path)) :
    fs.place path ≠ fs.place (Path.withExtension path "bin") := by
  refine FileSystem.place_withExtension_ne hread ?_ ?_ (by decide)
  · intro hempty
    rw [hempty] at haccepts
    exact absurd haccepts (by decide)
  · intro hbin
    rw [hbin] at haccepts
    exact absurd haccepts (by decide +kernel)

/-- What `build` leaves when it makes an image: the image that compilation gives. -/
def LeftImage (fs : FileSystem) (path : String) (build : BuildOptions) (options : CompileOptions)
    (files : FileSystem) : Prop :=
  let result := Stages.atari2600.compileFile options fs path
  result.success ∧ result.code.length = 4096 ∧
    fs.Wrote (build.romPath path) result.code files

/-- What `build` leaves when it dumps a level: the dump, if it was told where. -/
def LeftDump (fs : FileSystem) (path : String) (build : BuildOptions) (options : CompileOptions)
    (files : FileSystem) : Prop :=
  ∃ text artifacts dump, fs.readText path = .ok text ∧
    (Stages.atari2600.buildIr options ⟨text, path, Path.extension path⟩).outcome = .ok artifacts ∧
    dump? artifacts build.emit = some dump ∧
    (∀ out, build.output? = some out → fs.Wrote out dump.toUTF8.data.toList files) ∧
    (build.output? = none → files = fs)

theorem leaves_buildRom (htarget : options.target = .atari2600) :
    Leaves fs (LeftImage fs path build options)
      (buildRom Stages.atari2600 fs path build options) := by
  rw [buildRom]
  refine Leaves.after ?_ _
  split_ifs with hsuccess
  · split
    next fs' hwrite =>
      obtain ⟨-, -, hlength⟩ := exists_of_compileFile htarget hsuccess
      exact .inr ⟨rfl, hsuccess, hlength, FileSystem.wrote_of_write hwrite⟩
    next => exact leaves_fail _
  · exact leaves_fail _

theorem leaves_writeDump (dump : String) :
    Leaves fs (fun files =>
        (∀ out, build.output? = some out → fs.Wrote out dump.toUTF8.data.toList files) ∧
        (build.output? = none → files = fs))
      (writeDump fs build dump) := by
  rw [writeDump]
  split
  next hout => exact .inr ⟨rfl, by simp [hout], fun _ => rfl⟩
  next out hout =>
    split
    next fs' hwrite =>
      have hwrote := FileSystem.wrote_of_write hwrite
      exact .inr ⟨rfl, by simpa [hout] using hwrote, by simp [hout]⟩
    next => exact leaves_fail _

theorem exists_dump (artifacts : Artifacts) {emit : Emit} (h : emit ≠ .rom) :
    ∃ dump, dump? artifacts emit = some dump := by
  cases emit with
  | rom => exact absurd rfl h
  | structured | flat | register | listing => exact ⟨_, rfl⟩

theorem leaves_buildDump (hemit : build.emit ≠ .rom) :
    Leaves fs (LeftDump fs path build options)
      (buildDump Stages.atari2600 fs path build options) := by
  rw [buildDump]
  split
  next => exact leaves_fail _
  next text htext =>
    refine Leaves.after ?_ _
    split
    next => exact leaves_fail _
    next artifacts hbuild =>
      obtain ⟨dump, hdump⟩ := exists_dump artifacts hemit
      rw [hdump]
      exact (leaves_writeDump dump).mono fun files hfiles =>
        ⟨text, artifacts, dump, htext, hbuild, hdump, hfiles⟩

theorem leaves_checkSource :
    Leaves fs (· = fs) (checkSource Stages.atari2600 fs path options) := by
  rw [checkSource]
  split
  next => exact leaves_fail _
  next =>
    refine Leaves.after ?_ _
    split_ifs
    · exact .inr ⟨rfl, rfl⟩
    · exact leaves_fail _

theorem source_of_leftImage (htarget : options.target = .atari2600) (hout : build.output? = none)
    (h : LeftImage fs path build options files) :
    ∃ source, fs.read path = .ok source ∧ files.read path = .ok source := by
  obtain ⟨hsuccess, -, hwrote⟩ := h
  obtain ⟨⟨source, hsource⟩, haccepts, -⟩ := exists_of_compileFile htarget hsuccess
  have hbeside : build.romPath path = Path.withExtension path "bin" := by
    simp [BuildOptions.romPath, hout]
  rw [hbeside] at hwrote
  exact ⟨source, hsource, hwrote.read_of_ne (place_ne_of_accepts hsource haccepts) hsource⟩

theorem source_of_leftDump (hout : build.output? = none)
    (h : LeftDump fs path build options files) :
    ∃ source, fs.read path = .ok source ∧ files.read path = .ok source := by
  obtain ⟨text, _, _, htext, -, -, -, hfiles⟩ := h
  obtain ⟨source, hsource⟩ := exists_read_of_readText htext
  exact ⟨source, hsource, hfiles hout ▸ hsource⟩

theorem leaves_check (fs : FileSystem) (args : List String) :
    Leaves fs (· = fs) (run fs ("check" :: args)) := by
  cases args with
  | nil => exact leaves_fail _
  | cons path flags => exact leaves_withStages fun _ _ _ _ _ _ => leaves_checkSource

theorem leaves_build (fs : FileSystem) (args : List String) :
    Leaves fs (fun files => ∃ path flags ignored build options, args = path :: flags ∧
        BuildOptions.parse flags = (ignored, .ok build) ∧
        build.compileOptions fs path = .ok options ∧ options.target = .atari2600 ∧
        if build.emit = .rom then LeftImage fs path build options files
        else LeftDump fs path build options files)
      (run fs ("build" :: args)) := by
  cases args with
  | nil => exact .inl ⟨Nat.one_ne_zero, rfl⟩
  | cons path flags =>
    refine leaves_withStages fun ignored build options hparse hoptions htarget => ?_
    split_ifs with hemit
    · refine (leaves_buildRom htarget).mono fun files hfiles => ?_
      exact ⟨path, flags, ignored, build, options, rfl, hparse, hoptions, htarget,
        by rwa [if_pos hemit]⟩
    · refine (leaves_buildDump hemit).mono fun files hfiles => ?_
      exact ⟨path, flags, ignored, build, options, rfl, hparse, hoptions, htarget,
        by rwa [if_neg hemit]⟩

end

/-- Commands leave no partial output. A run that fails changes nothing, nor does any run of
`check`; a build that ends well changes at most the one file that it is for, and not its source
unless a flag names the output. -/
theorem run_leaves_no_partial_output (fs : FileSystem) (args : List String) :
    (run fs ("check" :: args)).files = fs ∧
    ((run fs ("build" :: args)).exitCode ≠ 0 → (run fs ("build" :: args)).files = fs) ∧
    ((run fs ("build" :: args)).exitCode = 0 →
      ∃ path flags ignored build options, args = path :: flags ∧
        BuildOptions.parse flags = (ignored, .ok build) ∧
        build.compileOptions fs path = .ok options ∧
        (build.emit = .rom →
          LeftImage fs path build options (run fs ("build" :: args)).files) ∧
        (build.emit ≠ .rom →
          LeftDump fs path build options (run fs ("build" :: args)).files) ∧
        (build.output? = none ↔ ∀ flag ∈ flags, namesOutput flag = false) ∧
        (build.output? = none → ∃ source, fs.read path = .ok source ∧
          (run fs ("build" :: args)).files.read path = .ok source)) := by
  refine ⟨(leaves_check fs args).elim And.right And.right, fun hfail => ?_, fun hok => ?_⟩
  · obtain ⟨-, hfiles⟩ | ⟨hok, -⟩ := leaves_build fs args
    · exact hfiles
    · exact absurd hok hfail
  · obtain ⟨hfail, -⟩ | ⟨-, path, flags, ignored, build, options, rfl, hparse, hoptions, htarget,
      hleft⟩ := leaves_build fs args
    · exact absurd hok hfail
    · have hout := output?_eq_none_iff hparse
      simp only [true_and] at hout
      refine ⟨path, flags, ignored, build, options, rfl, hparse, hoptions, ?_, ?_, hout, ?_⟩
      · intro hemit
        rwa [if_pos hemit] at hleft
      · intro hemit
        rwa [if_neg hemit] at hleft
      · intro hnone
        split_ifs at hleft
        · exact source_of_leftImage htarget hnone hleft
        · exact source_of_leftDump hnone hleft

/-- A build that writes its image, the same build with an output that cannot be written, and a
check of the same source. -/
theorem run_leaves_no_partial_output_pong :
    let fs : FileSystem :=
      { workDir := ["home"]
        entries := [(["home", "pong.pas"], .file "begin x := 1 end.".toUTF8.data.toList)] }
    let built := run fs ["build", "./pong.pas"]
    let refused := run fs ["build", "./pong.pas", "--output=pong.pas/"]
    built.exitCode = 0 ∧ built.files.isFile "pong.bin" ∧
      (∃ options, ({} : BuildOptions).compileOptions fs "./pong.pas" = .ok options ∧
        LeftImage fs "./pong.pas" {} options built.files) ∧
      (∃ source, fs.read "./pong.pas" = .ok source ∧ built.files.read "./pong.pas" = .ok source) ∧
      refused.exitCode ≠ 0 ∧ refused.files = fs ∧
      (run fs ["check", "./pong.pas"]).files = fs := by
  intro fs built refused
  have hbuilt : built.exitCode = 0 ∧ built.files.isFile "pong.bin" := by decide +kernel
  have hrefused : refused.exitCode ≠ 0 := by decide +kernel
  obtain ⟨hcheck, -, hok⟩ := run_leaves_no_partial_output fs ["./pong.pas"]
  obtain ⟨-, hfail, -⟩ := run_leaves_no_partial_output fs ["./pong.pas", "--output=pong.pas/"]
  obtain ⟨path, flags, ignored, build, options, hargs, hparse, hoptions, himage, -, hnone,
    hsource⟩ := hok hbuilt.1
  obtain ⟨rfl, rfl⟩ := List.cons.inj hargs
  have hflags : BuildOptions.parse [] = ([], .ok {}) := rfl
  rw [hflags] at hparse
  obtain ⟨rfl, hbuild⟩ := Prod.mk.inj hparse
  obtain rfl := Except.ok.inj hbuild
  have hdefault : ({} : BuildOptions).output? = none := hnone.mpr (List.forall_mem_nil _)
  exact ⟨hbuilt.1, hbuilt.2, ⟨options, hoptions, himage rfl⟩, hsource hdefault, hrefused,
    hfail hrefused, hcheck⟩

end Cartridge.Command
