import Mathlib.Control.Monad.Basic
import Cartridge.Proofs.Compiler.Stages
import Cartridge.Proofs.Listing.Comments

/-!
# What an image depends on

The name of the source file is only carried along, debugging information shows
only in comments, and what a request asks for can stop a compilation but not
change its code. So the image of a source is told by its text and the level.
-/

namespace Cartridge

theorem toOption_eq_some_iff {x : Except ε α} : x.toOption = some a ↔ x = .ok a := by
  cases x <;> simp [Except.toOption]

theorem Register.lower_sourceFile (p : Flat.Program) (file : String) :
    Register.lower { p with sourceFile := file } =
      (Register.lower p).map fun q => { q with sourceFile := file } := by
  have htargets : Flat.Program.targets { p with sourceFile := file } = p.targets := rfl
  unfold Register.lower
  rw [htargets]
  cases AddressMap.bindAll {} p.targets <;> rfl

namespace Stages

theorem target_of_build (h : (atari2600.build options source).outcome = .ok a) :
    options.target = .atari2600 := by
  rw [outcome_build] at h
  simp only [finish, bind_eq_ok_iff] at h
  obtain ⟨b, -, code, hcode, -⟩ := h
  rw [generate_eq] at hcode
  split at hcode
  · next htarget => exact htarget
  · cases hcode

/-- The machine code of a program at a level, if it has any. -/
def code? (level : OptLevel) (p : Pascal.Program) : Option (List UInt8) :=
  match Register.lower (p.lower.optimize level) with
  | .ok q =>
    (Listing.assemble ((Listing.ofProgram false (q.optimize level)).optimize level).lines).toOption
  | .error _ => none

/-- A build makes the code of the program, under whatever name and with or without debugging
information. -/
theorem code?_eq_some_iff {options : CompileOptions} (source : Source) :
    code? options.effectiveLevel p = some code ↔
      ∃ q, Register.lower ((named source p).lower.optimize options.effectiveLevel) = .ok q ∧
        Listing.assemble (finalListing options q).lines = .ok code := by
  have hnamed : (named source p).lower.optimize options.effectiveLevel =
      { p.lower.optimize options.effectiveLevel with sourceFile := source.file } := by
    unfold Flat.Program.optimize
    split <;> rfl
  have hlisting (q : Register.Program) :
      Listing.assemble
          (finalListing options { q with sourceFile := source.file }).lines = .ok code ↔
        Listing.assemble ((Listing.ofProgram false (q.optimize options.effectiveLevel)).optimize
          options.effectiveLevel).lines = .ok code := by
    have hstream :
        (Register.Program.optimize options.effectiveLevel
          { q with sourceFile := source.file }).stream =
        (q.optimize options.effectiveLevel).stream := by
      unfold Register.Program.optimize
      split <;> rfl
    refine Listing.assemble_optimize_congr ?_
    change (Listing.streamLines _ _).filter _ = (Listing.streamLines _ _).filter _
    rw [hstream]
    exact Listing.filter_speaks_streamLines _ _
  rw [hnamed, Register.lower_sourceFile, code?]
  cases Register.lower (p.lower.optimize options.effectiveLevel) with
  | error e => simp [Except.map]
  | ok q =>
    simp only [Except.map, Except.ok.injEq, exists_eq_left', hlisting, toOption_eq_some_iff]

/-- A compilation makes an image exactly if nothing stops it and the image is that of the code. -/
theorem compile_image_iff {image : List UInt8} :
    (atari2600.compile options source).success ∧
        (atari2600.compile options source).code = image ↔
      options.target = .atari2600 ∧ Pascal.accepts source.extension ∧
      ∃ p, Pascal.parse source.text = .ok p ∧
        (atari2600.violations options p = .ok [] ∨ options.enforcement = .advisory) ∧
        ∃ code, code? options.effectiveLevel p = some code ∧ Rom.package code = image := by
  rw [compile_success_iff]
  constructor
  · rintro ⟨⟨a, ha⟩, rfl⟩
    have htarget := target_of_build ha
    obtain ⟨haccepts, p, hparse, warnings, hvalid, q, hq, code, hcode, rfl⟩ :=
      (build_eq_ok_iff htarget).mp ha
    exact ⟨htarget, haccepts, p, hparse, exists_validate_iff.mp ⟨warnings, hvalid⟩, code,
      (code?_eq_some_iff source).mpr ⟨q, hq, hcode⟩, (compile_code ha).symm⟩
  · rintro ⟨htarget, haccepts, p, hparse, hviolations, code, hcode, rfl⟩
    obtain ⟨warnings, hvalid⟩ := exists_validate_iff.mpr hviolations
    obtain ⟨q, hq, hcode⟩ := (code?_eq_some_iff source).mp hcode
    have hbuild := (build_eq_ok_iff htarget).mpr
      ⟨haccepts, p, hparse, warnings, hvalid, q, hq, code, hcode, rfl⟩
    exact ⟨⟨_, hbuild⟩, compile_code hbuild⟩

theorem compile_succeeds_iff :
    (atari2600.compile options source).success ↔
      options.target = .atari2600 ∧ Pascal.accepts source.extension ∧
      ∃ p, Pascal.parse source.text = .ok p ∧
        (atari2600.violations options p = .ok [] ∨ options.enforcement = .advisory) ∧
        ∃ code, code? options.effectiveLevel p = some code := by
  constructor
  · intro h
    obtain ⟨htarget, haccepts, p, hparse, hviolations, code, hcode, -⟩ :=
      compile_image_iff.mp ⟨h, rfl⟩
    exact ⟨htarget, haccepts, p, hparse, hviolations, code, hcode⟩
  · rintro ⟨htarget, haccepts, p, hparse, hviolations, code, hcode⟩
    exact (compile_image_iff.mpr
      ⟨htarget, haccepts, p, hparse, hviolations, code, hcode, rfl⟩).1

end Stages

/-- Two compilations of one text at one level and for one target make the same image if both make
any, whatever else they are asked and however their sources are named. Whether an image is made
does not depend on debugging information, dispatch and the name of the file. -/
theorem compile_code_congr (options options' : CompileOptions) (source source' : Source) :
    (source.text = source'.text → options.effectiveLevel = options'.effectiveLevel →
      options.target = options'.target →
      (Stages.atari2600.compile options source).success →
      (Stages.atari2600.compile options' source').success →
      (Stages.atari2600.compile options source).code =
        (Stages.atari2600.compile options' source').code) ∧
    ∀ debugInfo dispatch file,
      (Stages.atari2600.compile { options with debugInfo, dispatch } { source with file }).success =
        (Stages.atari2600.compile options source).success := by
  constructor
  · intro htext hlevel _ h h'
    obtain ⟨-, -, p, hparse, -, code, hcode, himage⟩ := Stages.compile_image_iff.mp ⟨h, rfl⟩
    obtain ⟨-, -, p', hparse', -, code', hcode', himage'⟩ := Stages.compile_image_iff.mp ⟨h', rfl⟩
    obtain rfl : p = p' := Except.ok.inj (hparse.symm.trans (htext ▸ hparse'))
    obtain rfl : code = code' := Option.some.inj (hcode.symm.trans (hlevel ▸ hcode'))
    exact himage.symm.trans himage'
  · intro debugInfo dispatch file
    rw [Bool.eq_iff_iff, Stages.compile_succeeds_iff, Stages.compile_succeeds_iff]
    -- What is left mentions none of the three.
    rfl

/-- Off by its level with comments in the listing, or off by its switch and with advice. -/
theorem compile_code_congr_off :
    let options : CompileOptions := { optimize := true, debugInfo := true, dispatch := .native }
    let options' : CompileOptions :=
      { optLevel := .full, tier := .l3, extensions := ["Ext.Net"], enforcement := .advisory }
    let text := "begin while x do y := 300 end."
    let source : Source := ⟨text, "a.pas", ".pas"⟩
    let source' : Source := ⟨text, "b.pp", "PP"⟩
    options.effectiveLevel = options'.effectiveLevel ∧ options.target = options'.target ∧
      (Stages.atari2600.compile options source).success ∧
      (Stages.atari2600.compile options' source').success ∧
      (Stages.atari2600.compile options source).code =
        (Stages.atari2600.compile options' source').code ∧
      (Stages.atari2600.compile { options with debugInfo := false, dispatch := .tokenThreaded }
        { source with file := "c.pas" }).success =
        (Stages.atari2600.compile options source).success := by
  intro options options' text source source'
  let p : Pascal.Program := { modules := [⟨"main", [{ name := "main", body :=
    [.loop (.ident "x") [.assign "y" (.int 300)]] }]⟩] }
  let ks : List Pascal.Kind :=
    [.keyword .begin, .keyword .while, .ident "x", .keyword .do_, .ident "y", .sign .assign,
      .int 300, .keyword .end_, .sign .dot]
  have hlex : (Pascal.lexFrom 0 text.toList).map Pascal.kinds = .ok ks := by
    dsimp only [text]
    with_unfolding_all rfl
  have hparse : Pascal.parse text = .ok p :=
    Pascal.parse_of_kinds hlex (by with_unfolding_all rfl)
  have hcode : Stages.code? .off p = some [0xA9, 0x2C, 0x85, 0x80] := by decide +kernel
  have hsuccess : (Stages.atari2600.compile options source).success :=
    Stages.compile_succeeds_iff.mpr
      ⟨rfl, by decide, p, hparse, .inl rfl, _, hcode⟩
  have hsuccess' : (Stages.atari2600.compile options' source').success :=
    Stages.compile_succeeds_iff.mpr
      ⟨rfl, by decide, p, hparse, .inr rfl, _, hcode⟩
  obtain ⟨hsame, hequally⟩ := compile_code_congr options options' source source'
  exact ⟨rfl, rfl, hsuccess, hsuccess', hsame rfl rfl rfl hsuccess hsuccess', hequally _ _ _⟩

end Cartridge
