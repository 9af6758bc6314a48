import Mathlib.Control.Monad.Basic
import Cartridge.Proofs.Compiler.Stages
import Cartridge.Proofs.Flat.Assignments
import Cartridge.Proofs.Listing.Operands
import Cartridge.Proofs.Register.Lowering

/-!
# Images with optimization

Every load is in front of a store, so the optimizer drops them all, and with
them every operand that could be refused. What is left are stores at addresses
of the zero page, which have an encoding. So the optimizer makes a program
compile whose variables fit in RAM, whatever it computes, and its code is made
of stores only.
-/

namespace Cartridge

namespace Listing

open Register (Instr addressText)
open Pascal (isWord)

-- ---------------------------------------------------------------------------
-- Lines that hold stores only
-- ---------------------------------------------------------------------------

def storesAt (addresses : List UInt8) : List UInt8 :=
  addresses.flatMap fun address => [0x85, address]

/-- A line that is no load and encodes stores in the zero page at most. -/
def StoresOnly (line : String) : Prop :=
  ¬ loadMnemonic <+: line.toList ∧ ∃ addresses, encodeLine line = .ok (storesAt addresses)

theorem assembleFrom_storesOnly {lines : List String} (h : ∀ line ∈ lines, StoresOnly line) :
    ∃ addresses, assembleFrom n lines = .ok (storesAt addresses) := by
  induction lines generalizing n with
  | nil => exact ⟨[], rfl⟩
  | cons line rest ih =>
    obtain ⟨⟨-, first, hfirst⟩, hrest⟩ := List.forall_mem_cons.mp h
    obtain ⟨more, hmore⟩ := ih (n := n + 1) hrest
    exact ⟨first ++ more, by simp [assembleFrom, hfirst, hmore, storesAt]⟩

theorem dropRepeats_sublist (previous : Option (List Char)) (lines : List String) :
    (dropRepeats previous lines).Sublist lines := by
  fun_induction dropRepeats previous lines with
  | case1 => exact .refl _
  | case2 _ _ _ _ _ ih => exact ih.cons_cons _
  | case3 _ _ _ _ ih => exact ih.cons _
  | case4 _ _ _ _ _ _ ih => exact ih.cons_cons _

theorem optimize_subset (level : OptLevel) (l : Listing) : (l.optimize level).lines ⊆ l.lines := by
  unfold optimize
  split
  · exact List.Subset.refl _
  · exact (dropRepeats_sublist none l.lines).subset

-- ---------------------------------------------------------------------------
-- The lines of a program without loads
-- ---------------------------------------------------------------------------

theorem storesOnly_store (h : n < 0x100) : StoresOnly ("STA " ++ addressText n) := by
  have haddress : Register.isAddress (addressText n) := by
    simp [Register.isAddress, addressText]
  constructor
  · simp [loadMnemonic]
  · refine ⟨[UInt8.ofNat n], ?_⟩
    simp [encodeLine_store haddress, endsInColon_addressText, readAddress_addressText h,
      encodeStore, h, storesAt]

theorem storesOnly_label (h : isWord name) : StoresOnly (name ++ ":") := by
  constructor
  · -- The mnemonic of a load has a blank in it, and a word has none.
    intro hload
    have hblank := Pascal.isBlank_of_mem_label h ' ' (hload.subset (by decide))
    exact absurd hblank (by decide)
  · exact ⟨[], encodeLine_label name⟩

theorem storesOnly_call (callee : String) : StoresOnly ("JSR " ++ callee) :=
  ⟨by simp [loadMnemonic], [], encodeLine_call callee⟩

theorem storesOnly_comment (text : String) : StoresOnly (";" ++ text) :=
  ⟨by simp [loadMnemonic], [], encodeLine_comment text⟩

/-- Without its loads, the stream of a program whose names are words holds stores only. -/
theorem storesOnly_of_lower {p : Pascal.Program} (hwords : p.all (fun _ => true) isWord)
    (h : Register.lower (p.lower.optimize level) = .ok q)
    (hline : line ∈ streamLines debugInfo (q.stream.filter (!·.isLoad))) : StoresOnly line := by
  obtain ⟨i, hi, hline⟩ := List.mem_filterMap.mp hline
  obtain ⟨hi, hload⟩ := List.mem_filter.mp hi
  cases i with
  | load reg value => cases hload
  | store reg address =>
    obtain rfl := Option.some.inj (instrLine?_store.symm.trans hline)
    obtain ⟨m, hm, target, htarget, rfl⟩ := Register.store_of_mem_stream h hi
    have hname := Pascal.isAddress_of_isWord (Flat.isWord_of_mem_targets hwords htarget)
    rw [Register.AddressMap.operand_of_bindAll hm htarget hname]
    exact storesOnly_store (Register.addressOf_lt htarget hname
      (Register.exists_lower_iff.mp ⟨q, h⟩))
  | call callee =>
    obtain rfl := Option.some.inj (instrLine?_call.symm.trans hline)
    exact storesOnly_call callee
  | label name =>
    obtain rfl := Option.some.inj (instrLine?_label.symm.trans hline)
    obtain ⟨r, hr, hname⟩ := Register.label_of_mem_stream h hi
    obtain ⟨hroutine, hlabels⟩ := Flat.isWord_of_mem_routines hwords hr
    obtain rfl | hname := hname
    · exact storesOnly_label hroutine
    · exact storesOnly_label (hlabels name (List.mem_filterMap.mpr ⟨_, hname, rfl⟩))
  | jump target c =>
    obtain ⟨text, rfl⟩ := instrLine?_jump hline
    exact storesOnly_comment text

end Listing

-- ---------------------------------------------------------------------------
-- Compilations
-- ---------------------------------------------------------------------------

namespace Stages

open Listing (StoresOnly storesAt)

theorem storesOnly_finalListing {p : Pascal.Program} {options : CompileOptions}
    (hwords : p.all (fun _ => true) Pascal.isWord) (hlevel : options.effectiveLevel ≠ .off)
    (h : Register.lower (p.lower.optimize options.effectiveLevel) = .ok q) :
    ∀ line ∈ (finalListing options q).lines, StoresOnly line := by
  intro line hline
  have hmem := Listing.optimize_subset options.effectiveLevel _ hline
  apply Listing.storesOnly_of_lower hwords h
  rw [← Register.stream_optimize h hlevel]
  exact hmem

/-- The name of the source file has no part in whether the variables fit. -/
theorem exists_lower_named_iff (source : Source) :
    (∃ q, Register.lower ((named source p).lower.optimize level) = .ok q) ↔
      (Register.variableKeys (p.lower.optimize level).targets).length ≤ 128 := by
  have htargets : ((named source p).lower.optimize level).targets =
      (p.lower.optimize level).targets := by
    unfold Flat.Program.optimize
    split <;> rfl
  rw [Register.exists_lower_iff, htargets]
  rfl

/-- The optimizer leaves a listing that is assembled to stores. -/
theorem build_stores {options : CompileOptions} (htarget : options.target = .atari2600)
    (hlevel : options.effectiveLevel ≠ .off)
    (h : (atari2600.build options source).outcome = .ok a) :
    (∀ line ∈ a.listing.lines, StoresOnly line) ∧
      ∃ addresses, Listing.assemble a.listing.lines = .ok (storesAt addresses) ∧
        a.code = Rom.package (storesAt addresses) := by
  obtain ⟨-, p, hparse, _, -, q, hq, code, hcode, rfl⟩ := (build_eq_ok_iff htarget).mp h
  have hlines := storesOnly_finalListing (all_isWord_named hparse) hlevel hq
  obtain ⟨addresses, hstores⟩ := Listing.assembleFrom_storesOnly (n := 1) hlines
  obtain rfl := Except.ok.inj (hcode.symm.trans hstores)
  exact ⟨hlines, addresses, hcode, rfl⟩

theorem exists_build_iff {options : CompileOptions} (htarget : options.target = .atari2600)
    (hlevel : options.effectiveLevel ≠ .off) :
    (∃ a, (atari2600.build options source).outcome = .ok a) ↔
      Pascal.accepts source.extension ∧
      ∃ p, Pascal.parse source.text = .ok p ∧
        (atari2600.violations options p = .ok [] ∨ options.enforcement = .advisory) ∧
        (Register.variableKeys (p.lower.optimize options.effectiveLevel).targets).length ≤ 128 := by
  constructor
  · rintro ⟨a, ha⟩
    obtain ⟨haccepts, p, hparse, warnings, hvalid, q, hq, -⟩ := (build_eq_ok_iff htarget).mp ha
    exact ⟨haccepts, p, hparse, exists_validate_iff.mp ⟨warnings, hvalid⟩,
      (exists_lower_named_iff source).mp ⟨q, hq⟩⟩
  · rintro ⟨haccepts, p, hparse, hviolations, hfit⟩
    obtain ⟨warnings, hvalid⟩ := exists_validate_iff.mpr hviolations
    obtain ⟨q, hq⟩ := (exists_lower_named_iff source).mpr hfit
    have hlines := storesOnly_finalListing (all_isWord_named hparse) hlevel hq
    obtain ⟨addresses, hcode⟩ := Listing.assembleFrom_storesOnly (n := 1) hlines
    exact ⟨_, (build_eq_ok_iff htarget).mpr
      ⟨haccepts, p, hparse, warnings, hvalid, q, hq, _, hcode, rfl⟩⟩

end Stages

/-- With optimization, a source compiles exactly if its extension is accepted, it parses, no
violation stops it, and the variables that the optimizer leaves fit in RAM. Its final listing has
then no loads, and its code is made of stores in the zero page. -/
theorem compile_optimized (options : CompileOptions) (source : Source)
    (hoptimize : options.optimize = true) (hlevel : .basic ≤ options.optLevel)
    (htarget : options.target = .atari2600) :
    ((Stages.atari2600.compile options source).success ↔
      Pascal.accepts source.extension ∧
      ∃ p, Pascal.parse source.text = .ok p ∧
        (Stages.atari2600.violations options p = .ok [] ∨ options.enforcement = .advisory) ∧
        (Register.variableKeys (p.lower.optimize options.optLevel).targets).length ≤ 128) ∧
    ((Stages.atari2600.compile options source).success →
      ∃ a, (Stages.atari2600.build options source).outcome = .ok a ∧
        (∀ line ∈ a.listing.lines, ¬ "LDA #".toList <+: line.toList) ∧
        ∃ addresses : List UInt8,
          Listing.assemble a.listing.lines =
            .ok (addresses.flatMap fun address => [0x85, address]) ∧
          (Stages.atari2600.compile options source).code =
            Rom.package (addresses.flatMap fun address => [0x85, address])) := by
  have heffective : options.effectiveLevel = options.optLevel := by
    simp [CompileOptions.effectiveLevel, hoptimize]
  have hon : options.effectiveLevel ≠ .off := by
    rw [heffective]
    intro hoff
    rw [hoff] at hlevel
    exact absurd hlevel (by decide)
  rw [Stages.compile_success_iff]
  refine ⟨heffective ▸ Stages.exists_build_iff htarget hon, ?_⟩
  rintro ⟨a, ha⟩
  obtain ⟨hlines, addresses, hassemble, hcode⟩ := Stages.build_stores htarget hon ha
  exact ⟨a, ha, fun line hline => (hlines line hline).1, addresses, hassemble,
    (Stages.compile_code ha).trans hcode⟩

/-- A string and a sum, neither of which has an encoding, are optimized away. -/
theorem compile_optimized_sum :
    let options : CompileOptions := { optimize := true, optLevel := .basic }
    let source : Source := ⟨"begin score := 'hi'; Colubk := y + 1 end.", "", "pas"⟩
    (Stages.atari2600.compile options source).success ∧
      ∃ a, (Stages.atari2600.build options source).outcome = .ok a ∧
        (∀ line ∈ a.listing.lines, ¬ "LDA #".toList <+: line.toList) ∧
        ∃ addresses : List UInt8,
          Listing.assemble a.listing.lines =
            .ok (addresses.flatMap fun address => [0x85, address]) ∧
          (Stages.atari2600.compile options source).code =
            Rom.package (addresses.flatMap fun address => [0x85, address]) := by
  intro options source
  let p : Pascal.Program := { modules := [⟨"main", [{ name := "main", body :=
    [.assign "score" (.lit (.str "hi")),
      .assign "Colubk" (.binary .add (.ident "y") (.int 1))] }]⟩] }
  let ks : List Pascal.Kind :=
    [.keyword .begin, .ident "score", .sign .assign, .str "hi", .sign .semicolon,
      .ident "Colubk", .sign .assign, .ident "y", .sign .plus, .int 1, .keyword .end_, .sign .dot]
  have hlex : (Pascal.lexFrom 0 source.text.toList).map Pascal.kinds = .ok ks := by
    decide +kernel
  have hparse : Pascal.parse source.text = .ok p :=
    Pascal.parse_of_kinds hlex (by with_unfolding_all rfl)
  have haccepts : Pascal.accepts source.extension := by decide +kernel
  have hfit : (Register.variableKeys (p.lower.optimize options.optLevel).targets).length ≤ 128 := by
    have hvariables :
        Register.variableKeys (p.lower.optimize options.optLevel).targets = ["SCORE"] := by
      with_unfolding_all rfl
    rw [hvariables]
    decide
  obtain ⟨hiff, hstores⟩ := compile_optimized options source rfl (by decide) rfl
  have hsuccess := hiff.mpr ⟨haccepts, p, hparse, .inl rfl, hfit⟩
  exact ⟨hsuccess, hstores hsuccess⟩

end Cartridge
