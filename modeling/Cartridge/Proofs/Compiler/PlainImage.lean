import Mathlib
import Cartridge.Proofs.Compiler.Stages
import Cartridge.Proofs.Flat.Assignments
import Cartridge.Proofs.Listing.Operands
import Cartridge.Proofs.Register.Lowering

/-!
# Images without optimization

A program without strings compiles exactly if it computes nothing and its
variables fit in RAM. Its code is then a load and a store for each assignment,
in the order of the text; control flow leaves no trace in it. The image holds
that code, cut between two instructions if it is too long.
-/

namespace Cartridge

-- ---------------------------------------------------------------------------
-- Loads and stores of a lowered program
-- ---------------------------------------------------------------------------

namespace Register

def Instr.isAccess : Instr → Bool
  | .load _ _ => true
  | .store _ _ => true
  | _ => false

/-- The load and the store of an assignment. -/
def accesses (m : AddressMap) (a : String × String) : List Instr :=
  [.load .a a.2, .store .a (m.operand a.1)]

theorem filter_isAccess_lowerInstr (m : AddressMap) (i : Flat.Instr) :
    (lowerInstr m i).filter (·.isAccess) = (Flat.assigns [i]).flatMap (accesses m) := by
  cases i <;> rfl

theorem filter_isAccess_lowerInstrs (m : AddressMap) (code : List Flat.Instr) :
    (code.flatMap (lowerInstr m)).filter (·.isAccess) =
      (Flat.assigns code).flatMap (accesses m) := by
  induction code with
  | nil => rfl
  | cons i rest ih =>
    have hcons : Flat.assigns (i :: rest) = Flat.assigns [i] ++ Flat.assigns rest :=
      Flat.assigns_append [i] rest
    rw [List.flatMap_cons, List.filter_append, filter_isAccess_lowerInstr, ih, hcons,
      List.flatMap_append]

theorem filter_isAccess_of_lower (h : lower p = .ok q) :
    ∃ m, AddressMap.bindAll {} p.targets = .ok m ∧
      q.stream.filter (·.isAccess) = p.assigns.flatMap (accesses m) := by
  obtain ⟨m, hm, hroutines, hstream⟩ := lower_cases h
  refine ⟨m, hm, ?_⟩
  rw [hstream, hroutines, List.filter_flatMap, List.flatMap_map, Flat.Program.assigns,
    List.flatMap_assoc]
  congr 1
  funext r
  exact filter_isAccess_lowerInstrs m r.instrs

end Register

-- ---------------------------------------------------------------------------
-- Programs without strings
-- ---------------------------------------------------------------------------

namespace Pascal

/-- No string among the literals of a program and the values of its constants. -/
def Program.hasNoStrings (p : Program) : Bool :=
  p.all (!·.isStr) fun _ => true

/-- A program without strings whose names are words. -/
structure Program.Plain (p : Program) : Prop where
  noStrings : p.hasNoStrings
  words : p.all (fun _ => true) isWord

theorem Program.Plain.constants {p : Program} (h : p.Plain) : p.constants.isPlain := by
  obtain ⟨hconstants, -⟩ := Bool.and_eq_true_iff.mp h.noStrings
  simpa [Constants.isPlain] using hconstants

theorem Program.Plain.target {p : Program} (h : p.Plain) (ha : a ∈ p.assignments) : isWord a.1 :=
  (all_of_mem_program h.words ha).1

theorem Program.Plain.value {p : Program} (h : p.Plain) (ha : a ∈ p.assignments) :
    a.2.isPlain := by
  rw [Expr.isPlain, all_eq_and]
  exact Bool.and_eq_true_iff.mpr
    ⟨(all_of_mem_program h.noStrings ha).2, (all_of_mem_program h.words ha).2⟩

/-- The address that a name has in a program. -/
def Program.address (p : Program) (name : String) : Nat :=
  Register.addressOf (Register.variableKeys p.targets) name

/-- A load and a store for each assignment, in the order of the text. -/
def Program.instructions (p : Program) : List (List UInt8) :=
  p.assignments.flatMap fun a =>
    [[0xA9, UInt8.ofNat ((a.2.constant? p.constants).getD 0 % 256).toNat],
      [0x85, UInt8.ofNat (p.address a.1)]]

/-- Whether all values that a program assigns are literals or constants. -/
def Program.computesNothing (p : Program) : Bool :=
  p.assignments.all fun a => (a.2.constant? p.constants).isSome

end Pascal

namespace Listing

open Register (Instr AddressMap accesses addressText)
open Pascal (isWord)

theorem isAccess_of_encodes {i : Instr} (h : encodes i) : i.isAccess := by
  cases i with
  | load reg value => rfl
  | store reg address => rfl
  | call callee => cases h
  | label name => cases h
  | jump target c => cases h

theorem operation?_load {e : Pascal.Expr} {cs : Pascal.Constants} (he : e.isPlain)
    (hcs : cs.isPlain) :
    operation? (.load .a (e.operand cs)) =
      (e.constant? cs).map fun v => .load (lowByte v) := by
  rw [← readOperand_operand he hcs, Option.map_map]
  rfl

theorem operation?_store (h : address < 0x100) :
    operation? (.store .a (addressText address)) = some (.store address) := by
  rw [operation?, readAddress_addressText h, Option.map_some]

/-- The load and the store of an assignment whose names are words. -/
def accessesOf (p : Pascal.Program) (a : String × Pascal.Expr) : List Instr :=
  [.load .a (a.2.operand p.constants), .store .a (addressText (p.address a.1))]

/-- Under the address map of its targets, the assignments of a program become their accesses. -/
theorem flatMap_accesses {p : Pascal.Program} (hp : p.Plain)
    (hm : AddressMap.bindAll {} p.lower.targets = .ok m) :
    p.lower.assigns.flatMap (accesses m) = p.assignments.flatMap (accessesOf p) := by
  rw [Flat.program_assigns_lower, List.flatMap_map]
  refine List.flatMap_congr fun a ha => ?_
  have hname := Pascal.isAddress_of_isWord (hp.target ha)
  have hmem : a.1 ∈ p.lower.targets := Flat.targets_lower p ▸ List.mem_map_of_mem ha
  have haddress := AddressMap.operand_of_bindAll hm hmem hname
  rw [Flat.targets_lower] at haddress
  simp only [accesses, accessesOf, Flat.operandOf, haddress]
  rfl

theorem encodes_accessesOf {p : Pascal.Program} (hp : p.Plain) (ha : a ∈ p.assignments)
    (hi : i ∈ accessesOf p a) : encodes i := by
  have hvalue := endsInColon_operand (hp.value ha) hp.constants
  have haddress := endsInColon_addressText (p.address a.1)
  simp only [accessesOf, List.mem_cons, List.not_mem_nil, or_false] at hi
  obtain rfl | rfl := hi
  · simp [encodes, operandText?, hvalue]
  · simp [encodes, operandText?, haddress]

/-- What is read of the stream is a load and a store for each assignment. -/
theorem filter_encodes {p : Pascal.Program} (hp : p.Plain) (h : Register.lower p.lower = .ok q) :
    q.stream.filter encodes = p.assignments.flatMap (accessesOf p) := by
  obtain ⟨m, hm, hstream⟩ := Register.filter_isAccess_of_lower h
  -- Only loads and stores encode, and no operand of theirs ends in a colon here.
  have hfilter : q.stream.filter encodes = (q.stream.filter (·.isAccess)).filter encodes := by
    rw [List.filter_filter]
    refine List.filter_congr fun i _ => ?_
    cases hencodes : encodes i with
    | false => rfl
    | true => simp [isAccess_of_encodes hencodes]
  rw [hfilter, hstream, flatMap_accesses hp hm, List.filter_eq_self]
  intro i hi
  obtain ⟨a, ha, hi⟩ := List.mem_flatMap.mp hi
  exact encodes_accessesOf hp ha hi

theorem address_lt {p : Pascal.Program} (hp : p.Plain) (ha : a ∈ p.assignments)
    (h : Register.lower p.lower = .ok q) : p.address a.1 < 0x100 := by
  have hfit := Register.exists_lower_iff.mp ⟨q, h⟩
  rw [Flat.targets_lower] at hfit
  exact Register.addressOf_lt (List.mem_map_of_mem ha)
    (Pascal.isAddress_of_isWord (hp.target ha)) hfit

theorem isSome_operation?_iff {p : Pascal.Program} (hp : p.Plain)
    (h : Register.lower p.lower = .ok q) :
    (∀ i ∈ p.assignments.flatMap (accessesOf p), (operation? i).isSome) ↔ p.computesNothing := by
  constructor
  · intro hall
    refine List.all_eq_true.mpr fun a ha => ?_
    have hload := hall _ (List.mem_flatMap.mpr ⟨a, ha, List.mem_cons_self⟩)
    simpa [operation?_load (hp.value ha) hp.constants] using hload
  · intro hnothing i hi
    obtain ⟨a, ha, hi⟩ := List.mem_flatMap.mp hi
    simp only [accessesOf, List.mem_cons, List.not_mem_nil, or_false] at hi
    obtain rfl | rfl := hi
    · simpa [operation?_load (hp.value ha) hp.constants] using List.all_eq_true.mp hnothing a ha
    · simp [operation?_store (address_lt hp ha h)]

theorem bytes_accessesOf {p : Pascal.Program} (hp : p.Plain) (h : Register.lower p.lower = .ok q)
    (hnothing : p.computesNothing) :
    ((p.assignments.flatMap (accessesOf p)).filterMap operation?).flatMap Operation.bytes =
      p.instructions.flatten := by
  rw [List.filterMap_flatMap, List.flatMap_assoc, Pascal.Program.instructions,
    List.flatten_eq_flatMap, List.flatMap_assoc]
  refine List.flatMap_congr fun a ha => ?_
  obtain ⟨v, hv⟩ := Option.isSome_iff_exists.mp (List.all_eq_true.mp hnothing a ha)
  have hload := operation?_load (hp.value ha) hp.constants
  have hlt := address_lt hp ha h
  rw [hv, Option.map_some] at hload
  simp [accessesOf, hload, operation?_store hlt, Operation.bytes, encodeStore, hlt, hv, lowByte]

/-- A program without strings is assembled exactly if it computes nothing. -/
theorem assemble_plain {p : Pascal.Program} (hp : p.Plain) (h : Register.lower p.lower = .ok q) :
    assemble (streamLines debugInfo q.stream) = .ok code ↔
      p.computesNothing ∧ code = p.instructions.flatten := by
  have hstores : StoresAtAddresses q.stream := by
    rintro _ hmem reg a rfl
    exact Register.isAddress_of_lower h hmem
  rw [assemble, assembleFrom_streamLines hstores]
  simp only [← and_imp, ← List.mem_filter, filter_encodes hp h]
  rw [isSome_operation?_iff hp h]
  refine and_congr_right fun hnothing => ?_
  rw [bytes_accessesOf hp h hnothing]

end Listing

-- ---------------------------------------------------------------------------
-- The image
-- ---------------------------------------------------------------------------

theorem Rom.package_eq (code : List UInt8) :
    package code = code.take 4090 ++ List.replicate (4090 - code.length) 0 ++
      [0x00, 0xF0, 0x00, 0xF0, 0x00, 0xF0] := by
  have hpadding : 4090 - min 4090 code.length = 4090 - code.length := by omega
  simp [package, capacity, size, vectors, vector, hpadding]

/-- A cut between chunks of one length leaves whole chunks. -/
theorem Rom.take_flatten {chunks : List (List UInt8)} (h : ∀ chunk ∈ chunks, chunk.length = n) :
    chunks.flatten.take (n * k) = (chunks.take k).flatten := by
  induction k generalizing chunks with
  | zero => simp
  | succ k ih =>
    cases chunks with
    | nil => simp
    | cons chunk chunks =>
      obtain ⟨hchunk, hchunks⟩ := List.forall_mem_cons.mp h
      have hlength : n * (k + 1) = chunk.length + n * k := by
        rw [hchunk, Nat.mul_succ, Nat.add_comm]
      rw [List.flatten_cons, hlength, List.take_length_add_append, ih hchunks, List.take_succ_cons,
        List.flatten_cons]

theorem Pascal.length_of_mem_instructions {p : Pascal.Program} (h : bytes ∈ p.instructions) :
    bytes.length = 2 := by
  obtain ⟨a, -, hbytes⟩ := List.mem_flatMap.mp h
  simp only [List.mem_cons, List.not_mem_nil, or_false] at hbytes
  obtain rfl | rfl := hbytes <;> rfl

namespace Stages

theorem build_plain {options : CompileOptions} (hoptimize : options.optimize = false)
    (htarget : options.target = .atari2600) (haccepts : Pascal.accepts source.extension)
    (hparse : Pascal.parse source.text = .ok p) (hplain : p.hasNoStrings)
    (hviolations : atari2600.violations options p = .ok []) (image : List UInt8) :
    (∃ a, (atari2600.build options source).outcome = .ok a ∧ a.code = image) ↔
      p.computesNothing ∧ (Register.variableKeys p.targets).length ≤ 128 ∧
        Rom.package p.instructions.flatten = image := by
  have hlevel : options.effectiveLevel = .off := by simp [CompileOptions.effectiveLevel, hoptimize]
  have hnamed : (named source p).Plain := ⟨hplain, all_isWord_named hparse⟩
  have hvalid : atari2600.validate options p = .ok [] := validate_of_nil hviolations
  have hfit : (∃ q, Register.lower (named source p).lower = .ok q) ↔
      (Register.variableKeys p.targets).length ≤ 128 := by
    rw [Register.exists_lower_iff, Flat.targets_lower]
    rfl
  have hlines (q : Register.Program) : (finalListing options q).lines =
      Listing.streamLines options.debugInfo q.stream := by
    rw [finalListing, hlevel]
    rfl
  constructor
  · rintro ⟨a, ha, rfl⟩
    -- The program that was built is `p`, since the source has one reading.
    obtain ⟨-, p', hparse', _, -, q, hq, code, hcode, rfl⟩ := (build_eq_ok_iff htarget).mp ha
    cases hparse.symm.trans hparse'
    rw [hlevel] at hq
    rw [hlines] at hcode
    obtain ⟨hnothing, rfl⟩ := (Listing.assemble_plain hnamed hq).mp hcode
    exact ⟨hnothing, hfit.mp ⟨q, hq⟩, rfl⟩
  · rintro ⟨hnothing, hram, rfl⟩
    obtain ⟨q, hq⟩ := hfit.mpr hram
    have hcode : Listing.assemble (finalListing options q).lines = .ok p.instructions.flatten := by
      rw [hlines]
      exact (Listing.assemble_plain hnamed hq).mpr ⟨hnothing, rfl⟩
    have hbuild := (build_eq_ok_iff htarget).mpr
      ⟨haccepts, p, hparse, [], hvalid, q, hlevel ▸ hq, _, hcode, rfl⟩
    exact ⟨_, hbuild, rfl⟩

end Stages

/-- Without optimization, a program without strings compiles exactly if the values it assigns are
literals or constants and its variables fit in RAM. The image is then a load and a store for each
assignment, cut between two instructions or filled up with zeros, and the three vectors. -/
theorem compile_plain (options : CompileOptions) (source : Source) (p : Pascal.Program)
    (hoptimize : options.optimize = false) (htarget : options.target = .atari2600)
    (haccepts : Pascal.accepts source.extension)
    (hparse : Pascal.parse source.text = .ok p) (hplain : p.hasNoStrings)
    (hviolations : Stages.atari2600.violations options p = .ok []) :
    let result := Stages.atari2600.compile options source
    (result.success ↔ p.computesNothing ∧ (Register.variableKeys p.targets).length ≤ 128) ∧
    (result.success →
      result.code = p.instructions.flatten.take 4090 ++
        List.replicate (4090 - p.instructions.flatten.length) 0 ++
        [0x00, 0xF0, 0x00, 0xF0, 0x00, 0xF0] ∧
      p.instructions.flatten.take 4090 = (p.instructions.take 2045).flatten) := by
  intro result
  have hbuild := Stages.build_plain hoptimize htarget haccepts hparse hplain hviolations
  have hsuccess : result.success ↔ ∃ a, (Stages.atari2600.build options source).outcome = .ok a :=
    Stages.compile_success_iff
  constructor
  · rw [hsuccess]
    constructor
    · rintro ⟨a, ha⟩
      obtain ⟨hnothing, hram, -⟩ := (hbuild a.code).mp ⟨a, ha, rfl⟩
      exact ⟨hnothing, hram⟩
    · rintro ⟨hnothing, hram⟩
      obtain ⟨a, ha, -⟩ := (hbuild _).mpr ⟨hnothing, hram, rfl⟩
      exact ⟨a, ha⟩
  · intro h
    obtain ⟨a, ha⟩ := hsuccess.mp h
    obtain ⟨-, -, hcode⟩ := (hbuild a.code).mp ⟨a, ha, rfl⟩
    have himage : result.code = a.code := Stages.compile_code ha
    refine ⟨?_, Rom.take_flatten (n := 2) (k := 2045) fun _ => Pascal.length_of_mem_instructions⟩
    rw [himage, ← hcode, Rom.package_eq]

theorem compile_plain_branches :
    let source : Source :=
      ⟨"const K = 5; K = -300; begin Colubk := K; if y then X := true else x := 7 end.", "", ".PAS"⟩
    let p : Pascal.Program :=
      { constants := [("K", .int 5), ("K", .int (-300))]
        modules := [⟨"main", [{ name := "main", body :=
          [.assign "Colubk" (.ident "K"),
            .ifElse (.ident "y") [.assign "X" (.lit (.bool true))] [.assign "x" (.int 7)]] }]⟩] }
    Pascal.accepts source.extension ∧ Pascal.parse source.text = .ok p ∧
      p.hasNoStrings ∧ Stages.atari2600.violations {} p = .ok [] ∧
      (Stages.atari2600.compile {} source).success ∧
      (Stages.atari2600.compile {} source).code =
        [0xA9, 0xD4, 0x85, 0x09, 0xA9, 0x01, 0x85, 0x80, 0xA9, 0x07, 0x85, 0x80] ++
          List.replicate 4078 0 ++ [0x00, 0xF0, 0x00, 0xF0, 0x00, 0xF0] := by
  intro source p
  let ks : List Pascal.Kind :=
    [.keyword .const, .ident "K", .sign .eq, .int 5, .sign .semicolon,
      .ident "K", .sign .eq, .sign .minus, .int 300, .sign .semicolon,
      .keyword .begin, .ident "Colubk", .sign .assign, .ident "K", .sign .semicolon,
      .keyword .if_, .ident "y", .keyword .then_, .ident "X", .sign .assign, .keyword .true,
      .keyword .else_, .ident "x", .sign .assign, .int 7, .keyword .end_, .sign .dot]
  have hlex : (Pascal.lexFrom 0 source.text.toList).map Pascal.kinds = .ok ks := by
    decide +kernel
  have hparse : Pascal.parse source.text = .ok p :=
    Pascal.parse_of_kinds hlex (by with_unfolding_all rfl)
  have haccepts : Pascal.accepts source.extension := by decide +kernel
  have hviolations : Stages.atari2600.violations {} p = .ok [] := rfl
  have hfit : (Register.variableKeys p.targets).length ≤ 128 := by
    have hvariables : Register.variableKeys p.targets = ["X"] := by cbv
    rw [hvariables]
    decide
  have hinstructions : p.instructions.flatten =
      [0xA9, 0xD4, 0x85, 0x09, 0xA9, 0x01, 0x85, 0x80, 0xA9, 0x07, 0x85, 0x80] := by cbv
  obtain ⟨hiff, hcode⟩ := compile_plain {} source p rfl rfl haccepts hparse rfl hviolations
  rw [hinstructions] at hcode
  have hsuccess := hiff.mpr ⟨rfl, hfit⟩
  refine ⟨haccepts, hparse, rfl, hviolations, hsuccess, ?_⟩
  rw [(hcode hsuccess).1, List.take_of_length_le (by decide)]
  simp only [List.length_cons, List.length_nil, Nat.reduceAdd, Nat.reduceSub]

end Cartridge
