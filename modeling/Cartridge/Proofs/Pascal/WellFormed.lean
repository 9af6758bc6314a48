import Cartridge.Proofs.Pascal.Names
import Cartridge.Proofs.Pascal.Tiling

/-!
# What reading promises

A program that was read has one module with the main block behind its other
routines, and nothing in it that a source cannot hold: names are words and no
keywords, extensions have a name, strings are on one line. Numbers have a negative.
That is so of every number which the reader meets behind a minus, also in a source
where it stops later on, so no minus is taken of the lowest number.
-/

namespace Cartridge.Pascal

open Grammar

-- ---------------------------------------------------------------------------
-- Extensions
-- ---------------------------------------------------------------------------

theorem ne_empty_of_isName (h : isName x) : x ≠ "" := by
  rintro rfl
  simp [isName, isWord] at h

theorem ne_empty_of_isPath (h : IsPath ks p) (hks : ∀ k ∈ ks, k.all lit isName) : p ≠ "" := by
  cases h with
  | one => exact ne_empty_of_isName (hks _ List.mem_cons_self)
  | more => simp

theorem extension_of_isRequirement (h : IsRequirement ks tier extension?)
    (hks : ∀ k ∈ ks, k.all lit isName) : extension? ≠ some "" := by
  cases h with
  | none => nofun
  | tier => nofun
  | via _ _ hpath =>
    obtain ⟨-, hks⟩ := List.forall_mem_append.mp (List.forall_mem_cons.mp hks).2
    obtain ⟨hls, -⟩ := List.forall_mem_append.mp (List.forall_mem_cons.mp hks).2
    simpa using ne_empty_of_isPath hpath hls

theorem extension_of_isProcedure (h : IsProcedure ks r) (hks : ∀ k ∈ ks, k.all lit isName) :
    r.extension? ≠ some "" := by
  cases h with
  | intro _ hrequirement _ =>
    obtain ⟨-, hks⟩ := List.forall_mem_cons.mp (List.forall_mem_cons.mp hks).2
    obtain ⟨-, hks⟩ := List.forall_mem_append.mp hks
    obtain ⟨hrs, -⟩ := List.forall_mem_append.mp (List.forall_mem_cons.mp hks).2
    exact extension_of_isRequirement hrequirement hrs

theorem extension_of_isDeclarations (h : IsDeclarations ks cs rs)
    (hks : ∀ k ∈ ks, k.all lit isName) : ∀ r ∈ rs, r.extension? ≠ some "" := by
  induction h with
  | none => exact List.forall_mem_nil _
  | const _ _ ih => exact ih (List.forall_mem_append.mp (List.forall_mem_cons.mp hks).2).2
  | var _ _ ih => exact ih (List.forall_mem_append.mp (List.forall_mem_cons.mp hks).2).2
  | procedure hr _ ih =>
    obtain ⟨hks, hls⟩ := List.forall_mem_append.mp hks
    exact List.forall_mem_cons.mpr ⟨extension_of_isProcedure hr hks, ih hls⟩

-- ---------------------------------------------------------------------------
-- Programs
-- ---------------------------------------------------------------------------

/-- What holds of a program that was read. -/
structure Program.WellFormed (p : Program) : Prop where
  /-- There is one module, and the main block is its last routine. -/
  main : ∃ name rs body, p.modules = [⟨name, rs ++ [{ name := "main", body := body }]⟩]
  module : ∀ m ∈ p.modules, isName m.name
  all : p.all Literal.isReadable isName
  extension : ∀ r ∈ p.routines, r.extension? ≠ some ""

theorem isName_main : isName "main" := by
  decide +kernel

theorem isName_of_isHeader (h : IsHeader ks name) (hks : ∀ k ∈ ks, k.all lit isName) :
    isName name := by
  cases h with
  | none => exact isName_main
  | some => exact (List.forall_mem_cons.mp (List.forall_mem_cons.mp hks).2).1

theorem wellFormed_of_isProgram (h : IsProgram ks p)
    (hks : ∀ k ∈ ks, k.all Literal.isReadable isName) : p.WellFormed := by
  have hall := all_of_isProgram signed_isReadable h hks isName_main
  cases h with
  | intro hheader hds _ =>
    obtain ⟨hhs, hks⟩ := List.forall_mem_append.mp hks
    obtain ⟨hds', -⟩ := List.forall_mem_append.mp hks
    refine ⟨⟨_, _, _, rfl⟩, ?_, hall, ?_⟩
    · simpa using isName_of_isHeader hheader hhs
    · have hrs := extension_of_isDeclarations hds hds'
      simpa [Program.routines, Module.allRoutines, or_imp, forall_and] using hrs

-- ---------------------------------------------------------------------------
-- Numbers behind a minus
-- ---------------------------------------------------------------------------

/-- The number that a minus in front of `ts` is taken of, in an expression or as the value of a
constant, is not the lowest one, and so the word that is put in its place is its negative. -/
structure Negatable (ts : List Token) : Prop where
  factor : ∀ v rest, Yields (factor ts) (.int v) rest →
    v ≠ Int64.minValue ∧ (-v).toInt = -v.toInt
  constant : ∀ v span rest, ts = ⟨.int v, span⟩ :: rest →
    v ≠ Int64.minValue ∧ (-v).toInt = -v.toInt

theorem negatable_int {v : Int64} (h : (Literal.int v).isReadable) :
    v ≠ Int64.minValue ∧ (-v).toInt = -v.toInt := by
  have hlow := isReadable_int.mp h
  refine ⟨?_, toInt_neg_of_lt hlow⟩
  rintro rfl
  simp at hlow

theorem negatable_of_all (h : ∀ k ∈ kinds ts, k.all Literal.isReadable isName) :
    Negatable ts where
  factor v rest hv := by
    obtain ⟨ks, ⟨front, rfl, rfl⟩, hfactor⟩ := factor_sound ts hv
    rw [kinds, List.map_append] at h
    exact negatable_int
      (all_of_isFactor signed_isReadable hfactor (List.forall_mem_append.mp h).1)
  constant v span rest hts := by
    subst hts
    exact negatable_int (List.forall_mem_cons.mp h).1

/-- A source gives a well-formed program or none, and wherever a minus stands in it, there is a
number with a negative behind it or no number. -/
theorem parse_wellFormed (source : String) :
    (∀ p, parse source = .ok p → p.WellFormed) ∧
      ∀ front span ts, lex source = .ok (front ++ ⟨.sign .minus, span⟩ :: ts) → Negatable ts := by
  constructor
  · intro p hparse
    obtain ⟨tokens, hlex, htokens⟩ := parse_eq_ok_iff.mp hparse
    exact wellFormed_of_isProgram (parseTokens_sound htokens) (all_of_lexFrom hlex)
  · intro front span ts hlex
    have hall := all_of_lexFrom (lexFrom_of_lex hlex)
    rw [kinds, List.map_append, List.map_cons] at hall
    exact negatable_of_all (List.forall_mem_cons.mp (List.forall_mem_append.mp hall).2).2

/-- A minus in front of parentheses with a negative number in them, the lowest that can be
written. -/
theorem parse_wellFormed_minuses :
    let source := "begin x := -(-9223372036854775807) end."
    let ts : List Token := [⟨.sign .openParen, ⟨12, 13⟩⟩, ⟨.sign .minus, ⟨13, 14⟩⟩,
      ⟨.int 9223372036854775807, ⟨14, 33⟩⟩, ⟨.sign .closeParen, ⟨33, 34⟩⟩,
      ⟨.keyword .end_, ⟨35, 38⟩⟩, ⟨.sign .dot, ⟨38, 39⟩⟩]
    ∃ p, parse source = .ok p ∧ p.WellFormed ∧
      ∃ rest, Yields (factor ts) (.int (-9223372036854775807)) rest ∧
        (-(-9223372036854775807 : Int64)).toInt = -(-9223372036854775807 : Int64).toInt := by
  intro source ts
  let front : List Token := [⟨.keyword .begin, ⟨0, 5⟩⟩, ⟨.ident "x", ⟨6, 7⟩⟩,
    ⟨.sign .assign, ⟨8, 10⟩⟩]
  let body : List Stmt := [.assign "x" (.int 9223372036854775807)]
  have hlex : lex source = .ok (front ++ ⟨.sign .minus, ⟨11, 12⟩⟩ :: ts) := by decide +kernel
  have hparse : parse source = .ok { modules := [⟨"main", [{ name := "main", body := body }]⟩] } :=
    parse_eq_ok_iff.mpr ⟨_, lexFrom_of_lex hlex, by with_unfolding_all rfl⟩
  have hfactor : Yields (factor ts) (.int (-9223372036854775807)) (ts.drop 4) :=
    ⟨by decide, by with_unfolding_all rfl⟩
  obtain ⟨hwf, hneg⟩ := parse_wellFormed source
  exact ⟨_, hparse, hwf _ hparse, _, hfactor, ((hneg _ _ _ hlex).factor _ _ hfactor).2⟩

end Cartridge.Pascal
