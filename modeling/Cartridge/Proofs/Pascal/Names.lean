import Cartridge.Proofs.Pascal.Lexemes
import Cartridge.Proofs.Pascal.Programs

/-!
# The names and literals of a program

A program takes its names and literals from its tokens, all but `main`, which the
main block is called, and the numbers that a minus makes. The identifiers of a
source are words and no keywords, its strings stay on one line, and its numbers
have no sign, so that a minus, and a minus before that, never meets the one number
without a negative. What is so of the tokens is so of the program: of its routines
and constants, of targets, and of all in expressions.
-/

namespace Cartridge.Pascal

open Grammar

mutual

/-- Whether all literals and all names in a statement are as told. -/
def Stmt.all (lit : Literal → Bool) (name : String → Bool) : Stmt → Bool
  | .assign target value => name target && value.all lit name
  | .ifThen cond body => cond.all lit name && Stmt.allOf lit name body
  | .ifElse cond yes no =>
    cond.all lit name && (Stmt.allOf lit name yes && Stmt.allOf lit name no)
  | .loop cond body => cond.all lit name && Stmt.allOf lit name body
  | .eval expr => expr.all lit name
  | .block body => Stmt.allOf lit name body

def Stmt.allOf (lit : Literal → Bool) (name : String → Bool) : List Stmt → Bool
  | [] => true
  | s :: rest => s.all lit name && Stmt.allOf lit name rest

end

def Routine.all (lit : Literal → Bool) (name : String → Bool) (r : Routine) : Bool :=
  name r.name && Stmt.allOf lit name r.body

/-- Whether all literals of a program, the values of its constants included, and all names of its
constants, of its routines and in their bodies are as told. -/
def Program.all (lit : Literal → Bool) (name : String → Bool) (p : Program) : Bool :=
  p.constants.all (fun c => name c.1 && lit c.2) && p.routines.all (Routine.all lit name)

theorem allOf_append :
    Stmt.allOf lit name (ss ++ ss') = (Stmt.allOf lit name ss && Stmt.allOf lit name ss') := by
  induction ss with
  | nil => rfl
  | cons s ss ih => simp [Stmt.allOf, ih, Bool.and_assoc]

mutual

/-- Literals and names can be checked apart. -/
theorem all_eq_and (lit : Literal → Bool) (name : String → Bool) (e : Expr) :
    e.all lit name = (e.all lit (fun _ => true) && e.all (fun _ => true) name) := by
  cases e with
  | lit v => simp [Expr.all]
  | ident x => simp [Expr.all]
  | binary op l r =>
    simp only [Expr.all, all_eq_and lit name l, all_eq_and lit name r]
    grind
  | call f args =>
    simp only [Expr.all, allOf_eq_and lit name args]
    grind

theorem allOf_eq_and (lit : Literal → Bool) (name : String → Bool) (es : List Expr) :
    Expr.allOf lit name es =
      (Expr.allOf lit (fun _ => true) es && Expr.allOf (fun _ => true) name es) := by
  cases es with
  | nil => rfl
  | cons e es =>
    simp only [Expr.allOf, all_eq_and lit name e, allOf_eq_and lit name es]
    grind

end

-- ---------------------------------------------------------------------------
-- Names and literals come from tokens
-- ---------------------------------------------------------------------------

/-- Whether the name or the literal that a token is, if it is one, is as told. -/
def Kind.all (lit : Literal → Bool) (name : String → Bool) : Kind → Bool
  | .ident x => name x
  | k => (literal? k).all lit

theorem lit_of_literalToken (h : LiteralToken k v) (hk : k.all lit name) : lit v := by
  cases h <;> exact hk

/-- What a minus adds to the literals of a source: zero to subtract from, and negative numbers. -/
structure Signed (lit : Literal → Bool) : Prop where
  zero : lit (.int 0)
  neg : ∀ v, lit (.int v) → lit (.int (-v))

section

variable {lit : Literal → Bool} {name : String → Bool}

-- Each rule of the grammar has fewer tokens than the phrase it is part of, or as many and a rule
-- further down the ladder of precedence; the measures count both.

mutual

theorem all_of_isExpr (hlit : Signed lit) (h : IsExpr ks e) (hks : ∀ k ∈ ks, k.all lit name) :
    e.all lit name := by
  cases h with
  | additive h => exact all_of_isAdditive hlit h hks
  | relation hl _ hr =>
    obtain ⟨hls, hrs⟩ := List.forall_mem_append.mp hks
    exact Bool.and_eq_true_iff.mpr ⟨all_of_isAdditive hlit hl hls,
      all_of_isAdditive hlit hr (List.forall_mem_cons.mp hrs).2⟩
termination_by 5 * ks.length + 3

theorem all_of_isAdditive (hlit : Signed lit) (h : IsAdditive ks e)
    (hks : ∀ k ∈ ks, k.all lit name) : e.all lit name := by
  cases h with
  | multiplicative h => exact all_of_isMultiplicative hlit h hks
  | more hl _ hr =>
    obtain ⟨hls, hrs⟩ := List.forall_mem_append.mp hks
    exact Bool.and_eq_true_iff.mpr ⟨all_of_isAdditive hlit hl hls,
      all_of_isMultiplicative hlit hr (List.forall_mem_cons.mp hrs).2⟩
termination_by 5 * ks.length + 2

theorem all_of_isMultiplicative (hlit : Signed lit) (h : IsMultiplicative ks e)
    (hks : ∀ k ∈ ks, k.all lit name) : e.all lit name := by
  cases h with
  | factor h => exact all_of_isFactor hlit h hks
  | more hl _ hr =>
    obtain ⟨hls, hrs⟩ := List.forall_mem_append.mp hks
    exact Bool.and_eq_true_iff.mpr ⟨all_of_isMultiplicative hlit hl hls,
      all_of_isFactor hlit hr (List.forall_mem_cons.mp hrs).2⟩
termination_by 5 * ks.length + 1

theorem all_of_isFactor (hlit : Signed lit) (h : IsFactor ks e) (hks : ∀ k ∈ ks, k.all lit name) :
    e.all lit name := by
  cases h with
  | literal hv => exact lit_of_literalToken hv (hks _ List.mem_cons_self)
  | name => exact hks _ List.mem_cons_self
  | call hargs =>
    obtain ⟨hf, hks⟩ := List.forall_mem_cons.mp hks
    exact Bool.and_eq_true_iff.mpr ⟨hf, all_of_isArguments hlit hargs hks⟩
  | parens he =>
    obtain ⟨hks, -⟩ := List.forall_mem_append.mp (List.forall_mem_cons.mp hks).2
    exact all_of_isExpr hlit he hks
  | negative hv =>
    -- The number may itself come from a minus, on this side of parentheses or on the other.
    exact hlit.neg _ (all_of_isFactor hlit hv (List.forall_mem_cons.mp hks).2)
  | minus he _ =>
    exact Bool.and_eq_true_iff.mpr
      ⟨hlit.zero, all_of_isFactor hlit he (List.forall_mem_cons.mp hks).2⟩
termination_by 5 * ks.length

theorem all_of_isArguments (hlit : Signed lit) (h : IsArguments ks args)
    (hks : ∀ k ∈ ks, k.all lit name) : Expr.allOf lit name args := by
  cases h with
  | none => rfl
  | some hes =>
    obtain ⟨hks, -⟩ := List.forall_mem_append.mp (List.forall_mem_cons.mp hks).2
    exact all_of_isExprs hlit hes hks
termination_by 5 * ks.length

theorem all_of_isExprs (hlit : Signed lit) (h : IsExprs ks es) (hks : ∀ k ∈ ks, k.all lit name) :
    Expr.allOf lit name es := by
  cases h with
  | one he => exact Bool.and_eq_true_iff.mpr ⟨all_of_isExpr hlit he hks, rfl⟩
  | more he hes =>
    obtain ⟨hks, hls⟩ := List.forall_mem_append.mp hks
    exact Bool.and_eq_true_iff.mpr
      ⟨all_of_isExpr hlit he hks, all_of_isExprs hlit hes (List.forall_mem_cons.mp hls).2⟩
termination_by 5 * ks.length + 4

end

/-- A branch has the statements that its statement is made of. -/
theorem allOf_of_isBranch (h : IsBranch s body) (hs : Stmt.allOf lit name s.toList) :
    Stmt.allOf lit name body := by
  cases h with
  | empty => rfl
  | block => exact (Bool.and_eq_true_iff.mp hs).1
  | single _ => exact hs

mutual

theorem all_of_isStatement (hlit : Signed lit) (h : IsStatement dangling ks s)
    (hks : ∀ k ∈ ks, k.all lit name) : Stmt.allOf lit name s.toList := by
  cases h with
  | empty => rfl
  | assign he =>
    obtain ⟨hx, hks⟩ := List.forall_mem_cons.mp hks
    have hvalue := all_of_isExpr hlit he (List.forall_mem_cons.mp hks).2
    exact Bool.and_eq_true_iff.mpr ⟨Bool.and_eq_true_iff.mpr ⟨hx, hvalue⟩, rfl⟩
  | call =>
    have hf := hks _ List.mem_cons_self
    exact Bool.and_eq_true_iff.mpr ⟨Bool.and_eq_true_iff.mpr ⟨hf, rfl⟩, rfl⟩
  | callWith hargs =>
    obtain ⟨hf, hks⟩ := List.forall_mem_cons.mp hks
    have hcall := Bool.and_eq_true_iff.mpr ⟨hf, all_of_isArguments hlit hargs hks⟩
    exact Bool.and_eq_true_iff.mpr ⟨hcall, rfl⟩
  | block hbody => simp [Stmt.allOf, Stmt.all, all_of_isBlock hlit hbody hks]
  | ifThen hc hs hbranch =>
    obtain ⟨hcs, hks⟩ := List.forall_mem_append.mp (List.forall_mem_cons.mp hks).2
    have hs := all_of_isStatement hlit hs (List.forall_mem_cons.mp hks).2
    simp [Stmt.allOf, Stmt.all, all_of_isExpr hlit hc hcs, allOf_of_isBranch hbranch hs]
  | ifElse hc hs hyes hs' hno =>
    obtain ⟨hcs, hks⟩ := List.forall_mem_append.mp (List.forall_mem_cons.mp hks).2
    obtain ⟨hks, hls⟩ := List.forall_mem_append.mp (List.forall_mem_cons.mp hks).2
    have hyes := allOf_of_isBranch hyes (all_of_isStatement hlit hs hks)
    have hno := allOf_of_isBranch hno
      (all_of_isStatement hlit hs' (List.forall_mem_cons.mp hls).2)
    simp [Stmt.allOf, Stmt.all, all_of_isExpr hlit hc hcs, hyes, hno]
  | loop hc hs hbranch =>
    obtain ⟨hcs, hks⟩ := List.forall_mem_append.mp (List.forall_mem_cons.mp hks).2
    have hs := all_of_isStatement hlit hs (List.forall_mem_cons.mp hks).2
    simp [Stmt.allOf, Stmt.all, all_of_isExpr hlit hc hcs, allOf_of_isBranch hbranch hs]
termination_by 3 * ks.length + 1

theorem all_of_isStatements (hlit : Signed lit) (h : IsStatements ks ss)
    (hks : ∀ k ∈ ks, k.all lit name) : Stmt.allOf lit name ss := by
  cases h with
  | one hs => exact all_of_isStatement hlit hs hks
  | more hs hss =>
    obtain ⟨hks, hls⟩ := List.forall_mem_append.mp hks
    rw [allOf_append]
    exact Bool.and_eq_true_iff.mpr ⟨all_of_isStatement hlit hs hks,
      all_of_isStatements hlit hss (List.forall_mem_cons.mp hls).2⟩
termination_by 3 * ks.length + 2

theorem all_of_isBlock (hlit : Signed lit) (h : IsBlock ks ss) (hks : ∀ k ∈ ks, k.all lit name) :
    Stmt.allOf lit name ss := by
  cases h with
  | intro hss =>
    obtain ⟨hks, -⟩ := List.forall_mem_append.mp (List.forall_mem_cons.mp hks).2
    exact all_of_isStatements hlit hss hks
termination_by 3 * ks.length

end

theorem all_of_isConstant (hlit : Signed lit) (h : IsConstant ks v)
    (hks : ∀ k ∈ ks, k.all lit name) : lit v := by
  cases h with
  | literal hv => exact lit_of_literalToken hv (hks _ List.mem_cons_self)
  | negative => exact hlit.neg _ (hks (.int _) (List.mem_cons_of_mem _ List.mem_cons_self))

theorem all_of_isConstants (hlit : Signed lit) (h : IsConstants ks cs)
    (hks : ∀ k ∈ ks, k.all lit name) : cs.all fun c => name c.1 && lit c.2 := by
  induction h with
  | one hv =>
    obtain ⟨hx, hks⟩ := List.forall_mem_cons.mp hks
    obtain ⟨hvs, -⟩ := List.forall_mem_append.mp (List.forall_mem_cons.mp hks).2
    have hconst := Bool.and_eq_true_iff.mpr ⟨hx, all_of_isConstant hlit hv hvs⟩
    exact Bool.and_eq_true_iff.mpr ⟨hconst, rfl⟩
  | more hv _ ih =>
    obtain ⟨hx, hks⟩ := List.forall_mem_cons.mp hks
    obtain ⟨hvs, hls⟩ := List.forall_mem_append.mp (List.forall_mem_cons.mp hks).2
    have hconst := Bool.and_eq_true_iff.mpr ⟨hx, all_of_isConstant hlit hv hvs⟩
    exact Bool.and_eq_true_iff.mpr ⟨hconst, ih (List.forall_mem_cons.mp hls).2⟩

theorem all_of_isProcedure (hlit : Signed lit) (h : IsProcedure ks r)
    (hks : ∀ k ∈ ks, k.all lit name) : r.all lit name := by
  cases h with
  | intro _ _ hbody =>
    obtain ⟨hname, hks⟩ := List.forall_mem_cons.mp (List.forall_mem_cons.mp hks).2
    obtain ⟨-, hks⟩ := List.forall_mem_append.mp hks
    obtain ⟨-, hks⟩ := List.forall_mem_append.mp (List.forall_mem_cons.mp hks).2
    obtain ⟨hbs, -⟩ := List.forall_mem_append.mp hks
    exact Bool.and_eq_true_iff.mpr ⟨hname, all_of_isBlock hlit hbody hbs⟩

theorem all_of_isDeclarations (hlit : Signed lit) (h : IsDeclarations ks cs rs)
    (hks : ∀ k ∈ ks, k.all lit name) :
    (cs.all fun c => name c.1 && lit c.2) ∧ rs.all (Routine.all lit name) := by
  induction h with
  | none => exact ⟨rfl, rfl⟩
  | const hcs _ ih =>
    obtain ⟨hks, hls⟩ := List.forall_mem_append.mp (List.forall_mem_cons.mp hks).2
    obtain ⟨hcs', hrs⟩ := ih hls
    rw [List.all_append]
    exact ⟨Bool.and_eq_true_iff.mpr ⟨all_of_isConstants hlit hcs hks, hcs'⟩, hrs⟩
  | var _ _ ih => exact ih (List.forall_mem_append.mp (List.forall_mem_cons.mp hks).2).2
  | procedure hr _ ih =>
    obtain ⟨hks, hls⟩ := List.forall_mem_append.mp hks
    obtain ⟨hcs, hrs⟩ := ih hls
    exact ⟨hcs, Bool.and_eq_true_iff.mpr ⟨all_of_isProcedure hlit hr hks, hrs⟩⟩

theorem all_of_isProgram (hlit : Signed lit) (h : IsProgram ks p) (hks : ∀ k ∈ ks, k.all lit name)
    (hmain : name "main") : p.all lit name := by
  cases h with
  | intro _ hds hbody =>
    obtain ⟨hds', hks⟩ := List.forall_mem_append.mp (List.forall_mem_append.mp hks).2
    obtain ⟨hcs, hrs⟩ := all_of_isDeclarations hlit hds hds'
    have hbody := all_of_isBlock hlit hbody (List.forall_mem_append.mp hks).1
    simp only [Program.all, Program.routines, Module.allRoutines, List.flatMap_cons,
      List.flatMap_nil, List.append_nil, List.all_append, List.all_cons, List.all_nil, Routine.all,
      hcs, hrs, hmain, hbody, Bool.and_true]

end

-- ---------------------------------------------------------------------------
-- What a source can hold
-- ---------------------------------------------------------------------------

/-- Names that a source can hold: words that are no keywords. -/
def isName (x : String) : Bool :=
  isWord x && (Keyword.ofWord? x).isNone

/-- Literals that a source can hold: numbers that are not the lowest one, and strings on one
line. -/
def Literal.isReadable : Literal → Bool
  | .int v => -0x7FFFFFFFFFFFFFFF ≤ v.toInt && v.toInt ≤ 0x7FFFFFFFFFFFFFFF
  | .bool _ => true
  | .str s => s.toList.all (· != '\n')

/-- Every number but the lowest has a negative. -/
theorem toInt_neg_of_lt {v : Int64} (h : -0x8000000000000000 < v.toInt) :
    (-v).toInt = -v.toInt := by
  have hhigh := v.toInt_lt
  rw [Int64.toInt_neg, Int.bmod_eq_of_le (by omega) (by omega)]

theorem isReadable_int {v : Int64} :
    (Literal.int v).isReadable ↔ -0x8000000000000000 < v.toInt := by
  have hhigh := v.toInt_lt
  simp only [Literal.isReadable, Bool.and_eq_true, decide_eq_true_eq]
  omega

theorem signed_isReadable : Signed Literal.isReadable where
  zero := by decide
  neg v hv := by
    have hlow := isReadable_int.mp hv
    have hhigh := v.toInt_lt
    rw [isReadable_int, toInt_neg_of_lt hlow]
    omega

theorem Quoted.notMem_newline (h : Quoted body content) : '\n' ∉ content := by
  induction h with
  | nil => exact List.not_mem_nil
  | pair _ ih => simp [ih]
  | char _ hline _ ih => simp [ih, Ne.symm hline]

theorem isReadable_str (h : Quoted body content) :
    (Literal.str (String.ofList content)).isReadable := by
  rw [Literal.isReadable, String.toList_ofList]
  exact List.all_eq_true.mpr (bne_of_notMem h.notMem_newline)

theorem int_of_numberLexeme (h : numberLexeme base digits text = .token k) :
    ∃ v : Int64, k = .int v ∧ v.toInt = Text.digitsValue base digits := by
  unfold numberLexeme at h
  cases hfit : Text.fit (Text.digitsValue base digits) with
  | none => simp [hfit] at h
  | some v =>
    rw [hfit] at h
    cases h
    exact ⟨v, rfl, Text.fit_eq_some_iff.mp hfit⟩

theorem all_of_numberLexeme (h : numberLexeme base digits text = .token k) :
    k.all Literal.isReadable name := by
  obtain ⟨v, rfl, hv⟩ := int_of_numberLexeme h
  exact isReadable_int.mpr (by omega)

theorem all_wordKind (h : isWord x) : (wordKind x).all Literal.isReadable isName := by
  unfold wordKind
  cases hk : Keyword.ofWord? x with
  | none => simp [Kind.all, isName, h, hk]
  | some k => cases k <;> rfl

/-- Tokens that can be written have names and literals that a source can hold. -/
theorem all_of_shape (h : Shape w (.token k)) : k.all Literal.isReadable isName := by
  generalize hl : Lexeme.token k = l at h
  cases h with
  | string hbody =>
    cases hl
    exact isReadable_str hbody
  | decimal => exact all_of_numberLexeme hl.symm
  | hex => exact all_of_numberLexeme hl.symm
  | word hword =>
    cases hl
    exact all_wordKind hword
  | sign =>
    cases hl
    rfl
  | _ => cases hl

theorem all_of_lexFrom (h : lexFrom offset cs = .ok tokens) :
    ∀ k ∈ kinds tokens, k.all Literal.isReadable isName := by
  fun_induction lexFrom offset cs generalizing tokens with
  | case1 =>
    cases h
    exact List.forall_mem_nil _
  | case2 =>
    -- a comment or blanks: no token is added
    rename_i ih
    exact ih h
  | case3 => cases h
  | case4 offset c cs n stop kind rest hrest hclassify =>
    rename_i ih
    cases h
    refine List.forall_mem_cons.mpr ⟨?_, ih hrest⟩
    obtain ⟨-, hshape⟩ | hinvalid := classify_cases c cs
    · rw [hclassify] at hshape
      exact all_of_shape hshape
    · rw [hclassify] at hinvalid
      cases hinvalid
  | case5 => cases h

theorem all_isWord_of_all {k : Kind} (h : k.all lit isName) : k.all (fun _ => true) isWord := by
  cases k with
  | ident x => exact (Bool.and_eq_true_iff.mp h).1
  | _ => simp [Kind.all]

theorem parse_eq_ok_iff :
    parse source = .ok p ↔
      ∃ tokens, lexFrom 0 source.toList = .ok tokens ∧ parseTokens tokens = .ok p := by
  unfold parse lex
  cases lexFrom 0 source.toList with
  | error fault => simp [bind, Except.bind]
  | ok tokens =>
    cases hp : parseTokens tokens with
    | error fault => simp [bind, Except.bind, hp]
    | ok q => simp [bind, Except.bind, pure, Except.pure, hp]

/-- A source whose tokens are of the kinds of a program is read as the program. -/
theorem parse_of_isProgram (hlex : (lexFrom 0 source.toList).map kinds = .ok ks)
    (hp : IsProgram ks p) : parse source = .ok p := by
  cases htokens : lexFrom 0 source.toList with
  | error fault => simp [htokens, Except.map] at hlex
  | ok tokens =>
    obtain rfl : kinds tokens = ks := by simpa [htokens, Except.map] using hlex
    exact parse_eq_ok_iff.mpr ⟨tokens, htokens, parseTokens_complete hp (spells_self tokens)⟩

/-- Only the kinds of its tokens matter for what a source is read as. -/
theorem parse_of_kinds (hlex : (lexFrom 0 source.toList).map kinds = .ok ks)
    (hparse : parseTokens (ks.map fun k => ⟨k, default⟩) = .ok p) : parse source = .ok p := by
  have hp := parseTokens_sound hparse
  have hkinds : kinds (ks.map fun k => ⟨k, default⟩) = ks := by
    simp [kinds, Function.comp_def]
  rw [hkinds] at hp
  exact parse_of_isProgram hlex hp

/-- All names of a program that is read from a source are words. -/
theorem all_isWord_of_parse (h : parse source = .ok p) : p.all (fun _ => true) isWord := by
  obtain ⟨tokens, hlex, hparse⟩ := parse_eq_ok_iff.mp h
  exact all_of_isProgram ⟨rfl, fun _ _ => rfl⟩ (parseTokens_sound hparse)
    (fun k hk => all_isWord_of_all (all_of_lexFrom hlex k hk)) rfl

end Cartridge.Pascal
