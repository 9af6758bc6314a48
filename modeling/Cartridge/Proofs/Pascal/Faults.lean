import Cartridge.Proofs.Pascal.Programs

/-!
# Where faults point

A rule sees its own tokens only: what it leaves is among them, and so is every
token that a fault points at, the one at which reading stopped as well as the one
that begins a path which names no tier.
-/

namespace Cartridge.Pascal

/-- The tokens that a fault points at. -/
def Fault.tokens : Fault → List Token
  | .expected _ rest => rest
  | .unknownTier _ start => [start]

/-- What a rule leaves, or the fault it stops with, holds no token but those of `ts`. -/
def Within (ts : List Token) (rest : α → List Token) : Except Fault α → Prop
  | .ok a => rest a ⊆ ts
  | .error f => f.tokens ⊆ ts

section

variable {ts ts' : List Token} {rest : α → List Token} {x : Except Fault (Parsed Token β bound)}

theorem Within.mono {r : Except Fault α} (h : Within ts rest r) (hsub : ts ⊆ ts') :
    Within ts' rest r := by
  cases r with
  | ok a => exact List.Subset.trans h hsub
  | error f => exact List.Subset.trans h hsub

theorem Within.behind {r : Except Fault α} (h : Within ts rest r) : Within (t :: ts) rest r :=
  h.mono (List.subset_cons_self t ts)

theorem Within.bind {f : Parsed Token β bound → Except Fault α} (hx : Within ts Parsed.rest x)
    (hf : ∀ p, p.rest ⊆ ts → Within ts rest (f p)) : Within ts rest (x >>= f) := by
  cases x with
  | ok p => exact hf p hx
  | error e => exact hx

/-- The second of two rules stays within what the first has left. -/
theorem Within.next {f : Parsed Token β bound → Except Fault α} (hx : Within ts Parsed.rest x)
    (hf : ∀ p, Within p.rest rest (f p)) : Within ts rest (x >>= f) :=
  hx.bind fun p hp => (hf p).mono hp

end

theorem subset_of_uncons? {p q : Parsed Token α bound} (h : p.uncons? = some (t, q)) :
    q.rest ⊆ p.rest := by
  obtain ⟨value, rest, hp⟩ := p
  cases rest with
  | nil => cases h
  | cons t rest =>
    cases h
    exact List.subset_cons_self t rest

theorem within_token (kind : Kind) (ts : List Token) : Within ts Parsed.rest (token kind ts) := by
  unfold token
  split
  · exact List.nil_subset []
  · split
    · exact List.subset_cons_self _ _
    · exact List.Subset.refl _

theorem within_sign (s : Sign) (ts : List Token) : Within ts Parsed.rest (sign s ts) :=
  within_token (.sign s) ts

theorem within_keyword (k : Keyword) (ts : List Token) : Within ts Parsed.rest (keyword k ts) :=
  within_token (.keyword k) ts

theorem within_identifier (ts : List Token) : Within ts Parsed.rest (identifier ts) := by
  unfold identifier
  split
  · exact List.subset_cons_self _ _
  · exact List.Subset.refl _

-- ---------------------------------------------------------------------------
-- Expressions
-- ---------------------------------------------------------------------------

mutual

theorem within_expr (ts : List Token) : Within ts Parsed.rest (expr ts) := by
  rw [expr]
  refine (within_additive ts).next fun left => ?_
  split
  · exact List.Subset.refl _
  · next past huncons =>
    split
    · exact List.Subset.refl _
    · have := past.fewer
      exact ((within_additive past.rest).next fun _ => List.Subset.refl _).mono
        (subset_of_uncons? huncons)
termination_by 5 * ts.length + 3

theorem within_additive (ts : List Token) : Within ts Parsed.rest (additive ts) := by
  rw [additive]
  refine (within_multiplicative ts).next fun left => ?_
  have := left.fewer
  exact (within_additiveTail left.value left.rest).next fun _ => List.Subset.refl _
termination_by 5 * ts.length + 2

theorem within_additiveTail (left : Expr) (ts : List Token) :
    Within ts Parsed.rest (additiveTail left ts) := by
  cases ts with
  | nil =>
    rw [additiveTail]
    exact List.Subset.refl _
  | cons t rest =>
    rw [additiveTail]
    split
    · exact List.Subset.refl _
    · next op _ =>
      refine ((within_multiplicative rest).next fun right => ?_).behind
      have := right.fewer
      exact (within_additiveTail (.binary op left right.value) right.rest).next
        fun _ => List.Subset.refl _
termination_by 5 * ts.length

theorem within_multiplicative (ts : List Token) : Within ts Parsed.rest (multiplicative ts) := by
  rw [multiplicative]
  refine (within_factor ts).next fun left => ?_
  have := left.fewer
  exact (within_multiplicativeTail left.value left.rest).next fun _ => List.Subset.refl _
termination_by 5 * ts.length + 1

theorem within_multiplicativeTail (left : Expr) (ts : List Token) :
    Within ts Parsed.rest (multiplicativeTail left ts) := by
  cases ts with
  | nil =>
    rw [multiplicativeTail]
    exact List.Subset.refl _
  | cons t rest =>
    rw [multiplicativeTail]
    split
    · exact List.Subset.refl _
    · next op _ =>
      refine ((within_factor rest).next fun right => ?_).behind
      have := right.fewer
      exact (within_multiplicativeTail (.binary op left right.value) right.rest).next
        fun _ => List.Subset.refl _
termination_by 5 * ts.length

theorem within_factor (ts : List Token) : Within ts Parsed.rest (factor ts) := by
  rw [factor.eq_def]
  split
  · next rest => exact ((within_arguments rest).next fun _ => List.Subset.refl _).behind.behind
  · exact List.subset_cons_self _ _
  · next rest =>
    refine ((within_expr rest).next fun inner => ?_).behind
    exact (within_sign .closeParen inner.rest).next fun _ => List.Subset.refl _
  · next rest => exact ((within_factor rest).next fun _ => List.Subset.refl _).behind
  · exact List.Subset.refl _
  · split
    · exact List.subset_cons_self _ _
    · exact List.Subset.refl _
termination_by 5 * ts.length

theorem within_arguments (ts : List Token) : Within ts Parsed.rest (arguments ts) := by
  rw [arguments.eq_def]
  split
  · exact List.subset_cons_self _ _
  · refine (within_expr _).next fun first => ?_
    have := first.fewer
    exact (within_argumentsTail first.rest).next fun _ => List.Subset.refl _
termination_by 5 * ts.length + 4

theorem within_argumentsTail (ts : List Token) : Within ts Parsed.rest (argumentsTail ts) := by
  rw [argumentsTail.eq_def]
  split
  · next span rest =>
    refine ((within_expr rest).next fun next => ?_).behind
    have := (next.behind (x := ⟨.sign .comma, span⟩)).fewer
    exact (within_argumentsTail next.rest).next fun _ => List.Subset.refl _
  · exact (within_sign .closeParen _).next fun _ => List.Subset.refl _
termination_by 5 * ts.length

end

-- ---------------------------------------------------------------------------
-- Statements
-- ---------------------------------------------------------------------------

mutual

theorem within_statement (ts : List Token) : Within ts Parsed.rest (statement ts) := by
  rw [statement.eq_def]
  split
  · next rest => exact ((within_expr rest).next fun _ => List.Subset.refl _).behind.behind
  · next rest => exact ((within_arguments rest).next fun _ => List.Subset.refl _).behind.behind
  · exact List.subset_cons_self _ _
  · next rest =>
    refine ((within_statements rest).next fun body => ?_).behind
    exact (within_keyword .end_ body.rest).next fun _ => List.Subset.refl _
  · next span rest =>
    refine ((within_expr rest).next fun cond => ?_).behind
    refine (within_keyword .then_ cond.rest).next fun then_ => ?_
    have := ((cond.next then_).behind (x := ⟨.keyword .if_, span⟩)).fewer
    refine (within_statement then_.rest).next fun yes => ?_
    split
    · next past huncons =>
      have := ((cond.next (then_.nextMay past)).behind (x := ⟨.keyword .if_, span⟩)).fewer
      exact ((within_statement past.rest).next fun _ => List.Subset.refl _).mono
        (subset_of_uncons? huncons)
    · exact List.Subset.refl _
  · next span rest =>
    refine ((within_expr rest).next fun cond => ?_).behind
    refine (within_keyword .do_ cond.rest).next fun do_ => ?_
    have := ((cond.next do_).behind (x := ⟨.keyword .while, span⟩)).fewer
    exact (within_statement do_.rest).next fun _ => List.Subset.refl _
  · exact List.Subset.refl _
  · split
    · exact List.Subset.refl _
    · exact List.Subset.refl _
termination_by 3 * ts.length

theorem within_statements (ts : List Token) : Within ts Parsed.rest (statements ts) := by
  rw [statements]
  refine (within_statement ts).next fun first => ?_
  have := first.fewer
  exact (within_statementsTail first.rest).next fun _ => List.Subset.refl _
termination_by 3 * ts.length + 2

theorem within_statementsTail (ts : List Token) : Within ts Parsed.rest (statementsTail ts) := by
  rw [statementsTail.eq_def]
  split
  · next span rest =>
    refine ((within_statement rest).next fun next => ?_).behind
    have := next.fewer
    exact (within_statementsTail next.rest).next fun _ => List.Subset.refl _
  · exact List.Subset.refl _
termination_by 3 * ts.length + 1

end

theorem within_block (ts : List Token) : Within ts Parsed.rest (block ts) := by
  rw [block]
  refine (within_keyword .begin ts).next fun begin_ => ?_
  refine (within_statements begin_.rest).next fun body => ?_
  exact (within_keyword .end_ body.rest).next fun _ => List.Subset.refl _

-- ---------------------------------------------------------------------------
-- Declarations
-- ---------------------------------------------------------------------------

theorem within_constantValue (ts : List Token) : Within ts Parsed.rest (constantValue ts) := by
  unfold constantValue
  split
  · exact List.subset_cons_of_subset _ (List.subset_cons_self _ _)
  · exact List.subset_cons_self _ _
  · exact List.Subset.refl _
  · split
    · exact List.subset_cons_self _ _
    · exact List.Subset.refl _

theorem within_constEntry (ts : List Token) : Within ts Parsed.rest (constEntry ts) := by
  rw [constEntry]
  refine (within_identifier ts).next fun name => ?_
  refine (within_sign .eq name.rest).next fun equals => ?_
  refine (within_constantValue equals.rest).next fun value => ?_
  exact (within_sign .semicolon value.rest).next fun _ => List.Subset.refl _

theorem within_constEntries (ts : List Token) : Within ts Parsed.rest (constEntries ts) := by
  rw [constEntries]
  refine (within_constEntry ts).next fun first => ?_
  split
  · have := first.fewer
    exact (within_constEntries first.rest).next fun _ => List.Subset.refl _
  · exact List.Subset.refl _
termination_by ts.length

theorem within_nameList (ts : List Token) : Within ts Parsed.rest (nameList ts) := by
  rw [nameList]
  refine (within_identifier ts).next fun name => ?_
  split
  · next past huncons =>
    have := past.fewer
    exact ((within_nameList past.rest).next fun _ => List.Subset.refl _).mono
      (subset_of_uncons? huncons)
  · exact List.Subset.refl _
termination_by ts.length

theorem within_varEntry (ts : List Token) : Within ts Parsed.rest (varEntry ts) := by
  rw [varEntry]
  refine (within_nameList ts).next fun names => ?_
  refine (within_sign .colon names.rest).next fun colon => ?_
  refine (within_identifier colon.rest).next fun type => ?_
  exact (within_sign .semicolon type.rest).next fun _ => List.Subset.refl _

theorem within_varEntries (ts : List Token) : Within ts Parsed.rest (varEntries ts) := by
  rw [varEntries]
  refine (within_varEntry ts).next fun first => ?_
  split
  · have := first.fewer
    exact (within_varEntries first.rest).next fun _ => List.Subset.refl _
  · exact List.Subset.refl _
termination_by ts.length

theorem pathTail_subset (path : String) (ts : List Token) : (pathTail path ts).rest ⊆ ts := by
  fun_induction pathTail path ts with
  | case1 path _ name _ rest ih =>
    exact List.subset_cons_of_subset _ (List.subset_cons_of_subset _ ih)
  | case2 => exact List.Subset.refl _

theorem within_path (ts : List Token) : Within ts Parsed.rest (path ts) := by
  rw [path]
  exact (within_identifier ts).next fun name => pathTail_subset name.value name.rest

/-- A path that names no tier is held against its first token. -/
theorem within_tierPath (ts : List Token) : Within ts Parsed.rest (tierPath ts) := by
  rw [tierPath]
  refine (within_path ts).bind fun name hname => ?_
  split
  · exact hname
  · exact List.cons_subset_cons _ (List.nil_subset _)
  · exact List.nil_subset _

theorem within_requirement (ts : List Token) : Within ts Parsed.rest (requirement ts) := by
  rw [requirement]
  refine (within_tierPath ts).next fun tier => ?_
  split
  · next past huncons =>
    exact ((within_path past.rest).next fun _ => List.Subset.refl _).mono
      (subset_of_uncons? huncons)
  · exact List.Subset.refl _

theorem within_optionalRequirement (ts : List Token) :
    Within ts Parsed.rest (optionalRequirement ts) := by
  unfold optionalRequirement
  split
  · next rest =>
    refine ((within_requirement rest).next fun needs => ?_).behind
    exact (within_sign .semicolon needs.rest).next fun _ => List.Subset.refl _
  · exact List.Subset.refl _

theorem within_optionalParens (ts : List Token) : Within ts Parsed.rest (optionalParens ts) := by
  unfold optionalParens
  split
  · next rest => exact ((within_sign .closeParen rest).next fun _ => List.Subset.refl _).behind
  · exact List.Subset.refl _

theorem within_procedure (ts : List Token) : Within ts Parsed.rest (procedure ts) := by
  rw [procedure]
  refine (within_identifier ts).next fun name => ?_
  refine (within_optionalParens name.rest).next fun parens => ?_
  refine (within_sign .semicolon parens.rest).next fun semicolon => ?_
  refine (within_optionalRequirement semicolon.rest).next fun needs => ?_
  refine (within_block needs.rest).next fun body => ?_
  exact (within_sign .semicolon body.rest).next fun _ => List.Subset.refl _

theorem within_declaration? {rule : Reads Declarations ts} (h : declaration? ts = some rule) :
    Within ts Parsed.rest rule := by
  unfold declaration? at h
  split at h
  · next rest =>
    cases h
    exact ((within_constEntries rest).next fun _ => List.Subset.refl _).behind
  · next rest =>
    cases h
    exact ((within_varEntries rest).next fun _ => List.Subset.refl _).behind
  · next rest =>
    cases h
    exact ((within_procedure rest).next fun _ => List.Subset.refl _).behind
  · cases h

theorem within_declarations (ts : List Token) : Within ts Parsed.rest (declarations ts) := by
  rw [declarations]
  split
  · exact List.Subset.refl _
  · next rule hrule =>
    refine (within_declaration? hrule).next fun first => ?_
    have := first.fewer
    exact (within_declarations first.rest).next fun _ => List.Subset.refl _
termination_by ts.length

theorem within_header (ts : List Token) : Within ts Parsed.rest (header ts) := by
  unfold header
  split
  · next rest =>
    refine ((within_identifier rest).next fun name => ?_).behind
    exact (within_sign .semicolon name.rest).next fun _ => List.Subset.refl _
  · exact List.Subset.refl _

theorem within_parseTokens (ts : List Token) : Within ts (fun _ => []) (parseTokens ts) := by
  rw [parseTokens]
  refine (within_header ts).next fun name => ?_
  refine (within_declarations name.rest).next fun decls => ?_
  refine (within_block decls.rest).next fun body => ?_
  refine (within_sign .dot body.rest).next fun dot => ?_
  split
  · exact List.nil_subset _
  · exact List.Subset.refl _

/-- A fault of a token list points at tokens of the list. -/
theorem tokens_subset_of_parseTokens (h : parseTokens ts = .error fault) : fault.tokens ⊆ ts := by
  have hwithin := within_parseTokens ts
  rwa [h] at hwithin

end Cartridge.Pascal
