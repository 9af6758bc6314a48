import Cartridge.Pascal.Parser.Expr
import Cartridge.Proofs.Pascal.Grammar
import Cartridge.Proofs.Pascal.Reading

/-!
# Expressions are read by the grammar

What `expr` reads is an expression of the grammar, with the tree it yields.
Conversely it reads every expression of the grammar, unless the token behind it
would be taken into the expression too: an operator, or a parenthesis behind a
name.
-/

namespace Cartridge.Pascal

open Grammar

-- ---------------------------------------------------------------------------
-- Operators and literals
-- ---------------------------------------------------------------------------

theorem literal?_eq_some : literal? k = some v ↔ LiteralToken k v := by
  constructor
  · intro h
    cases k with
    | int v => cases h; exact .int
    | str s => cases h; exact .str
    | keyword w =>
      cases w with
      | true => cases h; exact .true
      | false => cases h; exact .false
      | _ => cases h
    | _ => cases h
  · rintro ⟨⟩ <;> rfl

theorem relation?_eq_some : relation? k = some op ↔ RelationToken k op := by
  constructor
  · intro h
    unfold relation? at h
    split at h <;> cases h <;> constructor
  · rintro ⟨⟩ <;> rfl

theorem additive?_eq_some : additive? k = some op ↔ AdditiveToken k op := by
  constructor
  · intro h
    unfold additive? at h
    split at h <;> cases h <;> constructor
  · rintro ⟨⟩ <;> rfl

theorem multiplicative?_eq_some : multiplicative? k = some op ↔ MultiplicativeToken k op := by
  constructor
  · intro h
    unfold multiplicative? at h
    split at h <;> cases h <;> constructor
  · rintro ⟨⟩ <;> rfl

-- ---------------------------------------------------------------------------
-- What one rule reads, in terms of the rules it calls
-- ---------------------------------------------------------------------------

theorem yields_expr : Yields (expr ts) e rest ↔
    ∃ l mid, Yields (additive ts) l mid ∧
      ((∃ k op next r, Spells mid [k] next ∧ RelationToken k op ∧
          Yields (additive next) r rest ∧ .binary op l r = e) ∨
        (Ahead (relation? · = none) mid ∧ l = e ∧ mid = rest)) := by
  rw [expr]
  simp only [yields_bind, ← relation?_eq_some, spells_one]
  refine exists₂_congr fun l mid => ?_
  rw [← exists_prop]
  refine exists_congr fun hl => ?_
  cases mid with
  | nil => simp [Parsed.uncons?]
  | cons t mid =>
    cases hop : relation? t.kind with
    | none =>
      simp only [Parsed.uncons?, hop, yields_pure, ahead_cons]
      grind
    | some op =>
      simp only [Parsed.uncons?, hop, yields_bind, yields_pure, Parsed.next, Parsed.map,
        ahead_cons]
      grind

theorem yields_additive : Yields (additive ts) e rest ↔
    ∃ l mid, Yields (multiplicative ts) l mid ∧ Yields (additiveTail l mid) e rest := by
  rw [additive]
  simp [Parsed.nextMay]

theorem yields_additiveTail : Yields (additiveTail l ts) e rest ↔
    (∃ k op next r mid, Spells ts [k] next ∧ AdditiveToken k op ∧
      Yields (multiplicative next) r mid ∧ Yields (additiveTail (.binary op l r) mid) e rest) ∨
    (Ahead (additive? · = none) ts ∧ l = e ∧ ts = rest) := by
  simp only [← additive?_eq_some, spells_one]
  cases ts with
  | nil => simp [additiveTail, Parsed.nothing]
  | cons t ts =>
    cases hop : additive? t.kind with
    | none =>
      simp only [additiveTail, hop, yields_ok, Parsed.nothing, ahead_cons]
      grind
    | some op =>
      simp only [additiveTail, hop, yields_bind, yields_pure, Parsed.relax, Parsed.behind,
        Parsed.nextMay, ahead_cons]
      grind

theorem yields_multiplicative : Yields (multiplicative ts) e rest ↔
    ∃ l mid, Yields (factor ts) l mid ∧ Yields (multiplicativeTail l mid) e rest := by
  rw [multiplicative]
  simp [Parsed.nextMay]

theorem yields_multiplicativeTail : Yields (multiplicativeTail l ts) e rest ↔
    (∃ k op next r mid, Spells ts [k] next ∧ MultiplicativeToken k op ∧
      Yields (factor next) r mid ∧ Yields (multiplicativeTail (.binary op l r) mid) e rest) ∨
    (Ahead (multiplicative? · = none) ts ∧ l = e ∧ ts = rest) := by
  simp only [← multiplicative?_eq_some, spells_one]
  cases ts with
  | nil => simp [multiplicativeTail, Parsed.nothing]
  | cons t ts =>
    cases hop : multiplicative? t.kind with
    | none =>
      simp only [multiplicativeTail, hop, yields_ok, Parsed.nothing, ahead_cons]
      grind
    | some op =>
      simp only [multiplicativeTail, hop, yields_bind, yields_pure, Parsed.relax, Parsed.behind,
        Parsed.nextMay, ahead_cons]
      grind

/-- How a factor was read, told by the tokens that it starts with. -/
inductive FactorRead (ts rest : List Token) : Expr → Prop
  | call : Spells ts [.ident f, .sign .openParen] next → Yields (arguments next) args rest →
      FactorRead ts rest (.call f args)
  | name : Spells ts [.ident x] rest → Ahead (· ≠ .sign .openParen) rest →
      FactorRead ts rest (.ident x)
  | parens : Spells ts [.sign .openParen] next → Yields (expr next) e mid →
      Spells mid [.sign .closeParen] rest → FactorRead ts rest e
  | minus : Spells ts [.sign .minus] next → Yields (factor next) e rest →
      FactorRead ts rest (negate e)
  | literal : Spells ts [k] rest → LiteralToken k v → FactorRead ts rest (.lit v)

theorem factorRead_of_yields (h : Yields (factor ts) e rest) : FactorRead ts rest e := by
  rw [factor.eq_def] at h
  split at h
  · simp only [yields_bind, yields_pure, Parsed.behind, Parsed.map] at h
    obtain ⟨args, _, hargs, rfl, rfl⟩ := h
    exact .call (by simp) hargs
  · next hne =>
    obtain ⟨rfl, rfl⟩ := yields_ok.mp h
    exact .name (spells_one.mpr ⟨_, rfl⟩) (ahead_ne_iff.mpr hne)
  · simp only [yields_bind, yields_pure, yields_sign, Parsed.next, Parsed.behind, Parsed.map] at h
    obtain ⟨_, _, he, _, _, hclose, rfl, rfl⟩ := h
    exact .parens (by simp) he hclose
  · simp only [yields_bind, yields_pure, Parsed.behind, Parsed.map] at h
    obtain ⟨_, _, he, rfl, rfl⟩ := h
    exact .minus (by simp) he
  · simp at h
  · split at h
    · next hv =>
      obtain ⟨rfl, rfl⟩ := yields_ok.mp h
      exact .literal (spells_one.mpr ⟨_, rfl⟩) (literal?_eq_some.mp hv)
    · simp at h

theorem FactorRead.yields (h : FactorRead ts rest e) : Yields (factor ts) e rest := by
  cases h with
  | call hts hargs =>
    obtain ⟨⟨_, a⟩, _, rfl, rfl, hts'⟩ := spells_cons.mp hts
    obtain ⟨b, rfl⟩ := spells_one.mp hts'
    rw [factor]
    exact yields_bind.mpr ⟨_, rest, hargs, yields_pure.mpr ⟨rfl, rfl⟩⟩
  | name hts hahead =>
    obtain ⟨a, rfl⟩ := spells_one.mp hts
    rw [factor]
    · exact yields_ok.mpr ⟨rfl, rfl⟩
    · exact ahead_ne_iff.mp hahead
  | parens hts he hclose =>
    obtain ⟨a, rfl⟩ := spells_one.mp hts
    rw [factor]
    refine yields_bind.mpr ⟨e, _, he, ?_⟩
    exact yields_bind.mpr ⟨(), rest, yields_sign.mpr hclose, yields_pure.mpr ⟨rfl, rfl⟩⟩
  | minus hts he =>
    obtain ⟨a, rfl⟩ := spells_one.mp hts
    rw [factor]
    exact yields_bind.mpr ⟨_, rest, he, yields_pure.mpr ⟨rfl, rfl⟩⟩
  | literal hts hv =>
    obtain ⟨a, rfl⟩ := spells_one.mp hts
    have hlit := literal?_eq_some.mpr hv
    cases hv <;> simp [factor, hlit, Parsed.one]

theorem yields_arguments : Yields (arguments ts) args rest ↔
    (Spells ts [.sign .closeParen] rest ∧ [] = args) ∨
    (Ahead (· ≠ .sign .closeParen) ts ∧ ∃ e mid es, Yields (expr ts) e mid ∧
      Yields (argumentsTail mid) es rest ∧ e :: es = args) := by
  rw [arguments.eq_def]
  split
  · next a ts => simp [Parsed.one, and_comm]
  · next hne =>
    have hahead : Ahead (· ≠ .sign .closeParen) ts := ahead_ne_iff.mpr hne
    simp only [yields_bind, yields_pure, Parsed.next, Parsed.map, hahead, hahead.not_spells]
    grind

theorem yields_argumentsTail : Yields (argumentsTail ts) es rest ↔
    (∃ next e mid es', Spells ts [.sign .comma] next ∧ Yields (expr next) e mid ∧
      Yields (argumentsTail mid) es' rest ∧ e :: es' = es) ∨
    (Spells ts [.sign .closeParen] rest ∧ [] = es) := by
  simp only [spells_one]
  rw [argumentsTail.eq_def]
  split
  · next a ts =>
    simp only [yields_bind, yields_pure, Parsed.next, Parsed.behind, Parsed.map]
    grind
  · next hne =>
    simp only [yields_bind, yields_pure, yields_sign, Parsed.map, spells_one]
    grind

-- ---------------------------------------------------------------------------
-- What the rules read is in the grammar
-- ---------------------------------------------------------------------------

theorem isFactor_negate (h : IsFactor ks e) : IsFactor (.sign .minus :: ks) (negate e) := by
  unfold negate
  split
  · exact .negative h
  · next hne => exact .minus h fun v he => hne v he

mutual

theorem expr_sound (ts : List Token) (h : Yields (expr ts) e rest) :
    ∃ ks, Spells ts ks rest ∧ IsExpr ks e := by
  obtain ⟨l, mid, hl, h⟩ := yields_expr.mp h
  obtain ⟨ks, hks, hl'⟩ := additive_sound ts hl
  obtain ⟨k, op, next, r, hop, hk, hr, rfl⟩ | ⟨-, rfl, rfl⟩ := h
  · have hmid := hl.fewer
    have hnext := hop.fewer
    obtain ⟨ls, hls, hr'⟩ := additive_sound next hr
    exact ⟨ks ++ k :: ls, hks.trans (hop.trans hls), .relation hl' hk hr'⟩
  · exact ⟨ks, hks, .additive hl'⟩
termination_by 5 * ts.length + 3

theorem additive_sound (ts : List Token) (h : Yields (additive ts) e rest) :
    ∃ ks, Spells ts ks rest ∧ IsAdditive ks e := by
  obtain ⟨l, mid, hl, htail⟩ := yields_additive.mp h
  obtain ⟨ks, hks, hl'⟩ := multiplicative_sound ts hl
  have hmid := hl.fewer
  exact additiveTail_sound mid htail hks (.multiplicative hl')
termination_by 5 * ts.length + 2

/-- The tail goes on with the sum in front of it. -/
theorem additiveTail_sound (ts : List Token) (h : Yields (additiveTail l ts) e rest)
    (hls : Spells front ls ts) (hl : IsAdditive ls l) :
    ∃ ks, Spells front ks rest ∧ IsAdditive ks e := by
  obtain ⟨k, op, next, r, mid, hop, hk, hr, htail⟩ | ⟨-, rfl, rfl⟩ := yields_additiveTail.mp h
  · have hnext := hop.fewer
    have hmid := hr.fewer
    obtain ⟨rs, hrs, hr'⟩ := multiplicative_sound next hr
    exact additiveTail_sound mid htail (hls.trans (hop.trans hrs)) (.more hl hk hr')
  · exact ⟨ls, hls, hl⟩
termination_by 5 * ts.length

theorem multiplicative_sound (ts : List Token) (h : Yields (multiplicative ts) e rest) :
    ∃ ks, Spells ts ks rest ∧ IsMultiplicative ks e := by
  obtain ⟨l, mid, hl, htail⟩ := yields_multiplicative.mp h
  obtain ⟨ks, hks, hl'⟩ := factor_sound ts hl
  have hmid := hl.fewer
  exact multiplicativeTail_sound mid htail hks (.factor hl')
termination_by 5 * ts.length + 1

/-- The tail goes on with the product in front of it. -/
theorem multiplicativeTail_sound (ts : List Token) (h : Yields (multiplicativeTail l ts) e rest)
    (hls : Spells front ls ts) (hl : IsMultiplicative ls l) :
    ∃ ks, Spells front ks rest ∧ IsMultiplicative ks e := by
  obtain ⟨k, op, next, r, mid, hop, hk, hr, htail⟩ | ⟨-, rfl, rfl⟩ :=
    yields_multiplicativeTail.mp h
  · have hnext := hop.fewer
    have hmid := hr.fewer
    obtain ⟨rs, hrs, hr'⟩ := factor_sound next hr
    exact multiplicativeTail_sound mid htail (hls.trans (hop.trans hrs)) (.more hl hk hr')
  · exact ⟨ls, hls, hl⟩
termination_by 5 * ts.length

theorem factor_sound (ts : List Token) (h : Yields (factor ts) e rest) :
    ∃ ks, Spells ts ks rest ∧ IsFactor ks e := by
  cases factorRead_of_yields h with
  | call hts hargs =>
    have hnext := hts.fewer
    obtain ⟨ks, hks, hargs'⟩ := arguments_sound _ hargs
    exact ⟨_, hts.trans hks, .call hargs'⟩
  | name hts => exact ⟨_, hts, .name⟩
  | parens hts he hclose =>
    have hnext := hts.fewer
    obtain ⟨ks, hks, he'⟩ := expr_sound _ he
    exact ⟨_, hts.trans (hks.trans hclose), .parens he'⟩
  | minus hts he =>
    have hnext := hts.fewer
    obtain ⟨ks, hks, he'⟩ := factor_sound _ he
    exact ⟨_, hts.trans hks, isFactor_negate he'⟩
  | literal hts hv => exact ⟨_, hts, .literal hv⟩
termination_by 5 * ts.length

theorem arguments_sound (ts : List Token) (h : Yields (arguments ts) args rest) :
    ∃ ks, Spells ts ks rest ∧ IsArguments (.sign .openParen :: ks) args := by
  obtain ⟨hs, rfl⟩ | ⟨-, e, mid, es, he, htail, rfl⟩ := yields_arguments.mp h
  · exact ⟨[.sign .closeParen], hs, .none⟩
  · have hmid := he.fewer
    obtain ⟨ks, hks, he'⟩ := expr_sound ts he
    obtain ⟨ls, hls, hes⟩ := argumentsTail_sound mid htail he'
    refine ⟨(ks ++ ls) ++ [.sign .closeParen], ?_, .some hes⟩
    rw [List.append_assoc]
    exact hks.trans hls
termination_by 5 * ts.length + 4

/-- The tail ends with the closing parenthesis and goes on with the expression in front of it. -/
theorem argumentsTail_sound (ts : List Token) (h : Yields (argumentsTail ts) es rest)
    (he : IsExpr ks e) :
    ∃ ls, Spells ts (ls ++ [.sign .closeParen]) rest ∧ IsExprs (ks ++ ls) (e :: es) := by
  obtain ⟨next, e', mid, es', hts, he', htail, rfl⟩ | ⟨hs, rfl⟩ := yields_argumentsTail.mp h
  · have hnext := hts.fewer
    have hmid := he'.fewer
    obtain ⟨ks', hks', hexpr⟩ := expr_sound next he'
    obtain ⟨ls, hls, hes⟩ := argumentsTail_sound mid htail hexpr
    refine ⟨.sign .comma :: (ks' ++ ls), ?_, .more he hes⟩
    rw [List.cons_append, List.append_assoc]
    exact hts.trans (hks'.trans hls)
  · refine ⟨[], hs, ?_⟩
    rw [List.append_nil]
    exact .one he
termination_by 5 * ts.length

end

-- ---------------------------------------------------------------------------
-- Where a phrase ends
-- ---------------------------------------------------------------------------

/-- How tightly a token binds what stands in front of it: an operator by its level, a
parenthesis behind a name most of all. -/
def binding : Kind → Nat
  | .sign .openParen => 4
  | k =>
    if (multiplicative? k).isSome then 3
    else if (additive? k).isSome then 2
    else if (relation? k).isSome then 1
    else 0

/-- What follows binds less than the level `n`, so a phrase of that level ends in front of it. -/
def Below (n : Nat) (ts : List Token) : Prop :=
  Ahead (binding · < n) ts

theorem Below.mono (h : Below m ts) (hmn : m ≤ n) : Below n ts :=
  Ahead.mono h fun _ hk => Nat.lt_of_lt_of_le hk hmn

theorem Grammar.RelationToken.binding (h : RelationToken k op) : binding k = 1 := by
  cases h <;> rfl

theorem Grammar.AdditiveToken.binding (h : AdditiveToken k op) : binding k = 2 := by
  cases h <;> rfl

theorem Grammar.MultiplicativeToken.binding (h : MultiplicativeToken k op) : binding k = 3 := by
  cases h <;> rfl

theorem Below.relation (h : Below 1 ts) : Ahead (relation? · = none) ts := by
  refine Ahead.mono h fun k hk => Option.eq_none_iff_forall_ne_some.mpr fun op hop => ?_
  have := (relation?_eq_some.mp hop).binding
  omega

theorem Below.additive (h : Below 2 ts) : Ahead (additive? · = none) ts := by
  refine Ahead.mono h fun k hk => Option.eq_none_iff_forall_ne_some.mpr fun op hop => ?_
  have := (additive?_eq_some.mp hop).binding
  omega

theorem Below.multiplicative (h : Below 3 ts) : Ahead (multiplicative? · = none) ts := by
  refine Ahead.mono h fun k hk => Option.eq_none_iff_forall_ne_some.mpr fun op hop => ?_
  have := (multiplicative?_eq_some.mp hop).binding
  omega

theorem Below.openParen (h : Below 4 ts) : Ahead (· ≠ .sign .openParen) ts := by
  refine Ahead.mono h ?_
  rintro _ hk rfl
  simp [binding] at hk

theorem below_of_spells (h : Spells ts (k :: ks) rest) (hk : binding k < n) : Below n ts :=
  ahead_of_spells h hk

theorem additiveTail_stops (h : Below 2 ts) : Yields (additiveTail e ts) e ts :=
  yields_additiveTail.mpr (.inr ⟨h.additive, rfl, rfl⟩)

theorem multiplicativeTail_stops (h : Below 3 ts) : Yields (multiplicativeTail e ts) e ts :=
  yields_multiplicativeTail.mpr (.inr ⟨h.multiplicative, rfl, rfl⟩)

-- ---------------------------------------------------------------------------
-- The rules read everything in the grammar
-- ---------------------------------------------------------------------------

theorem negate_of_ne_int (h : ∀ v, e ≠ .int v) : negate e = .binary .sub (.int 0) e := by
  unfold negate
  split
  · exact absurd rfl (h _)
  · rfl

theorem factor_ahead (h : Yields (factor ts) e rest) : Ahead (· ≠ .sign .closeParen) ts := by
  have hhead : ∃ k mid ks, Spells ts (k :: ks) mid ∧ k ≠ .sign .closeParen := by
    cases factorRead_of_yields h with
    | call hts => exact ⟨_, _, _, hts, nofun⟩
    | name hts => exact ⟨_, _, _, hts, nofun⟩
    | parens hts => exact ⟨_, _, _, hts, nofun⟩
    | minus hts => exact ⟨_, _, _, hts, nofun⟩
    | literal hts hv =>
      refine ⟨_, _, _, hts, ?_⟩
      rintro rfl
      cases hv
  obtain ⟨_, mid, ks, hts, hne⟩ := hhead
  exact ahead_of_spells hts hne

theorem expr_ahead (h : Yields (expr ts) e rest) : Ahead (· ≠ .sign .closeParen) ts := by
  obtain ⟨_, _, h, -⟩ := yields_expr.mp h
  obtain ⟨_, _, h, -⟩ := yields_additive.mp h
  obtain ⟨_, _, h, -⟩ := yields_multiplicative.mp h
  exact factor_ahead h

-- Sums and products are left recursive in the grammar, while the rules read their operands one
-- after the other. So what is shown for them is that reading may go on with the tail behind them.
mutual

theorem expr_complete (h : IsExpr ks e) (hs : Spells ts ks rest) (hb : Below 1 rest) :
    Yields (expr ts) e rest := by
  have hb₂ : Below 2 rest := hb.mono (by decide)
  have hb₃ : Below 3 rest := hb.mono (by decide)
  cases h with
  | additive h =>
    have hsum := additive_continue h hs hb₃ (additiveTail_stops hb₂)
    exact yields_expr.mpr ⟨e, rest, hsum, .inr ⟨hb.relation, rfl, rfl⟩⟩
  | relation hl hk hr =>
    obtain ⟨mid, hls, hmid⟩ := spells_append.mp hs
    obtain ⟨next, hop, hrs⟩ := spells_head.mp hmid
    have hb' : Below 2 mid := below_of_spells hop (by simp [hk.binding])
    have hleft := additive_continue hl hls (hb'.mono (by decide)) (additiveTail_stops hb')
    have hright := additive_continue hr hrs hb₃ (additiveTail_stops hb₂)
    exact yields_expr.mpr ⟨_, mid, hleft, .inl ⟨_, _, next, _, hop, hk, hright, rfl⟩⟩
termination_by 5 * ks.length + 3

theorem additive_continue (h : IsAdditive ks l) (hs : Spells ts ks mid) (hb : Below 3 mid)
    (htail : Yields (additiveTail l mid) e rest) : Yields (additive ts) e rest := by
  have hb₄ : Below 4 mid := hb.mono (by decide)
  cases h with
  | multiplicative h =>
    have hl := multiplicative_continue h hs hb₄ (multiplicativeTail_stops hb)
    exact yields_additive.mpr ⟨l, mid, hl, htail⟩
  | more hl hk hr =>
    obtain ⟨mid', hls, hmid'⟩ := spells_append.mp hs
    obtain ⟨next, hop, hrs⟩ := spells_head.mp hmid'
    have hright := multiplicative_continue hr hrs hb₄ (multiplicativeTail_stops hb)
    refine additive_continue hl hls (below_of_spells hop (by simp [hk.binding])) ?_
    exact yields_additiveTail.mpr (.inl ⟨_, _, next, _, mid, hop, hk, hright, htail⟩)
termination_by 5 * ks.length + 2

theorem multiplicative_continue (h : IsMultiplicative ks l) (hs : Spells ts ks mid)
    (hb : Below 4 mid) (htail : Yields (multiplicativeTail l mid) e rest) :
    Yields (multiplicative ts) e rest := by
  cases h with
  | factor h => exact yields_multiplicative.mpr ⟨l, mid, factor_complete h hs hb, htail⟩
  | more hl hk hr =>
    obtain ⟨mid', hls, hmid'⟩ := spells_append.mp hs
    obtain ⟨next, hop, hrs⟩ := spells_head.mp hmid'
    have hright := factor_complete hr hrs hb
    refine multiplicative_continue hl hls (below_of_spells hop (by simp [hk.binding])) ?_
    exact yields_multiplicativeTail.mpr (.inl ⟨_, _, next, _, mid, hop, hk, hright, htail⟩)
termination_by 5 * ks.length + 1

theorem factor_complete (h : IsFactor ks e) (hs : Spells ts ks rest) (hb : Below 4 rest) :
    Yields (factor ts) e rest := by
  apply FactorRead.yields
  cases h with
  | literal hv => exact .literal hs hv
  | name => exact .name hs hb.openParen
  | call hargs =>
    obtain ⟨mid, hf, hmid⟩ := spells_head.mp hs
    obtain ⟨next, hparen, hnext⟩ := arguments_complete hargs hmid
    exact .call (hf.trans hparen) hnext
  | parens he =>
    obtain ⟨next, hopen, hnext⟩ := spells_head.mp hs
    obtain ⟨mid, hmid, hclose⟩ := spells_append.mp hnext
    exact .parens hopen (expr_complete he hmid (below_of_spells hclose (by decide))) hclose
  | negative h =>
    obtain ⟨next, hminus, hnext⟩ := spells_head.mp hs
    exact .minus hminus (factor_complete h hnext hb)
  | minus h hne =>
    obtain ⟨next, hminus, hnext⟩ := spells_head.mp hs
    rw [← negate_of_ne_int hne]
    exact .minus hminus (factor_complete h hnext hb)
termination_by 5 * ks.length

theorem arguments_complete (h : IsArguments ks args) (hs : Spells ts ks rest) :
    ∃ next, Spells ts [.sign .openParen] next ∧ Yields (arguments next) args rest := by
  cases h with
  | none =>
    obtain ⟨next, hopen, hclose⟩ := spells_head.mp hs
    exact ⟨next, hopen, yields_arguments.mpr (.inl ⟨hclose, rfl⟩)⟩
  | some hes =>
    obtain ⟨next, hopen, hnext⟩ := spells_head.mp hs
    obtain ⟨mid, hmid, hclose⟩ := spells_append.mp hnext
    obtain ⟨e, es, mid', he, htail, hargs⟩ := exprs_complete hes hmid hclose
    exact ⟨next, hopen, yields_arguments.mpr (.inr ⟨expr_ahead he, e, mid', es, he, htail, hargs⟩)⟩
termination_by 5 * ks.length

theorem exprs_complete (h : IsExprs ks args) (hs : Spells ts ks mid)
    (hclose : Spells mid [.sign .closeParen] rest) :
    ∃ e es next, Yields (expr ts) e next ∧ Yields (argumentsTail next) es rest ∧
      e :: es = args := by
  cases h with
  | one he =>
    have hfirst := expr_complete he hs (below_of_spells hclose (by decide))
    exact ⟨_, [], mid, hfirst, yields_argumentsTail.mpr (.inr ⟨hclose, rfl⟩), rfl⟩
  | more he hes =>
    obtain ⟨mid', hks, hmid'⟩ := spells_append.mp hs
    obtain ⟨next, hcomma, hls⟩ := spells_head.mp hmid'
    have hfirst := expr_complete he hks (below_of_spells hcomma (by decide))
    obtain ⟨e, es, _, he', htail, rfl⟩ := exprs_complete hes hls hclose
    have hmore := yields_argumentsTail.mpr (.inl ⟨next, e, _, es, hcomma, he', htail, rfl⟩)
    exact ⟨_, e :: es, mid', hfirst, hmore, rfl⟩
termination_by 5 * ks.length + 4

end

end Cartridge.Pascal
