import Cartridge.Proofs.Pascal.Statements

/-!
# Where reading stops

A rule that stops at a token has read the beginning of a phrase: what it took in
front of that token can be completed to an expression, a statement or a block.
An open parenthesis, a condition without its branch, a name without its value
all have a completion, so nothing was read after which no phrase is possible.
-/

namespace Cartridge.Pascal

open Grammar

-- ---------------------------------------------------------------------------
-- Rules that stop
-- ---------------------------------------------------------------------------

/-- A rule stopped in front of `rest`, where it looked for something else. -/
def StopsAt (r : Except Fault α) (rest : List Token) : Prop :=
  ∃ what, r = .error (.expected what rest)

@[simp] theorem stopsAt_ok {a : α} : StopsAt (.ok a : Except Fault α) rest ↔ False :=
  ⟨fun ⟨_, h⟩ => (nomatch h), False.elim⟩

@[simp] theorem stopsAt_pure {a : α} : StopsAt (pure a : Except Fault α) rest ↔ False :=
  stopsAt_ok

@[simp] theorem stopsAt_error {e : Fault} :
    StopsAt (.error e : Except Fault α) rest ↔ ∃ what, e = .expected what rest := by
  simp [StopsAt]

/-- Rules one after the other: the first stops, or the second stops in what the first left. -/
@[simp] theorem stopsAt_bind {x : Except Fault (Parsed Token α bound)}
    {f : Parsed Token α bound → Except Fault β} :
    StopsAt (x >>= f) rest ↔
      StopsAt x rest ∨ ∃ a mid, ∃ hx : Yields x a mid, StopsAt (f ⟨a, mid, hx.fewer⟩) rest := by
  cases x with
  | error e =>
    constructor
    · exact fun h => .inl (stopsAt_error.mpr (stopsAt_error.mp h))
    · rintro (hx | ⟨_, _, hx, -⟩)
      · exact stopsAt_error.mpr (stopsAt_error.mp hx)
      · exact (yields_error.mp hx).elim
  | ok p =>
    obtain ⟨a, mid, h⟩ := p
    constructor
    · exact fun hf => .inr ⟨a, mid, ⟨h, rfl⟩, hf⟩
    · rintro (hx | ⟨_, _, ⟨_, he⟩, hf⟩)
      · exact (stopsAt_ok.mp hx).elim
      · cases he
        exact hf

@[simp] theorem stopsAt_map {x : Except Fault (Parsed Token α bound)}
    {f : Parsed Token α bound → β} : StopsAt (f <$> x) rest ↔ StopsAt x rest := by
  cases x <;> simp [Functor.map, Except.map]

@[simp] theorem stopsAt_token :
    StopsAt (token k ts) rest ↔ Ahead (· ≠ k) ts ∧ ts = rest := by
  unfold token
  split
  · simp
  · next t ts =>
    split
    · next hk => simp [hk]
    · next hk => simp [hk]

@[simp] theorem stopsAt_sign :
    StopsAt (sign s ts) rest ↔ Ahead (· ≠ .sign s) ts ∧ ts = rest :=
  stopsAt_token

@[simp] theorem stopsAt_keyword :
    StopsAt (keyword k ts) rest ↔ Ahead (· ≠ .keyword k) ts ∧ ts = rest :=
  stopsAt_token

@[simp] theorem stopsAt_identifier :
    StopsAt (identifier ts) rest ↔ ¬ startsWithIdentifier ts ∧ ts = rest := by
  unfold identifier startsWithIdentifier
  split <;> simp

-- ---------------------------------------------------------------------------
-- Beginnings of phrases
-- ---------------------------------------------------------------------------

/-- What stands before `rest` can be completed to a phrase. -/
def Begins (P : List Kind → Prop) (ts rest : List Token) : Prop :=
  ∃ ks more, Spells ts ks rest ∧ P (ks ++ more)

theorem Begins.after (hs : Spells ts ks rest) (more : List Kind) (h : P (ks ++ more)) :
    Begins P ts rest :=
  ⟨ks, more, hs, h⟩

/-- Nothing was read yet. -/
theorem Begins.here (h : P ks) : Begins P ts ts :=
  .after (spells_nil.mpr rfl) _ h

/-- A part of the phrase was begun behind the kinds `ks`, and `more` completes the phrase. -/
theorem Begins.within (h : Begins Q mid rest) (hs : Spells ts ks mid) (more : List Kind)
    (hP : ∀ ls, Q ls → P (ks ++ ls ++ more)) : Begins P ts rest := by
  obtain ⟨ls, more', hls, hQ⟩ := h
  exact ⟨ks ++ ls, more' ++ more, hs.trans hls, by simpa using hP _ hQ⟩

/-- The last part of the phrase was begun. -/
theorem Begins.behind (h : Begins Q mid rest) (hs : Spells ts ks mid)
    (hP : ∀ ls, Q ls → P (ks ++ ls)) : Begins P ts rest :=
  h.within hs [] fun ls hls => by simpa using hP ls hls

theorem Begins.mono (h : Begins Q ts rest) (hP : ∀ ls, Q ls → P ls) : Begins P ts rest :=
  h.behind (spells_nil.mpr rfl) hP

-- ---------------------------------------------------------------------------
-- Where one rule for expressions stops, in terms of the rules it calls
-- ---------------------------------------------------------------------------

theorem stopsAt_expr (h : StopsAt (expr ts) rest) :
    StopsAt (additive ts) rest ∨ ∃ l mid k op next, Yields (additive ts) l mid ∧
      Spells mid [k] next ∧ RelationToken k op ∧ StopsAt (additive next) rest := by
  rw [expr] at h
  obtain h | ⟨l, mid, hl, h⟩ := stopsAt_bind.mp h
  · exact .inl h
  · right
    cases mid with
    | nil => simp [Parsed.uncons?] at h
    | cons t mid =>
      cases hop : relation? t.kind with
      | none => simp [Parsed.uncons?, hop] at h
      | some op =>
        simp only [Parsed.uncons?, hop, stopsAt_bind, stopsAt_pure, exists_false, or_false] at h
        exact ⟨l, _, _, op, mid, hl, by simp, relation?_eq_some.mp hop, h⟩

theorem stopsAt_additive (h : StopsAt (additive ts) rest) :
    StopsAt (multiplicative ts) rest ∨ ∃ l mid, Yields (multiplicative ts) l mid ∧
      StopsAt (additiveTail l mid) rest := by
  rw [additive] at h
  simpa using h

theorem stopsAt_additiveTail (h : StopsAt (additiveTail l ts) rest) :
    ∃ k op next, Spells ts [k] next ∧ AdditiveToken k op ∧
      (StopsAt (multiplicative next) rest ∨ ∃ r mid, Yields (multiplicative next) r mid ∧
        StopsAt (additiveTail (.binary op l r) mid) rest) := by
  cases ts with
  | nil => simp [additiveTail] at h
  | cons t ts =>
    cases hop : additive? t.kind with
    | none => simp [additiveTail, hop] at h
    | some op =>
      refine ⟨_, op, ts, by simp, additive?_eq_some.mp hop, ?_⟩
      simpa [additiveTail, hop] using h

theorem stopsAt_multiplicative (h : StopsAt (multiplicative ts) rest) :
    StopsAt (factor ts) rest ∨ ∃ l mid, Yields (factor ts) l mid ∧
      StopsAt (multiplicativeTail l mid) rest := by
  rw [multiplicative] at h
  simpa using h

theorem stopsAt_multiplicativeTail (h : StopsAt (multiplicativeTail l ts) rest) :
    ∃ k op next, Spells ts [k] next ∧ MultiplicativeToken k op ∧
      (StopsAt (factor next) rest ∨ ∃ r mid, Yields (factor next) r mid ∧
        StopsAt (multiplicativeTail (.binary op l r) mid) rest) := by
  cases ts with
  | nil => simp [multiplicativeTail] at h
  | cons t ts =>
    cases hop : multiplicative? t.kind with
    | none => simp [multiplicativeTail, hop] at h
    | some op =>
      refine ⟨_, op, ts, by simp, multiplicative?_eq_some.mp hop, ?_⟩
      simpa [multiplicativeTail, hop] using h

/-- Where a factor stopped, told by the tokens that it starts with. -/
inductive FactorStop (ts rest : List Token) : Prop
  | call : Spells ts [.ident f, .sign .openParen] next → StopsAt (arguments next) rest →
      FactorStop ts rest
  | parens : Spells ts [.sign .openParen] next → StopsAt (expr next) rest → FactorStop ts rest
  /-- The closing parenthesis is missing. -/
  | unclosed : Spells ts [.sign .openParen] next → Yields (expr next) e rest → FactorStop ts rest
  | minus : Spells ts [.sign .minus] next → StopsAt (factor next) rest → FactorStop ts rest
  /-- No factor starts so. -/
  | start : ts = rest → FactorStop ts rest

theorem factorStop_of_stopsAt (h : StopsAt (factor ts) rest) : FactorStop ts rest := by
  rw [factor.eq_def] at h
  split at h
  · next next =>
    have hargs : StopsAt (arguments next) rest := by simpa using h
    exact .call (spells_cons_cons.mpr ⟨rfl, by simp⟩) hargs
  · simp at h
  · obtain h | ⟨e, mid, he, h⟩ := stopsAt_bind.mp h
    · exact .parens (by simp) h
    · simp only [stopsAt_bind, stopsAt_sign, stopsAt_pure, exists_false, or_false] at h
      obtain ⟨-, rfl⟩ := h
      exact .unclosed (by simp) he
  · next next =>
    have hfactor : StopsAt (factor next) rest := by simpa using h
    exact .minus (by simp) hfactor
  · exact .start (by simpa using h)
  · split at h
    · simp at h
    · exact .start (by simpa using h)

theorem stopsAt_arguments (h : StopsAt (arguments ts) rest) :
    StopsAt (expr ts) rest ∨ ∃ e mid, Yields (expr ts) e mid ∧
      StopsAt (argumentsTail mid) rest := by
  rw [arguments.eq_def] at h
  split at h
  · simp at h
  · simpa using h

theorem stopsAt_argumentsTail (h : StopsAt (argumentsTail ts) rest) :
    (∃ next, Spells ts [.sign .comma] next ∧ (StopsAt (expr next) rest ∨
      ∃ e mid, Yields (expr next) e mid ∧ StopsAt (argumentsTail mid) rest)) ∨ ts = rest := by
  rw [argumentsTail.eq_def] at h
  split at h
  · next next => exact .inl ⟨next, by simp, by simpa using h⟩
  · simp only [stopsAt_bind, stopsAt_sign, stopsAt_pure, exists_false, or_false] at h
    exact .inr h.2

-- ---------------------------------------------------------------------------
-- Expressions
-- ---------------------------------------------------------------------------

mutual

theorem expr_begins (ts : List Token) (h : StopsAt (expr ts) rest) :
    Begins (∃ e, IsExpr · e) ts rest := by
  obtain h | ⟨l, mid, k, op, next, hl, hop, hk, hr⟩ := stopsAt_expr h
  · exact (additive_begins ts h).mono fun _ ⟨e, he⟩ => ⟨e, .additive he⟩
  · have hmid := hl.fewer
    have hnext := hop.fewer
    obtain ⟨ks, hks, hl'⟩ := additive_sound ts hl
    refine (additive_begins next hr).behind (hks.trans hop) fun rs ⟨r, hr'⟩ => ?_
    rw [List.append_assoc]
    exact ⟨_, .relation hl' hk hr'⟩
termination_by 5 * ts.length + 3

theorem additive_begins (ts : List Token) (h : StopsAt (additive ts) rest) :
    Begins (∃ e, IsAdditive · e) ts rest := by
  obtain h | ⟨l, mid, hl, htail⟩ := stopsAt_additive h
  · exact (multiplicative_begins ts h).mono fun _ ⟨e, he⟩ => ⟨e, .multiplicative he⟩
  · obtain ⟨ks, hks, hl'⟩ := multiplicative_sound ts hl
    have hmid := hl.fewer
    exact additiveTail_begins mid htail hks (.multiplicative hl')
termination_by 5 * ts.length + 2

/-- The tail goes on with the sum in front of it. -/
theorem additiveTail_begins (ts : List Token) (h : StopsAt (additiveTail l ts) rest)
    (hls : Spells front ls ts) (hl : IsAdditive ls l) :
    Begins (∃ e, IsAdditive · e) front rest := by
  obtain ⟨k, op, next, hop, hk, hr | ⟨r, mid, hr, htail⟩⟩ := stopsAt_additiveTail h
  · have hnext := hop.fewer
    refine (multiplicative_begins next hr).behind (hls.trans hop) fun rs ⟨r, hr'⟩ => ?_
    rw [List.append_assoc]
    exact ⟨_, .more hl hk hr'⟩
  · have hnext := hop.fewer
    have hmid := hr.fewer
    obtain ⟨rs, hrs, hr'⟩ := multiplicative_sound next hr
    exact additiveTail_begins mid htail (hls.trans (hop.trans hrs)) (.more hl hk hr')
termination_by 5 * ts.length

theorem multiplicative_begins (ts : List Token) (h : StopsAt (multiplicative ts) rest) :
    Begins (∃ e, IsMultiplicative · e) ts rest := by
  obtain h | ⟨l, mid, hl, htail⟩ := stopsAt_multiplicative h
  · exact (factor_begins ts h).mono fun _ ⟨e, he⟩ => ⟨e, .factor he⟩
  · obtain ⟨ks, hks, hl'⟩ := factor_sound ts hl
    have hmid := hl.fewer
    exact multiplicativeTail_begins mid htail hks (.factor hl')
termination_by 5 * ts.length + 1

/-- The tail goes on with the product in front of it. -/
theorem multiplicativeTail_begins (ts : List Token) (h : StopsAt (multiplicativeTail l ts) rest)
    (hls : Spells front ls ts) (hl : IsMultiplicative ls l) :
    Begins (∃ e, IsMultiplicative · e) front rest := by
  obtain ⟨k, op, next, hop, hk, hr | ⟨r, mid, hr, htail⟩⟩ := stopsAt_multiplicativeTail h
  · have hnext := hop.fewer
    refine (factor_begins next hr).behind (hls.trans hop) fun rs ⟨r, hr'⟩ => ?_
    rw [List.append_assoc]
    exact ⟨_, .more hl hk hr'⟩
  · have hnext := hop.fewer
    have hmid := hr.fewer
    obtain ⟨rs, hrs, hr'⟩ := factor_sound next hr
    exact multiplicativeTail_begins mid htail (hls.trans (hop.trans hrs)) (.more hl hk hr')
termination_by 5 * ts.length

theorem factor_begins (ts : List Token) (h : StopsAt (factor ts) rest) :
    Begins (∃ e, IsFactor · e) ts rest := by
  cases factorStop_of_stopsAt h with
  | call hts hargs =>
    have hnext := hts.fewer
    exact (arguments_begins _ hargs).behind hts fun ls ⟨args, hargs'⟩ => ⟨_, .call hargs'⟩
  | parens hts he =>
    have hnext := hts.fewer
    exact (expr_begins _ he).within hts [.sign .closeParen] fun ls ⟨e, he'⟩ => ⟨e, .parens he'⟩
  | unclosed hts he =>
    obtain ⟨ks, hks, he'⟩ := expr_sound _ he
    exact .after (hts.trans hks) [.sign .closeParen] ⟨_, .parens he'⟩
  | minus hts he =>
    have hnext := hts.fewer
    exact (factor_begins _ he).behind hts fun ls ⟨e, he'⟩ => ⟨_, isFactor_negate he'⟩
  | start hts =>
    subst hts
    exact .here ⟨_, .literal (.int (v := 0))⟩
termination_by 5 * ts.length

theorem arguments_begins (ts : List Token) (h : StopsAt (arguments ts) rest) :
    Begins (fun ks => ∃ args, IsArguments (.sign .openParen :: ks) args) ts rest := by
  obtain h | ⟨e, mid, he, htail⟩ := stopsAt_arguments h
  · refine (expr_begins ts h).within (spells_nil.mpr rfl) [.sign .closeParen] fun ls ⟨e, he⟩ => ?_
    exact ⟨[e], .some (.one he)⟩
  · have hmid := he.fewer
    obtain ⟨ks, hks, he'⟩ := expr_sound ts he
    refine (argumentsTail_begins mid htail).behind hks ?_
    rintro _ ⟨ls, rfl, hls⟩
    obtain ⟨es, hes⟩ := hls ks e he'
    refine ⟨es, ?_⟩
    rw [← List.append_assoc]
    exact .some hes
termination_by 5 * ts.length + 4

/-- What may follow the first argument, whichever that is. -/
theorem argumentsTail_begins (ts : List Token) (h : StopsAt (argumentsTail ts) rest) :
    Begins (fun tail => ∃ ls, tail = ls ++ [.sign .closeParen] ∧
      ∀ ks e, IsExpr ks e → ∃ es, IsExprs (ks ++ ls) es) ts rest := by
  obtain ⟨next, hcomma, he | ⟨e, mid, he, htail⟩⟩ | rfl := stopsAt_argumentsTail h
  · have hnext := hcomma.fewer
    refine (expr_begins next he).within hcomma [.sign .closeParen] fun ls ⟨e, he'⟩ => ?_
    exact ⟨_, rfl, fun ks e₀ he₀ => ⟨_, .more he₀ (.one he')⟩⟩
  · have hnext := hcomma.fewer
    have hmid := he.fewer
    obtain ⟨ks, hks, he'⟩ := expr_sound next he
    refine (argumentsTail_begins mid htail).behind (hcomma.trans hks) ?_
    rintro _ ⟨ls, rfl, hls⟩
    obtain ⟨es, hes⟩ := hls ks e he'
    refine ⟨.sign .comma :: (ks ++ ls), by simp, fun ks₀ e₀ he₀ => ⟨_, .more he₀ hes⟩⟩
  · refine .here ⟨[], rfl, fun ks e he => ⟨[e], ?_⟩⟩
    rw [List.append_nil]
    exact .one he
termination_by 5 * ts.length

end

-- ---------------------------------------------------------------------------
-- Where one rule for statements stops, in terms of the rules it calls
-- ---------------------------------------------------------------------------

/-- Where a statement stopped, told by the tokens that it starts with. -/
inductive StatementStop (ts rest : List Token) : Prop
  | assign : Spells ts [.ident x, .sign .assign] next → StopsAt (expr next) rest →
      StatementStop ts rest
  | callWith : Spells ts [.ident f, .sign .openParen] next → StopsAt (arguments next) rest →
      StatementStop ts rest
  | body : Spells ts [.keyword .begin] next → StopsAt (statements next) rest →
      StatementStop ts rest
  /-- The block is not closed. -/
  | unclosed : Spells ts [.keyword .begin] next → Yields (statements next) ss rest →
      StatementStop ts rest
  | condition : Spells ts [.keyword .if_] next → StopsAt (expr next) rest → StatementStop ts rest
  /-- There is no `then`. -/
  | noThen : Spells ts [.keyword .if_] next → Yields (expr next) c rest → StatementStop ts rest
  | yes : Spells ts [.keyword .if_] next → Yields (expr next) c mid →
      Spells mid [.keyword .then_] branch → StopsAt (statement branch) rest → StatementStop ts rest
  | no : Spells ts [.keyword .if_] next → Yields (expr next) c mid →
      Spells mid [.keyword .then_] branch → Yields (statement branch) s mid' →
      Spells mid' [.keyword .else_] other → StopsAt (statement other) rest → StatementStop ts rest
  | guard : Spells ts [.keyword .while] next → StopsAt (expr next) rest → StatementStop ts rest
  /-- There is no `do`. -/
  | noDo : Spells ts [.keyword .while] next → Yields (expr next) c rest → StatementStop ts rest
  | loop : Spells ts [.keyword .while] next → Yields (expr next) c mid →
      Spells mid [.keyword .do_] branch → StopsAt (statement branch) rest → StatementStop ts rest
  /-- No statement starts so. -/
  | start : ts = rest → StatementStop ts rest

theorem statementStop_of_stopsAt (h : StopsAt (statement ts) rest) : StatementStop ts rest := by
  rw [statement.eq_def] at h
  split at h
  · next next =>
    have he : StopsAt (expr next) rest := by simpa using h
    exact .assign (spells_cons_cons.mpr ⟨rfl, by simp⟩) he
  · next next =>
    have hargs : StopsAt (arguments next) rest := by simpa using h
    exact .callWith (spells_cons_cons.mpr ⟨rfl, by simp⟩) hargs
  · simp at h
  · obtain h | ⟨ss, mid, hss, h⟩ := stopsAt_bind.mp h
    · exact .body (by simp) h
    · simp only [stopsAt_bind, stopsAt_keyword, stopsAt_pure, exists_false, or_false] at h
      obtain ⟨-, rfl⟩ := h
      exact .unclosed (by simp) hss
  · obtain h | ⟨c, mid, hc, h⟩ := stopsAt_bind.mp h
    · exact .condition (by simp) h
    obtain h | ⟨_, branch, hthen, h⟩ := stopsAt_bind.mp h
    · obtain ⟨-, rfl⟩ := stopsAt_keyword.mp h
      exact .noThen (by simp) hc
    rw [yields_keyword] at hthen
    obtain h | ⟨s, mid', hs, h⟩ := stopsAt_bind.mp h
    · exact .yes (by simp) hc hthen h
    split at h
    · next helse =>
      cases mid' with
      | nil => cases helse
      | cons t mid' =>
        cases helse
        have hno : StopsAt (statement mid') rest := by simpa using h
        exact .no (by simp) hc hthen hs (by simp) hno
    · simp at h
  · obtain h | ⟨c, mid, hc, h⟩ := stopsAt_bind.mp h
    · exact .guard (by simp) h
    obtain h | ⟨_, branch, hdo, h⟩ := stopsAt_bind.mp h
    · obtain ⟨-, rfl⟩ := stopsAt_keyword.mp h
      exact .noDo (by simp) hc
    rw [yields_keyword] at hdo
    have hbody : StopsAt (statement branch) rest := by simpa using h
    exact .loop (by simp) hc hdo hbody
  · exact .start (by simpa using h)
  · split at h
    · simp at h
    · exact .start (by simpa using h)

theorem stopsAt_statements (h : StopsAt (statements ts) rest) :
    StopsAt (statement ts) rest ∨ ∃ s mid, Yields (statement ts) s mid ∧
      StopsAt (statementsTail mid) rest := by
  rw [statements] at h
  simpa using h

theorem stopsAt_statementsTail (h : StopsAt (statementsTail ts) rest) :
    ∃ next, Spells ts [.sign .semicolon] next ∧ (StopsAt (statement next) rest ∨
      ∃ s mid, Yields (statement next) s mid ∧ StopsAt (statementsTail mid) rest) := by
  rw [statementsTail.eq_def] at h
  split at h
  · next next => exact ⟨next, by simp, by simpa using h⟩
  · simp at h

theorem stopsAt_block (h : StopsAt (block ts) rest) :
    ts = rest ∨ ∃ next, Spells ts [.keyword .begin] next ∧
      (StopsAt (statements next) rest ∨ ∃ ss, Yields (statements next) ss rest) := by
  rw [block] at h
  obtain h | ⟨_, next, hbegin, h⟩ := stopsAt_bind.mp h
  · exact .inl (stopsAt_keyword.mp h).2
  refine .inr ⟨next, yields_keyword.mp hbegin, ?_⟩
  obtain h | ⟨ss, mid, hss, h⟩ := stopsAt_bind.mp h
  · exact .inl h
  · simp only [stopsAt_bind, stopsAt_keyword, stopsAt_pure, exists_false, or_false] at h
    obtain ⟨-, rfl⟩ := h
    exact .inr ⟨ss, hss⟩

-- ---------------------------------------------------------------------------
-- Statements
-- ---------------------------------------------------------------------------

mutual

theorem statement_begins (ts : List Token) (h : StopsAt (statement ts) rest) :
    Begins (∃ dangling s, IsStatement dangling · s) ts rest := by
  cases statementStop_of_stopsAt h with
  | assign hts he =>
    exact (expr_begins _ he).behind hts fun _ ⟨e, he'⟩ => ⟨false, _, .assign he'⟩
  | callWith hts hargs =>
    exact (arguments_begins _ hargs).behind hts fun _ ⟨args, hargs'⟩ =>
      ⟨false, _, .callWith hargs'⟩
  | body hts hss =>
    have hnext := hts.fewer
    exact (statements_begins _ hss).within hts [.keyword .end_] fun _ ⟨ss, hss'⟩ =>
      ⟨false, _, .block (.intro hss')⟩
  | unclosed hts hss =>
    obtain ⟨ks, hks, hss'⟩ := statements_sound _ hss
    exact .after (hts.trans hks) [.keyword .end_] ⟨false, _, .block (.intro hss')⟩
  | condition hts hc =>
    refine (expr_begins _ hc).within hts [.keyword .then_] fun _ ⟨c, hc'⟩ => ?_
    exact ⟨true, _, .ifThen hc' .empty .empty⟩
  | noThen hts hc =>
    obtain ⟨cs, hcs, hc'⟩ := expr_sound _ hc
    exact .after (hts.trans hcs) [.keyword .then_] ⟨true, _, .ifThen hc' .empty .empty⟩
  | yes hts hc hthen hs =>
    have hnext := hts.fewer
    have hmid := hc.fewer
    have hbranch := hthen.fewer
    obtain ⟨cs, hcs, hc'⟩ := expr_sound _ hc
    refine (statement_begins _ hs).behind (hts.trans (hcs.trans hthen)) fun _ ⟨_, s, hs'⟩ => ?_
    exact ⟨true, _, by simpa using .ifThen hc' hs' (isBranch_iff.mpr rfl)⟩
  | no hts hc hthen hs helse hs' =>
    have hnext := hts.fewer
    have hmid := hc.fewer
    have hbranch := hthen.fewer
    have hmid' := hs.fewer
    have hother := helse.fewer
    obtain ⟨cs, hcs, hc'⟩ := expr_sound _ hc
    obtain ⟨ks, dangling, hks, hyes, hahead⟩ := statement_sound _ hs
    obtain rfl := eq_false_of_else hahead helse
    refine (statement_begins _ hs').behind
      (hts.trans (hcs.trans (hthen.trans (hks.trans helse)))) fun _ ⟨dangling, s', hno⟩ => ?_
    exact ⟨dangling, _, by
      simpa using .ifElse hc' hyes (isBranch_iff.mpr rfl) hno (isBranch_iff.mpr rfl)⟩
  | guard hts hc =>
    refine (expr_begins _ hc).within hts [.keyword .do_] fun _ ⟨c, hc'⟩ => ?_
    exact ⟨false, _, .loop hc' .empty .empty⟩
  | noDo hts hc =>
    obtain ⟨cs, hcs, hc'⟩ := expr_sound _ hc
    exact .after (hts.trans hcs) [.keyword .do_] ⟨false, _, .loop hc' .empty .empty⟩
  | loop hts hc hdo hs =>
    have hnext := hts.fewer
    have hmid := hc.fewer
    have hbranch := hdo.fewer
    obtain ⟨cs, hcs, hc'⟩ := expr_sound _ hc
    refine (statement_begins _ hs).behind (hts.trans (hcs.trans hdo)) fun _ ⟨d, s, hs'⟩ => ?_
    exact ⟨d, _, by simpa using .loop hc' hs' (isBranch_iff.mpr rfl)⟩
  | start hts =>
    subst hts
    exact .here ⟨false, none, .empty⟩
termination_by 3 * ts.length

theorem statements_begins (ts : List Token) (h : StopsAt (statements ts) rest) :
    Begins (∃ ss, IsStatements · ss) ts rest := by
  obtain h | ⟨s, mid, hs, htail⟩ := stopsAt_statements h
  · exact (statement_begins ts h).mono fun _ ⟨_, s, hs⟩ => ⟨_, .one hs⟩
  · have hmid := hs.fewer
    obtain ⟨ks, _, hks, hs', -⟩ := statement_sound ts hs
    exact (statementsTail_begins mid htail).behind hks fun ls hls => hls _ ks s hs'
termination_by 3 * ts.length + 2

/-- What may follow the first statement, whichever that is. -/
theorem statementsTail_begins (ts : List Token) (h : StopsAt (statementsTail ts) rest) :
    Begins (fun ls => ∀ dangling ks s, IsStatement dangling ks s →
      ∃ ss, IsStatements (ks ++ ls) ss) ts rest := by
  obtain ⟨next, hsemicolon, hs | ⟨s, mid, hs, htail⟩⟩ := stopsAt_statementsTail h
  · have hnext := hsemicolon.fewer
    refine (statement_begins next hs).behind hsemicolon fun ls ⟨_, s, hs'⟩ => ?_
    exact fun _ ks₀ s₀ hs₀ => ⟨_, .more hs₀ (.one hs')⟩
  · have hnext := hsemicolon.fewer
    have hmid := hs.fewer
    obtain ⟨ks, _, hks, hs', -⟩ := statement_sound next hs
    refine (statementsTail_begins mid htail).behind (hsemicolon.trans hks) fun ls hls => ?_
    intro _ ks₀ s₀ hs₀
    obtain ⟨ss, hss⟩ := hls _ ks s hs'
    exact ⟨_, .more hs₀ hss⟩
termination_by 3 * ts.length + 1

end

theorem block_begins (h : StopsAt (block ts) rest) : Begins (∃ body, IsBlock · body) ts rest := by
  obtain rfl | ⟨next, hbegin, hss | ⟨ss, hss⟩⟩ := stopsAt_block h
  · exact .here ⟨_, .intro (.one .empty)⟩
  · exact (statements_begins next hss).within hbegin [.keyword .end_] fun _ ⟨ss, hss'⟩ =>
      ⟨ss, .intro hss'⟩
  · obtain ⟨ks, hks, hss'⟩ := statements_sound next hss
    exact .after (hbegin.trans hks) [.keyword .end_] ⟨ss, .intro hss'⟩

end Cartridge.Pascal
