import Cartridge.Pascal.Parser.Stmt
import Cartridge.Proofs.Pascal.Expressions

/-!
# Statements are read by the grammar

A statement is read up to a token that may end it. If it dangles, that token is
no `else`: the rule for `if` would have taken it. A block ends itself, so for
blocks the rule and the grammar agree whatever follows.
-/

namespace Cartridge.Pascal

open Grammar

theorem isBranch_iff : IsBranch s body ↔ branchOf s = body := by
  constructor
  · intro h
    cases h with
    | empty => rfl
    | block => rfl
    | single hne =>
      unfold branchOf
      split
      · next h => cases h
      · next h =>
        cases h
        exact absurd rfl (hne _)
      · next h =>
        cases h
        rfl
  · rintro rfl
    unfold branchOf
    split
    · exact .empty
    · exact .block
    · next hne => exact .single fun body h => hne body h

-- ---------------------------------------------------------------------------
-- What one rule reads, in terms of the rules it calls
-- ---------------------------------------------------------------------------

/-- How a statement was read, told by the tokens that it starts with. -/
inductive StatementRead (ts rest : List Token) : Option Stmt → Prop
  | assign : Spells ts [.ident x, .sign .assign] next → Yields (expr next) e rest →
      StatementRead ts rest (some (.assign x e))
  | callWith : Spells ts [.ident f, .sign .openParen] next →
      Yields (arguments next) args rest → StatementRead ts rest (some (.eval (.call f args)))
  | call : Spells ts [.ident f] rest →
      Ahead (· ≠ .sign .assign) rest → Ahead (· ≠ .sign .openParen) rest →
      StatementRead ts rest (some (.eval (.call f [])))
  | block : Spells ts [.keyword .begin] next → Yields (statements next) body mid →
      Spells mid [.keyword .end_] rest → StatementRead ts rest (some (.block body))
  | ifThen : Spells ts [.keyword .if_] next → Yields (expr next) c mid →
      Spells mid [.keyword .then_] branch → Yields (statement branch) s rest →
      Ahead (· ≠ .keyword .else_) rest → StatementRead ts rest (some (.ifThen c (branchOf s)))
  | ifElse : Spells ts [.keyword .if_] next → Yields (expr next) c mid →
      Spells mid [.keyword .then_] branch → Yields (statement branch) s mid' →
      Spells mid' [.keyword .else_] other → Yields (statement other) s' rest →
      StatementRead ts rest (some (.ifElse c (branchOf s) (branchOf s')))
  | loop : Spells ts [.keyword .while] next → Yields (expr next) c mid →
      Spells mid [.keyword .do_] branch → Yields (statement branch) s rest →
      StatementRead ts rest (some (.loop c (branchOf s)))
  | empty : rest = t :: next → endsStatement t.kind → ts = rest → StatementRead ts rest none

theorem statementRead_of_yields (h : Yields (statement ts) s rest) : StatementRead ts rest s := by
  rw [statement.eq_def] at h
  split at h
  · simp only [yields_bind, yields_pure, Parsed.behind, Parsed.relax, Parsed.map] at h
    obtain ⟨e, _, he, rfl, rfl⟩ := h
    exact .assign (by simp) he
  · simp only [yields_bind, yields_pure, Parsed.behind, Parsed.relax, Parsed.map] at h
    obtain ⟨args, _, hargs, rfl, rfl⟩ := h
    exact .callWith (by simp) hargs
  · next hassign hparen =>
    obtain ⟨rfl, rfl⟩ := yields_ok.mp h
    exact .call (spells_one.mpr ⟨_, rfl⟩) (ahead_ne_iff.mpr hassign) (ahead_ne_iff.mpr hparen)
  · simp only [yields_bind, yields_pure, yields_keyword, Parsed.next, Parsed.relax,
      Parsed.map] at h
    obtain ⟨body, _, hbody, _, _, hend, rfl, rfl⟩ := h
    exact .block (by simp) hbody hend
  · simp only [yields_bind] at h
    obtain ⟨c, _, hc, _, _, hthen, s, mid, hs, h⟩ := h
    rw [yields_keyword] at hthen
    split at h
    · next helse =>
      cases mid with
      | nil => cases helse
      | cons t mid =>
        cases helse
        simp only [yields_bind, yields_pure, Parsed.next, Parsed.nextMay, Parsed.behind,
          Parsed.relax, Parsed.map] at h
        obtain ⟨s', _, hs', rfl, rfl⟩ := h
        exact .ifElse (by simp) hc hthen hs (by simp) hs'
    · next helse =>
      obtain ⟨rfl, rfl⟩ := yields_pure.mp h
      refine .ifThen (spells_one.mpr ⟨_, rfl⟩) hc hthen hs (ahead_ne_iff.mpr ?_)
      rintro b next rfl
      exact helse _ _ rfl
  · simp only [yields_bind, yields_pure, yields_keyword, Parsed.next, Parsed.nextMay,
      Parsed.behind, Parsed.relax, Parsed.map] at h
    obtain ⟨c, _, hc, _, _, hdo, s, _, hs, rfl, rfl⟩ := h
    exact .loop (by simp) hc hdo hs
  · simp at h
  · split at h
    · next hends =>
      obtain ⟨rfl, rfl⟩ := yields_ok.mp h
      exact .empty rfl hends rfl
    · simp at h

theorem StatementRead.yields (h : StatementRead ts rest s) : Yields (statement ts) s rest := by
  cases h with
  | assign hts he =>
    obtain ⟨⟨_, a⟩, _, rfl, rfl, hts'⟩ := spells_cons.mp hts
    obtain ⟨b, rfl⟩ := spells_one.mp hts'
    rw [statement]
    exact yields_bind.mpr ⟨_, rest, he, yields_pure.mpr ⟨rfl, rfl⟩⟩
  | callWith hts hargs =>
    obtain ⟨⟨_, a⟩, _, rfl, rfl, hts'⟩ := spells_cons.mp hts
    obtain ⟨b, rfl⟩ := spells_one.mp hts'
    rw [statement]
    exact yields_bind.mpr ⟨_, rest, hargs, yields_pure.mpr ⟨rfl, rfl⟩⟩
  | call hts hassign hparen =>
    obtain ⟨a, rfl⟩ := spells_one.mp hts
    rw [statement]
    · exact yields_ok.mpr ⟨rfl, rfl⟩
    · exact ahead_ne_iff.mp hassign
    · exact ahead_ne_iff.mp hparen
  | block hts hbody hend =>
    obtain ⟨a, rfl⟩ := spells_one.mp hts
    rw [statement]
    refine yields_bind.mpr ⟨_, _, hbody, ?_⟩
    exact yields_bind.mpr ⟨(), rest, yields_keyword.mpr hend, yields_pure.mpr ⟨rfl, rfl⟩⟩
  | ifThen hts hc hthen hs hahead =>
    obtain ⟨a, rfl⟩ := spells_one.mp hts
    rw [statement]
    refine yields_bind.mpr ⟨_, _, hc, yields_bind.mpr ⟨(), _, yields_keyword.mpr hthen, ?_⟩⟩
    refine yields_bind.mpr ⟨_, rest, hs, ?_⟩
    split
    · next helse =>
      cases rest with
      | nil => cases helse
      | cons t rest =>
        cases helse
        exact absurd rfl (ahead_cons.mp hahead)
    · exact yields_pure.mpr ⟨rfl, rfl⟩
  | ifElse hts hc hthen hs helse hs' =>
    obtain ⟨a, rfl⟩ := spells_one.mp hts
    obtain ⟨b, rfl⟩ := spells_one.mp helse
    rw [statement]
    refine yields_bind.mpr ⟨_, _, hc, yields_bind.mpr ⟨(), _, yields_keyword.mpr hthen, ?_⟩⟩
    refine yields_bind.mpr ⟨_, _, hs, ?_⟩
    exact yields_bind.mpr ⟨_, rest, hs', yields_pure.mpr ⟨rfl, rfl⟩⟩
  | loop hts hc hdo hs =>
    obtain ⟨a, rfl⟩ := spells_one.mp hts
    rw [statement]
    refine yields_bind.mpr ⟨_, _, hc, yields_bind.mpr ⟨(), _, yields_keyword.mpr hdo, ?_⟩⟩
    exact yields_bind.mpr ⟨_, rest, hs, yields_pure.mpr ⟨rfl, rfl⟩⟩
  | @empty t next hrest hends hts =>
    subst hrest hts
    obtain ⟨k, a⟩ := t
    rw [statement]
    · simp only [hends, if_true]
      exact yields_ok.mpr ⟨rfl, rfl⟩
    all_goals
      intros
      simp_all [endsStatement]

theorem yields_statements : Yields (statements ts) ss rest ↔
    ∃ s mid more, Yields (statement ts) s mid ∧ Yields (statementsTail mid) more rest ∧
      s.toList ++ more = ss := by
  rw [statements]
  simp only [yields_bind, yields_pure, Parsed.nextMay, Parsed.map]
  grind

theorem yields_statementsTail : Yields (statementsTail ts) ss rest ↔
    (∃ next s mid more, Spells ts [.sign .semicolon] next ∧ Yields (statement next) s mid ∧
      Yields (statementsTail mid) more rest ∧ s.toList ++ more = ss) ∨
    (Ahead (· ≠ .sign .semicolon) ts ∧ [] = ss ∧ ts = rest) := by
  rw [statementsTail.eq_def]
  split
  · next a next =>
    simp only [yields_bind, yields_pure, Parsed.nextMay, Parsed.relax, Parsed.map, ahead_cons,
      spells_one]
    grind
  · next hne =>
    have hahead : Ahead (· ≠ .sign .semicolon) ts := ahead_ne_iff.mpr hne
    simp only [yields_ok, Parsed.nothing, hahead, spells_one]
    grind

theorem yields_block : Yields (block ts) body rest ↔
    ∃ next mid, Spells ts [.keyword .begin] next ∧ Yields (statements next) body mid ∧
      Spells mid [.keyword .end_] rest := by
  rw [block]
  simp only [yields_bind, yields_pure, yields_keyword, Parsed.next, Parsed.nextMay, Parsed.map]
  grind

-- ---------------------------------------------------------------------------
-- What the rules read is in the grammar
-- ---------------------------------------------------------------------------

/-- A branch that stands in front of `else` cannot dangle. -/
theorem eq_false_of_else (hahead : dangling = true → Ahead (· ≠ .keyword .else_) ts)
    (helse : Spells ts [.keyword .else_] rest) : dangling = false := by
  obtain ⟨b, rfl⟩ := spells_one.mp helse
  cases dangling with
  | false => rfl
  | true => exact absurd rfl (ahead_cons.mp (hahead rfl))

mutual

theorem statement_sound (ts : List Token) (h : Yields (statement ts) s rest) :
    ∃ ks dangling, Spells ts ks rest ∧ IsStatement dangling ks s ∧
      (dangling → Ahead (· ≠ .keyword .else_) rest) := by
  cases statementRead_of_yields h with
  | assign hts he =>
    obtain ⟨ks, hks, he'⟩ := expr_sound _ he
    exact ⟨_, false, hts.trans hks, .assign he', nofun⟩
  | callWith hts hargs =>
    obtain ⟨ks, hks, hargs'⟩ := arguments_sound _ hargs
    exact ⟨_, false, hts.trans hks, .callWith hargs', nofun⟩
  | call hts => exact ⟨_, false, hts, .call, nofun⟩
  | block hts hbody hend =>
    have hnext := hts.fewer
    obtain ⟨ks, hks, hbody'⟩ := statements_sound _ hbody
    exact ⟨_, false, hts.trans (hks.trans hend), .block (.intro hbody'), nofun⟩
  | ifThen hts hc hthen hs hahead =>
    have hnext := hts.fewer
    have hmid := hc.fewer
    have hbranch := hthen.fewer
    obtain ⟨cs, hcs, hc'⟩ := expr_sound _ hc
    obtain ⟨ks, _, hks, hs', -⟩ := statement_sound _ hs
    exact ⟨_, true, hts.trans (hcs.trans (hthen.trans hks)),
      .ifThen hc' hs' (isBranch_iff.mpr rfl), fun _ => hahead⟩
  | ifElse hts hc hthen hs helse hs' =>
    have hnext := hts.fewer
    have hmid := hc.fewer
    have hbranch := hthen.fewer
    have hmid' := hs.fewer
    have hother := helse.fewer
    obtain ⟨cs, hcs, hc'⟩ := expr_sound _ hc
    obtain ⟨ks, dangling, hks, hyes, hahead⟩ := statement_sound _ hs
    obtain ⟨ls, _, hls, hno, hahead'⟩ := statement_sound _ hs'
    obtain rfl := eq_false_of_else hahead helse
    exact ⟨_, _, hts.trans (hcs.trans (hthen.trans (hks.trans (helse.trans hls)))),
      .ifElse hc' hyes (isBranch_iff.mpr rfl) hno (isBranch_iff.mpr rfl), hahead'⟩
  | loop hts hc hdo hs =>
    have hnext := hts.fewer
    have hmid := hc.fewer
    have hbranch := hdo.fewer
    obtain ⟨cs, hcs, hc'⟩ := expr_sound _ hc
    obtain ⟨ks, _, hks, hs', hahead⟩ := statement_sound _ hs
    exact ⟨_, _, hts.trans (hcs.trans (hdo.trans hks)), .loop hc' hs' (isBranch_iff.mpr rfl),
      hahead⟩
  | empty _ _ hts => exact ⟨[], false, spells_nil.mpr hts, .empty, nofun⟩
termination_by 3 * ts.length

theorem statements_sound (ts : List Token) (h : Yields (statements ts) ss rest) :
    ∃ ks, Spells ts ks rest ∧ IsStatements ks ss := by
  obtain ⟨s, mid, more, hs, htail, rfl⟩ := yields_statements.mp h
  have hmid := hs.fewer
  obtain ⟨ks, _, hks, hs', -⟩ := statement_sound ts hs
  obtain ⟨ls, hls, hss⟩ := statementsTail_sound mid htail hs'
  exact ⟨ks ++ ls, hks.trans hls, hss⟩
termination_by 3 * ts.length + 2

/-- The tail goes on with the statement in front of it. -/
theorem statementsTail_sound (ts : List Token) (h : Yields (statementsTail ts) ss rest)
    (hs : IsStatement dangling ks s) :
    ∃ ls, Spells ts ls rest ∧ IsStatements (ks ++ ls) (s.toList ++ ss) := by
  obtain ⟨next, s', mid, more, hts, hs', htail, rfl⟩ | ⟨-, rfl, rfl⟩ :=
    yields_statementsTail.mp h
  · have hnext := hts.fewer
    have hmid := hs'.fewer
    obtain ⟨ks', _, hks', hstmt, -⟩ := statement_sound next hs'
    obtain ⟨ls, hls, hss⟩ := statementsTail_sound mid htail hstmt
    exact ⟨.sign .semicolon :: (ks' ++ ls), hts.trans (hks'.trans hls), .more hs hss⟩
  · refine ⟨[], spells_nil.mpr rfl, ?_⟩
    rw [List.append_nil, List.append_nil]
    exact .one hs
termination_by 3 * ts.length + 1

end

-- ---------------------------------------------------------------------------
-- The rules read everything in the grammar
-- ---------------------------------------------------------------------------

/-- A statement may end in front of these tokens. -/
def StatementEnd (ts : List Token) : Prop :=
  ∃ t next, ts = t :: next ∧ endsStatement t.kind

theorem statementEnd_of_spells (h : Spells ts (k :: ks) rest) (hk : endsStatement k) :
    StatementEnd ts := by
  obtain ⟨t, next, rfl, rfl, -⟩ := spells_cons.mp h
  exact ⟨t, next, rfl, hk⟩

theorem StatementEnd.below (h : StatementEnd ts) : Below 1 ts := by
  obtain ⟨t, next, rfl, ht⟩ := h
  refine below_of_spells (spells_one.mpr ⟨t.span, rfl⟩) ?_
  unfold endsStatement at ht
  split at ht
  case h_4 => cases ht
  all_goals
    next hk =>
      rw [hk]
      decide

theorem StatementEnd.ahead_assign (h : StatementEnd ts) : Ahead (· ≠ .sign .assign) ts := by
  obtain ⟨t, next, rfl, ht⟩ := h
  rw [ahead_cons]
  intro hk
  simp [hk, endsStatement] at ht

mutual

theorem statement_complete (h : IsStatement dangling ks s) (hs : Spells ts ks rest)
    (hend : StatementEnd rest) (hahead : dangling → Ahead (· ≠ .keyword .else_) rest) :
    Yields (statement ts) s rest := by
  apply StatementRead.yields
  cases h with
  | empty =>
    obtain ⟨t, next, rfl, ht⟩ := hend
    exact .empty rfl ht (spells_nil.mp hs)
  | assign he =>
    obtain ⟨mid, hx, hmid⟩ := spells_head.mp hs
    obtain ⟨next, hassign, hnext⟩ := spells_head.mp hmid
    exact .assign (hx.trans hassign) (expr_complete he hnext hend.below)
  | call => exact .call hs hend.ahead_assign (hend.below.mono (by decide)).openParen
  | callWith hargs =>
    obtain ⟨mid, hf, hmid⟩ := spells_head.mp hs
    obtain ⟨next, hparen, hargs'⟩ := arguments_complete hargs hmid
    exact .callWith (hf.trans hparen) hargs'
  | block h =>
    cases h with
    | intro hss =>
      obtain ⟨next, hts, hnext⟩ := spells_head.mp hs
      obtain ⟨mid, hmid, hclose⟩ := spells_append.mp hnext
      exact .block hts (statements_complete hss hmid hclose) hclose
  | ifThen hc hs' hbody =>
    obtain ⟨next, hts, hnext⟩ := spells_head.mp hs
    obtain ⟨mid, hcs, hmid⟩ := spells_append.mp hnext
    obtain ⟨branch, hthen, hbranch⟩ := spells_head.mp hmid
    obtain rfl := isBranch_iff.mp hbody
    exact .ifThen hts (expr_complete hc hcs (below_of_spells hthen (by decide))) hthen
      (statement_complete hs' hbranch hend fun _ => hahead rfl) (hahead rfl)
  | ifElse hc hs' hyes hs'' hno =>
    obtain ⟨next, hts, hnext⟩ := spells_head.mp hs
    obtain ⟨mid, hcs, hmid⟩ := spells_append.mp hnext
    obtain ⟨branch, hthen, hbranch⟩ := spells_head.mp hmid
    obtain ⟨mid', hks, hmid'⟩ := spells_append.mp hbranch
    obtain ⟨other, helse, hother⟩ := spells_head.mp hmid'
    obtain rfl := isBranch_iff.mp hyes
    obtain rfl := isBranch_iff.mp hno
    exact .ifElse hts (expr_complete hc hcs (below_of_spells hthen (by decide))) hthen
      (statement_complete hs' hks (statementEnd_of_spells helse rfl) nofun) helse
      (statement_complete hs'' hother hend hahead)
  | loop hc hs' hbody =>
    obtain ⟨next, hts, hnext⟩ := spells_head.mp hs
    obtain ⟨mid, hcs, hmid⟩ := spells_append.mp hnext
    obtain ⟨branch, hdo, hbranch⟩ := spells_head.mp hmid
    obtain rfl := isBranch_iff.mp hbody
    exact .loop hts (expr_complete hc hcs (below_of_spells hdo (by decide))) hdo
      (statement_complete hs' hbranch hend hahead)
termination_by 2 * ks.length

theorem statements_complete (h : IsStatements ks ss) (hs : Spells ts ks mid)
    (hclose : Spells mid [.keyword .end_] rest) : Yields (statements ts) ss mid := by
  cases h with
  | one h =>
    have hahead : Ahead (· ≠ .sign .semicolon) mid := ahead_of_spells hclose nofun
    have hfirst := statement_complete h hs (statementEnd_of_spells hclose rfl)
      fun _ => ahead_of_spells hclose nofun
    have htail := yields_statementsTail.mpr (.inr ⟨hahead, rfl, rfl⟩)
    exact yields_statements.mpr ⟨_, mid, [], hfirst, htail, by simp⟩
  | more h hss =>
    obtain ⟨mid', hks, hmid'⟩ := spells_append.mp hs
    obtain ⟨next, hsemicolon, hls⟩ := spells_head.mp hmid'
    have hfirst := statement_complete h hks (statementEnd_of_spells hsemicolon rfl)
      fun _ => ahead_of_spells hsemicolon nofun
    obtain ⟨s', mid'', more, hs', htail, rfl⟩ :=
      yields_statements.mp (statements_complete hss hls hclose)
    have hmore := yields_statementsTail.mpr
      (.inl ⟨next, s', mid'', more, hsemicolon, hs', htail, rfl⟩)
    exact yields_statements.mpr ⟨_, mid', _, hfirst, hmore, rfl⟩
termination_by 2 * ks.length + 1

end

/-- Blocks need no token behind them: reading them is deriving them. -/
theorem yields_block_iff : Yields (block ts) body rest ↔
    ∃ ks, Spells ts ks rest ∧ IsBlock ks body := by
  constructor
  · intro h
    obtain ⟨next, mid, hbegin, hbody, hend⟩ := yields_block.mp h
    obtain ⟨ks, hks, hss⟩ := statements_sound next hbody
    exact ⟨_, hbegin.trans (hks.trans hend), .intro hss⟩
  · rintro ⟨_, hs, ⟨hss⟩⟩
    obtain ⟨next, hbegin, hnext⟩ := spells_head.mp hs
    obtain ⟨mid, hmid, hend⟩ := spells_append.mp hnext
    exact yields_block.mpr ⟨next, mid, hbegin, statements_complete hss hmid hend, hend⟩

theorem isBlock_ahead (h : IsBlock ks body) (hs : Spells ts ks rest) (hp : p (.keyword .begin)) :
    Ahead p ts := by
  cases h with
  | intro => exact ahead_of_spells hs hp

end Cartridge.Pascal
