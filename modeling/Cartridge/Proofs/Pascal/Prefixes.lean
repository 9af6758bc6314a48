import Cartridge.Proofs.Pascal.Programs
import Cartridge.Proofs.Pascal.Stopping

/-!
# Viable prefixes

A token list that is no program is refused at the place where reading it stopped,
and the tokens in front of that place are those of some program. So a report
never stands behind a token after which no program is possible.

A path that names no tier is another matter: it is read as a whole, then refused.
-/

namespace Cartridge.Pascal

open Grammar

-- ---------------------------------------------------------------------------
-- Constants and variables
-- ---------------------------------------------------------------------------

theorem constantValue_begins (h : StopsAt (constantValue ts) rest) :
    Begins (∃ v, IsConstant · v) ts rest := by
  unfold constantValue at h
  split at h
  · simp at h
  · obtain ⟨_, ⟨⟩⟩ := h
    exact .after (spells_one.mpr ⟨_, rfl⟩) [.int 0] ⟨_, .negative⟩
  · obtain ⟨_, ⟨⟩⟩ := h
    exact .here ⟨_, .literal (.int (v := 0))⟩
  · split at h
    · simp at h
    · obtain ⟨_, ⟨⟩⟩ := h
      exact .here ⟨_, .literal (.int (v := 0))⟩

theorem constEntry_begins (h : StopsAt (constEntry ts) rest) :
    Begins (∃ cs, IsConstants · cs) ts rest := by
  have hvalue : IsConstant [.int 0] (.int 0) := .literal .int
  rw [constEntry] at h
  simp only [stopsAt_bind, stopsAt_identifier, stopsAt_sign, stopsAt_pure, yields_identifier,
    yields_sign, yields_constantValue, exists_false, or_false] at h
  obtain ⟨-, rfl⟩ | ⟨x, mid, hx, ⟨-, rfl⟩ | ⟨_, _, heq, h | ⟨v, _, ⟨ks, hks, hv⟩, -, rfl⟩⟩⟩ := h
  · exact .here ⟨_, .one (x := "x") hvalue⟩
  · exact .after hx [.sign .eq, .int 0, .sign .semicolon] ⟨_, .one hvalue⟩
  · refine (constantValue_begins h).within (hx.trans heq) [.sign .semicolon] ?_
    rintro _ ⟨v, hv⟩
    exact ⟨_, .one hv⟩
  · exact .after (hx.trans (heq.trans hks)) [.sign .semicolon] ⟨_, .one hv⟩

theorem stopsAt_constEntries (h : StopsAt (constEntries ts) rest) :
    StopsAt (constEntry ts) rest ∨ ∃ c mid, Yields (constEntry ts) c mid ∧
      StopsAt (constEntries mid) rest := by
  rw [constEntries] at h
  obtain h | ⟨c, mid, hc, h⟩ := stopsAt_bind.mp h
  · exact .inl h
  · split at h
    · exact .inr ⟨c, mid, hc, by simpa using h⟩
    · simp at h

theorem constEntries_begins (ts : List Token) (h : StopsAt (constEntries ts) rest) :
    Begins (∃ cs, IsConstants · cs) ts rest := by
  obtain h | ⟨c, mid, hc, h⟩ := stopsAt_constEntries h
  · exact constEntry_begins h
  · have hmid := hc.fewer
    obtain ⟨ks, hks, hv⟩ := yields_constEntry.mp hc
    refine (constEntries_begins mid h).behind hks fun ls ⟨cs, hcs⟩ => ?_
    exact ⟨_, by simpa using .more hv hcs⟩
termination_by ts.length

theorem stopsAt_nameList (h : StopsAt (nameList ts) rest) :
    ts = rest ∨ ∃ x mid next, Spells ts [.ident x] mid ∧ Spells mid [.sign .comma] next ∧
      StopsAt (nameList next) rest := by
  rw [nameList] at h
  obtain h | ⟨x, mid, hx, h⟩ := stopsAt_bind.mp h
  · exact .inl (stopsAt_identifier.mp h).2
  · split at h
    · next heq =>
      cases mid with
      | nil => cases heq
      | cons t mid =>
        cases heq
        exact .inr ⟨x, _, mid, yields_identifier.mp hx, by simp, by simpa using h⟩
    · simp at h

theorem nameList_begins (ts : List Token) (h : StopsAt (nameList ts) rest) :
    Begins IsNames ts rest := by
  obtain rfl | ⟨x, mid, next, hx, hcomma, h⟩ := stopsAt_nameList h
  · exact .here (.one (x := "x"))
  · have hmid := hx.fewer
    have hnext := hcomma.fewer
    exact (nameList_begins next h).behind (hx.trans hcomma) fun _ hnames => .more hnames
termination_by ts.length

theorem varEntry_begins (h : StopsAt (varEntry ts) rest) : Begins IsVars ts rest := by
  rw [varEntry] at h
  simp only [stopsAt_bind, stopsAt_identifier, stopsAt_sign, stopsAt_pure, yields_identifier,
    yields_sign, exists_false, or_false] at h
  obtain h | ⟨_, mid, hnames, h⟩ := h
  · exact (nameList_begins ts h).within (spells_nil.mpr rfl)
      [.sign .colon, .ident "t", .sign .semicolon] fun _ hnames => .one hnames
  obtain ⟨ks, hks, hnames'⟩ := nameList_sound ts hnames
  obtain ⟨-, rfl⟩ | ⟨_, _, hcolon, ⟨-, rfl⟩ | ⟨type, _, htype, -, rfl⟩⟩ := h
  · exact .after hks [.sign .colon, .ident "t", .sign .semicolon] (.one hnames')
  · exact .after (hks.trans hcolon) [.ident "t", .sign .semicolon]
      (by simpa using .one hnames')
  · exact .after (hks.trans (hcolon.trans htype)) [.sign .semicolon]
      (by simpa using .one hnames')

theorem stopsAt_varEntries (h : StopsAt (varEntries ts) rest) :
    StopsAt (varEntry ts) rest ∨ ∃ mid, Yields (varEntry ts) () mid ∧
      StopsAt (varEntries mid) rest := by
  rw [varEntries] at h
  obtain h | ⟨_, mid, hentry, h⟩ := stopsAt_bind.mp h
  · exact .inl h
  · split at h
    · exact .inr ⟨mid, hentry, by simpa using h⟩
    · simp at h

theorem varEntries_begins (ts : List Token) (h : StopsAt (varEntries ts) rest) :
    Begins IsVars ts rest := by
  obtain h | ⟨mid, hentry, h⟩ := stopsAt_varEntries h
  · exact varEntry_begins h
  · have hmid := hentry.fewer
    obtain ⟨ks, type, hks, hnames⟩ := yields_varEntry.mp hentry
    refine (varEntries_begins mid h).behind hks fun ls hvars => ?_
    simpa using .more hnames hvars
termination_by ts.length

-- ---------------------------------------------------------------------------
-- Procedures
-- ---------------------------------------------------------------------------

/-- A path stops only where no name begins it. -/
theorem stopsAt_path (h : StopsAt (path ts) rest) : ts = rest := by
  rw [path] at h
  simp only [stopsAt_bind, stopsAt_identifier, stopsAt_pure, exists_false, or_false] at h
  exact h.2

theorem stopsAt_tierPath (h : StopsAt (tierPath ts) rest) : ts = rest := by
  rw [tierPath] at h
  obtain h | ⟨p, mid, hp, h⟩ := stopsAt_bind.mp h
  · exact stopsAt_path h
  · split at h
    · simp at h
    · simp at h
    · exact absurd hp.fewer (by simp)

theorem stopsAt_requirement (h : StopsAt (requirement ts) rest) :
    ts = rest ∨ ∃ tier mid, Yields (tierPath ts) tier mid ∧ Spells mid [.keyword .via] rest := by
  rw [requirement] at h
  obtain h | ⟨tier, mid, htier, h⟩ := stopsAt_bind.mp h
  · exact .inl (stopsAt_tierPath h)
  · split at h
    · next heq =>
      cases mid with
      | nil => cases heq
      | cons t mid =>
        cases heq
        have hpath : StopsAt (path mid) rest := by simpa using h
        obtain rfl := stopsAt_path hpath
        exact .inr ⟨tier, _, htier, by simp⟩
    · simp at h

theorem requirement_begins (h : StopsAt (requirement ts) rest) :
    Begins (fun ks => ∃ tier extension?, IsRequirement
      (.keyword .requires :: (ks ++ [.sign .semicolon])) tier extension?) ts rest := by
  obtain rfl | ⟨tier, mid, htier, hvia⟩ := stopsAt_requirement h
  · have hname : Tier.ofText? "L1" = some .l1 := by decide +kernel
    exact .here ⟨_, _, .tier .one hname⟩
  · obtain ⟨p, hp, hp'⟩ := yields_tierPath.mp htier
    obtain ⟨ks, hks, hpath⟩ := path_sound hp
    exact .after (hks.trans hvia) [.ident "x"]
      ⟨_, _, by simpa using .via hpath hp' .one⟩

theorem optionalRequirement_begins (h : StopsAt (optionalRequirement ts) rest) :
    Begins (∃ tier extension?, IsRequirement · tier extension?) ts rest := by
  unfold optionalRequirement at h
  split at h
  · next a next =>
    have hrequires : Spells (⟨.keyword .requires, a⟩ :: next) [.keyword .requires] next := by simp
    obtain h | ⟨r, mid, hr, h⟩ := stopsAt_bind.mp h
    · exact (requirement_begins h).within hrequires [.sign .semicolon] fun _ hneeds => hneeds
    · simp only [stopsAt_bind, stopsAt_sign, stopsAt_pure, exists_false, or_false] at h
      obtain ⟨-, rfl⟩ := h
      obtain ⟨ks, hks, hneeds⟩ := requirement_sound hr
      exact .after (hrequires.trans hks) [.sign .semicolon] ⟨_, _, hneeds⟩
  · simp at h

theorem optionalParens_begins (h : StopsAt (optionalParens ts) rest) :
    Begins IsParens ts rest := by
  unfold optionalParens at h
  split at h
  · simp only [stopsAt_bind, stopsAt_sign, stopsAt_pure, exists_false, or_false] at h
    obtain ⟨-, rfl⟩ := h
    exact .after (spells_one.mpr ⟨_, rfl⟩) [.sign .closeParen] .some
  · simp at h

theorem isBlock_empty : IsBlock [.keyword .begin, .keyword .end_] [] :=
  .intro (.one .empty)

theorem procedure_begins (h : StopsAt (procedure ts) rest) :
    Begins (fun ks => ∃ r, IsProcedure (.keyword .procedure :: ks) r) ts rest := by
  rw [procedure] at h
  simp only [stopsAt_bind, stopsAt_identifier, stopsAt_sign, stopsAt_pure, yields_identifier,
    yields_sign, yields_block_iff, exists_false, or_false] at h
  obtain ⟨-, rfl⟩ | ⟨name, _, hname, h⟩ := h
  · exact .here ⟨{ name := "p", body := [] }, .intro .none .none isBlock_empty⟩
  obtain h | ⟨_, _, hparens, h⟩ := h
  · exact (optionalParens_begins h).within hname
      [.sign .semicolon, .keyword .begin, .keyword .end_, .sign .semicolon]
      fun _ hps => ⟨_, .intro hps .none isBlock_empty⟩
  obtain ⟨ps, hps, hparens'⟩ := optionalParens_sound hparens
  obtain ⟨-, rfl⟩ | ⟨_, _, hsemicolon, h⟩ := h
  · exact .after (hname.trans hps)
      [.sign .semicolon, .keyword .begin, .keyword .end_, .sign .semicolon]
      ⟨_, .intro hparens' .none isBlock_empty⟩
  obtain h | ⟨needs, _, hneeds, h⟩ := h
  · refine (optionalRequirement_begins h).within (hname.trans (hps.trans hsemicolon))
      [.keyword .begin, .keyword .end_, .sign .semicolon] ?_
    rintro _ ⟨_, _, hrs⟩
    exact ⟨_, by simpa using .intro hparens' hrs isBlock_empty⟩
  obtain ⟨rs, hrs, hneeds'⟩ := optionalRequirement_sound hneeds
  obtain h | ⟨body, _, ⟨bs, hbs, hbody⟩, -, rfl⟩ := h
  · refine (block_begins h).within (hname.trans (hps.trans (hsemicolon.trans hrs)))
      [.sign .semicolon] ?_
    rintro _ ⟨_, hbs⟩
    exact ⟨_, by simpa using .intro hparens' hneeds' hbs⟩
  · exact .after (hname.trans (hps.trans (hsemicolon.trans (hrs.trans hbs)))) [.sign .semicolon]
      ⟨_, by simpa using .intro hparens' hneeds' hbody⟩

-- ---------------------------------------------------------------------------
-- Programs
-- ---------------------------------------------------------------------------

/-- Where a group of declarations stopped, told by its keyword. -/
inductive DeclarationStop (ts rest : List Token) : Prop
  | const : Spells ts [.keyword .const] next → StopsAt (constEntries next) rest →
      DeclarationStop ts rest
  | var : Spells ts [.keyword .var] next → StopsAt (varEntries next) rest →
      DeclarationStop ts rest
  | procedure : Spells ts [.keyword .procedure] next → StopsAt (procedure next) rest →
      DeclarationStop ts rest

theorem declarationStop_of_stopsAt {rule : Reads Declarations ts}
    (hrule : declaration? ts = some rule) (h : StopsAt rule rest) : DeclarationStop ts rest := by
  unfold declaration? at hrule
  split at hrule
  · next next =>
    cases hrule
    have hcs : StopsAt (constEntries next) rest := by simpa using h
    exact .const (by simp) hcs
  · next next =>
    cases hrule
    have hvars : StopsAt (varEntries next) rest := by simpa using h
    exact .var (by simp) hvars
  · next next =>
    cases hrule
    have hr : StopsAt (procedure next) rest := by simpa using h
    exact .procedure (by simp) hr
  · cases hrule

theorem stopsAt_declarations (h : StopsAt (declarations ts) rest) :
    DeclarationStop ts rest ∨ ∃ d mid, DeclarationRead ts mid d ∧ mid.length < ts.length ∧
      StopsAt (declarations mid) rest := by
  rw [declarations] at h
  split at h
  · simp at h
  · next rule hsome =>
    obtain h | ⟨d, mid, hread, h⟩ := stopsAt_bind.mp h
    · exact .inl (declarationStop_of_stopsAt hsome h)
    · exact .inr ⟨d, mid, declarationRead_of_yields hsome hread, hread.fewer, by simpa using h⟩

theorem DeclarationStop.begins (h : DeclarationStop ts rest) :
    Begins (∃ cs rs, IsDeclarations · cs rs) ts rest := by
  cases h with
  | const hts h =>
    refine (constEntries_begins _ h).behind hts fun ls ⟨cs, hcs⟩ => ⟨cs, [], ?_⟩
    simpa using IsDeclarations.const hcs .none
  | var hts h =>
    refine (varEntries_begins _ h).behind hts fun ls hvars => ⟨[], [], ?_⟩
    simpa using IsDeclarations.var hvars .none
  | procedure hts h =>
    refine (procedure_begins h).behind hts fun ls ⟨r, hr⟩ => ⟨[], [r], ?_⟩
    simpa using IsDeclarations.procedure hr .none

theorem declarations_begins (ts : List Token) (h : StopsAt (declarations ts) rest) :
    Begins (∃ cs rs, IsDeclarations · cs rs) ts rest := by
  obtain h | ⟨d, mid, hread, hfewer, h⟩ := stopsAt_declarations h
  · exact h.begins
  · have hmore := declarations_begins mid h
    cases hread with
    | const hts hcs =>
      obtain ⟨ks, hks, hcs'⟩ := constEntries_sound _ hcs
      refine hmore.behind (hts.trans hks) fun ls ⟨_, _, hds⟩ => ?_
      exact ⟨_, _, by simpa using .const hcs' hds⟩
    | var hts hvars =>
      obtain ⟨ks, hks, hvars'⟩ := varEntries_sound _ hvars
      refine hmore.behind (hts.trans hks) fun ls ⟨_, _, hds⟩ => ?_
      exact ⟨_, _, by simpa using .var hvars' hds⟩
    | procedure hts hr =>
      obtain ⟨ks, hks, hr'⟩ := yields_procedure.mp hr
      refine hmore.behind (hts.trans hks) fun ls ⟨_, _, hds⟩ => ?_
      exact ⟨_, _, by simpa using .procedure hr' hds⟩
termination_by ts.length

theorem header_begins (h : StopsAt (header ts) rest) :
    Begins (∃ name, IsHeader · name) ts rest := by
  unfold header at h
  split at h
  · next a next =>
    have hprogram : Spells (⟨.keyword .program, a⟩ :: next) [.keyword .program] next := by simp
    simp only [stopsAt_bind, stopsAt_identifier, stopsAt_sign, stopsAt_pure, yields_identifier,
      exists_false, or_false] at h
    obtain ⟨-, rfl⟩ | ⟨name, mid, hname, -, rfl⟩ := h
    · exact .after hprogram [.ident "p", .sign .semicolon] ⟨_, .some⟩
    · exact .after (hprogram.trans hname) [.sign .semicolon] ⟨_, .some⟩
  · simp at h

theorem parseTokens_begins (h : StopsAt (parseTokens ts) rest) :
    Begins (∃ p, IsProgram · p) ts rest := by
  rw [parseTokens] at h
  obtain h | ⟨name, _, hname, h⟩ := stopsAt_bind.mp h
  · refine (header_begins h).within (spells_nil.mpr rfl)
      [.keyword .begin, .keyword .end_, .sign .dot] ?_
    rintro _ ⟨_, hhs⟩
    exact ⟨_, .intro hhs .none isBlock_empty⟩
  obtain ⟨hs, hhs, hname'⟩ := header_sound hname
  obtain h | ⟨d, _, hd, h⟩ := stopsAt_bind.mp h
  · refine (declarations_begins _ h).within hhs
      [.keyword .begin, .keyword .end_, .sign .dot] ?_
    rintro _ ⟨_, _, hds⟩
    exact ⟨_, by simpa using .intro hname' hds isBlock_empty⟩
  obtain ⟨ds, hds, hd'⟩ := declarations_sound _ hd
  obtain h | ⟨body, _, hbody, h⟩ := stopsAt_bind.mp h
  · refine (block_begins h).within (hhs.trans hds) [.sign .dot] ?_
    rintro _ ⟨_, hbs⟩
    exact ⟨_, by simpa using .intro hname' hd' hbs⟩
  obtain ⟨bs, hbs, hbody'⟩ := yields_block_iff.mp hbody
  have hprogram := IsProgram.intro hname' hd' hbody'
  obtain h | ⟨_, end_, hdot, h⟩ := stopsAt_bind.mp h
  · obtain ⟨-, rfl⟩ := stopsAt_sign.mp h
    exact .after (hhs.trans (hds.trans hbs)) [.sign .dot] ⟨_, by simpa using hprogram⟩
  · -- The whole program was read, and something follows it.
    split at h
    · simp at h
    · obtain ⟨_, ⟨⟩⟩ := h
      exact .after (hhs.trans (hds.trans (hbs.trans (yields_sign.mp hdot)))) []
        ⟨_, by simpa using hprogram⟩

-- ---------------------------------------------------------------------------
-- Reports
-- ---------------------------------------------------------------------------

/-- The spans of the tokens, and of the end of their source. -/
def spansWithEnd (source : String) (ts : List Token) : List Span :=
  ts.map Token.span ++ [endSpan source]

/-- A missing phrase is reported at the token it was looked for at, or at the end. -/
theorem spansWithEnd_expected (source : String) (front rest : List Token) (what : Expected) :
    (spansWithEnd source (front ++ rest))[front.length]? =
      some ((Fault.expected what rest).toError source).span := by
  cases rest with
  | nil => simp [spansWithEnd, Fault.toError, ParseError.locate]
  | cons t rest => simp [spansWithEnd, Fault.toError, ParseError.locate]

/-- The beginning of a program can be written out to a program. -/
theorem parseTokens_completion (h : IsProgram (kinds front ++ more) p) :
    parseTokens (front ++ more.map fun k => ⟨k, default⟩) = .ok p :=
  parseTokens_complete h ⟨front ++ more.map fun k => ⟨k, default⟩, by simp,
    by simp [kinds, Function.comp_def]⟩

/-- A syntax error stands at a token, or at the end, and what stands before it begins a program. -/
theorem parseTokens_error_viable (source : String) (h : parseTokens ts = .error fault)
    (hcode : (fault.toError source).code.text ∈ ["E0101", "E0102", "E0103"]) :
    ∃ k, (spansWithEnd source ts)[k]? = some (fault.toError source).span ∧
      ∃ more p, parseTokens (ts.take k ++ more) = .ok p := by
  cases fault with
  | unknownTier path start =>
    -- The code of a path that names no tier is none of the three.
    have htext : (Fault.unknownTier path start |>.toError source).code.text = "E0104" := rfl
    rw [htext] at hcode
    exact absurd hcode (by decide)
  | expected what rest =>
    obtain ⟨_, more, ⟨front, rfl, rfl⟩, p, hp⟩ := parseTokens_begins ⟨what, h⟩
    refine ⟨front.length, spansWithEnd_expected source front rest what,
      more.map fun k => ⟨k, default⟩, p, ?_⟩
    rw [List.take_left]
    exact parseTokens_completion hp

/-- A procedure behind a constant, stopped at the word where its parenthesis is not closed. -/
theorem parseTokens_error_viable_parens :
    let source := "const c = -1; procedure p( begin"
    let tokens : List Token := [⟨.keyword .const, ⟨0, 5⟩⟩, ⟨.ident "c", ⟨6, 7⟩⟩,
      ⟨.sign .eq, ⟨8, 9⟩⟩, ⟨.sign .minus, ⟨10, 11⟩⟩, ⟨.int 1, ⟨11, 12⟩⟩,
      ⟨.sign .semicolon, ⟨12, 13⟩⟩, ⟨.keyword .procedure, ⟨14, 23⟩⟩, ⟨.ident "p", ⟨24, 25⟩⟩,
      ⟨.sign .openParen, ⟨25, 26⟩⟩, ⟨.keyword .begin, ⟨27, 32⟩⟩]
    ∃ k, (spansWithEnd source tokens)[k]? = some ⟨27, 32⟩ ∧
      ∃ more p, parseTokens (tokens.take k ++ more) = .ok p := by
  intro source tokens
  have hstop : parseTokens tokens =
      .error (.expected (.token (.sign .closeParen)) (tokens.drop 9)) := by cbv
  exact parseTokens_error_viable source hstop (by decide)

end Cartridge.Pascal
