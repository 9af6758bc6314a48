import Cartridge.Pascal.Parser.Program
import Cartridge.Proofs.Pascal.Statements

/-!
# Programs are read by the grammar

Declarations and the program around them. A section of constants or variables
goes on as long as a name follows, and a path as long as a dot follows; behind
both a program has a keyword or a semicolon, so they end where the grammar says.
-/

namespace Cartridge.Pascal

open Grammar

-- ---------------------------------------------------------------------------
-- Constants
-- ---------------------------------------------------------------------------

theorem yields_constantValue : Yields (constantValue ts) v rest ↔
    ∃ ks, Spells ts ks rest ∧ IsConstant ks v := by
  constructor
  · intro h
    unfold constantValue at h
    split at h
    · obtain ⟨rfl, rfl⟩ := yields_ok.mp h
      exact ⟨_, by simp [Parsed.behind, Parsed.one], .negative⟩
    · simp at h
    · simp at h
    · split at h
      · next hv =>
        obtain ⟨rfl, rfl⟩ := yields_ok.mp h
        exact ⟨_, spells_one.mpr ⟨_, rfl⟩, .literal (literal?_eq_some.mp hv)⟩
      · simp at h
  · rintro ⟨_, hs, hv⟩
    cases hv with
    | literal hv =>
      obtain ⟨a, rfl⟩ := spells_one.mp hs
      have hlit := literal?_eq_some.mpr hv
      cases hv <;> simp [constantValue, hlit, Parsed.one]
    | negative =>
      obtain ⟨_, hminus, hv⟩ := spells_head.mp hs
      obtain ⟨b, rfl⟩ := spells_one.mp hv
      obtain ⟨a, rfl⟩ := spells_one.mp hminus
      simp [constantValue, Parsed.one, Parsed.behind]

theorem yields_constEntry : Yields (constEntry ts) c rest ↔
    ∃ ks, Spells ts (.ident c.1 :: .sign .eq :: (ks ++ [.sign .semicolon])) rest ∧
      IsConstant ks c.2 := by
  rw [constEntry]
  simp only [yields_bind, yields_pure, yields_identifier, yields_sign, yields_constantValue,
    Parsed.next, Parsed.map]
  constructor
  · rintro ⟨x, _, hx, _, _, heq, v, _, ⟨ks, hks, hv⟩, _, _, hclose, rfl, rfl⟩
    exact ⟨ks, hx.trans (heq.trans (hks.trans hclose)), hv⟩
  · rintro ⟨ks, hs, hv⟩
    obtain ⟨_, hx, hs⟩ := spells_head.mp hs
    obtain ⟨_, heq, hs⟩ := spells_head.mp hs
    obtain ⟨_, hks, hclose⟩ := spells_append.mp hs
    exact ⟨_, _, hx, (), _, heq, _, _, ⟨ks, hks, hv⟩, (), _, hclose, rfl, rfl⟩

theorem yields_constEntries : Yields (constEntries ts) cs rest ↔
    ∃ c mid, Yields (constEntry ts) c mid ∧
      ((startsWithIdentifier mid ∧ ∃ cs', Yields (constEntries mid) cs' rest ∧ c :: cs' = cs) ∨
        (¬ startsWithIdentifier mid ∧ [c] = cs ∧ mid = rest)) := by
  rw [constEntries]
  simp only [yields_bind]
  refine exists₂_congr fun c mid => ?_
  rw [← exists_prop]
  refine exists_congr fun hc => ?_
  split
  · next hstarts =>
    simp only [yields_bind, yields_pure, Parsed.next, Parsed.map, hstarts]
    grind
  · next hstarts =>
    simp only [yields_pure, Parsed.map, hstarts]
    grind

theorem constEntries_sound (ts : List Token) (h : Yields (constEntries ts) cs rest) :
    ∃ ks, Spells ts ks rest ∧ IsConstants ks cs := by
  obtain ⟨c, mid, hc, h⟩ := yields_constEntries.mp h
  obtain ⟨ks, hks, hv⟩ := yields_constEntry.mp hc
  obtain ⟨-, cs', hcs', rfl⟩ | ⟨-, rfl, rfl⟩ := h
  · have hmid := hc.fewer
    obtain ⟨ls, hls, hcs⟩ := constEntries_sound mid hcs'
    refine ⟨_, ?_, .more hv hcs⟩
    simpa using hks.trans hls
  · exact ⟨_, hks, .one hv⟩
termination_by ts.length

theorem startsWithIdentifier_of_spells (h : Spells ts (.ident x :: ks) rest) :
    startsWithIdentifier ts := by
  obtain ⟨_, hx, -⟩ := spells_head.mp h
  obtain ⟨a, rfl⟩ := spells_one.mp hx
  rfl

theorem constEntries_complete (h : IsConstants ks cs) (hs : Spells ts ks rest)
    (hrest : ¬ startsWithIdentifier rest) : Yields (constEntries ts) cs rest := by
  induction h generalizing ts with
  | one hv =>
    have hentry := yields_constEntry (c := (_, _)).mpr ⟨_, hs, hv⟩
    exact yields_constEntries.mpr ⟨_, rest, hentry, .inr ⟨hrest, rfl, rfl⟩⟩
  | @more ks v ls cs x hv hcs ih =>
    obtain ⟨mid, hks, hls⟩ :
        ∃ mid, Spells ts (.ident x :: .sign .eq :: (ks ++ [.sign .semicolon])) mid ∧
          Spells mid ls rest := by
      apply spells_append.mp
      simpa using hs
    have hentry := yields_constEntry (c := (x, v)).mpr ⟨ks, hks, hv⟩
    have hstarts : startsWithIdentifier mid := by
      cases hcs <;> exact startsWithIdentifier_of_spells hls
    exact yields_constEntries.mpr ⟨_, mid, hentry, .inl ⟨hstarts, cs, ih hls, rfl⟩⟩

-- ---------------------------------------------------------------------------
-- Variables
-- ---------------------------------------------------------------------------

theorem yields_nameList : Yields (nameList ts) () rest ↔
    ∃ x mid, Spells ts [.ident x] mid ∧
      ((∃ next, Spells mid [.sign .comma] next ∧ Yields (nameList next) () rest) ∨
        (Ahead (· ≠ .sign .comma) mid ∧ mid = rest)) := by
  rw [nameList]
  simp only [yields_bind, yields_identifier]
  refine exists₂_congr fun x mid => ?_
  rw [← exists_prop]
  refine exists_congr fun hx => ?_
  split
  · next heq =>
    cases mid with
    | nil => cases heq
    | cons t mid =>
      cases heq
      simp only [yields_bind, yields_pure, Parsed.next, spells_one, ahead_cons]
      grind
  · next hne =>
    have hahead : Ahead (· ≠ .sign .comma) mid := by
      rw [ahead_ne_iff]
      rintro a next rfl
      exact hne _ _ rfl
    simp [hahead, hahead.not_spells, Parsed.map]

theorem nameList_sound (ts : List Token) (h : Yields (nameList ts) () rest) :
    ∃ ks, Spells ts ks rest ∧ IsNames ks := by
  obtain ⟨x, mid, hx, ⟨next, hcomma, hnext⟩ | ⟨-, rfl⟩⟩ := yields_nameList.mp h
  · have hmid := hx.fewer
    have hmid' := hcomma.fewer
    obtain ⟨ks, hks, hnames⟩ := nameList_sound next hnext
    exact ⟨_, hx.trans (hcomma.trans hks), .more hnames⟩
  · exact ⟨_, hx, .one⟩
termination_by ts.length

theorem nameList_complete (h : IsNames ks) (hs : Spells ts ks rest)
    (hrest : Ahead (· ≠ .sign .comma) rest) : Yields (nameList ts) () rest := by
  induction h generalizing ts with
  | one => exact yields_nameList.mpr ⟨_, rest, hs, .inr ⟨hrest, rfl⟩⟩
  | more hnames ih =>
    obtain ⟨mid, hx, hmid⟩ := spells_head.mp hs
    obtain ⟨next, hcomma, hnext⟩ := spells_head.mp hmid
    exact yields_nameList.mpr ⟨_, mid, hx, .inl ⟨next, hcomma, ih hnext⟩⟩

theorem yields_varEntry : Yields (varEntry ts) () rest ↔
    ∃ ks type, Spells ts (ks ++ [.sign .colon, .ident type, .sign .semicolon]) rest ∧
      IsNames ks := by
  rw [varEntry]
  simp only [yields_bind, yields_pure, yields_identifier, yields_sign, Parsed.next]
  constructor
  · rintro ⟨_, mid, hnames, _, _, hcolon, type, _, htype, _, _, hclose, -, rfl⟩
    obtain ⟨ks, hks, hnames'⟩ := nameList_sound ts hnames
    exact ⟨ks, type, hks.trans (hcolon.trans (htype.trans hclose)), hnames'⟩
  · rintro ⟨ks, type, hs, hnames⟩
    obtain ⟨mid, hks, hs⟩ := spells_append.mp hs
    obtain ⟨_, hcolon, hs⟩ := spells_head.mp hs
    obtain ⟨_, htype, hclose⟩ := spells_head.mp hs
    have hahead : Ahead (· ≠ .sign .comma) mid := ahead_of_spells hcolon (by simp)
    exact ⟨(), mid, nameList_complete hnames hks hahead, (), _, hcolon, type, _, htype, (), _,
      hclose, trivial, rfl⟩

theorem yields_varEntries : Yields (varEntries ts) () rest ↔
    ∃ mid, Yields (varEntry ts) () mid ∧
      ((startsWithIdentifier mid ∧ Yields (varEntries mid) () rest) ∨
        (¬ startsWithIdentifier mid ∧ mid = rest)) := by
  rw [varEntries]
  simp only [yields_bind]
  constructor
  · rintro ⟨_, mid, hentry, h⟩
    refine ⟨mid, hentry, ?_⟩
    split at h
    · next hstarts =>
      simp only [yields_bind, yields_pure, Parsed.next] at h
      obtain ⟨_, _, hmore, -, rfl⟩ := h
      exact .inl ⟨hstarts, hmore⟩
    · next hstarts => exact .inr ⟨hstarts, (yields_pure.mp h).2⟩
  · rintro ⟨mid, hentry, ⟨hstarts, hmore⟩ | ⟨hstarts, rfl⟩⟩
    · refine ⟨(), mid, hentry, ?_⟩
      rw [if_pos hstarts]
      exact yields_bind.mpr ⟨(), rest, hmore, yields_pure.mpr ⟨rfl, rfl⟩⟩
    · refine ⟨(), mid, hentry, ?_⟩
      rw [if_neg hstarts]
      exact yields_pure.mpr ⟨rfl, rfl⟩

theorem varEntries_sound (ts : List Token) (h : Yields (varEntries ts) () rest) :
    ∃ ks, Spells ts ks rest ∧ IsVars ks := by
  obtain ⟨mid, hentry, h⟩ := yields_varEntries.mp h
  obtain ⟨ks, type, hks, hnames⟩ := yields_varEntry.mp hentry
  obtain ⟨-, hmore⟩ | ⟨-, rfl⟩ := h
  · have hmid := hentry.fewer
    obtain ⟨ls, hls, hvars⟩ := varEntries_sound mid hmore
    refine ⟨ks ++ .sign .colon :: .ident type :: .sign .semicolon :: ls, ?_, .more hnames hvars⟩
    simpa using hks.trans hls
  · exact ⟨_, hks, .one hnames⟩
termination_by ts.length

theorem startsWithIdentifier_of_isVars (h : IsVars ks) (hs : Spells ts ks rest) :
    startsWithIdentifier ts := by
  cases h with
  | one hnames => cases hnames <;> exact startsWithIdentifier_of_spells hs
  | more hnames => cases hnames <;> exact startsWithIdentifier_of_spells hs

theorem varEntries_complete (h : IsVars ks) (hs : Spells ts ks rest)
    (hrest : ¬ startsWithIdentifier rest) : Yields (varEntries ts) () rest := by
  induction h generalizing ts with
  | one hnames =>
    have hentry := yields_varEntry.mpr ⟨_, _, hs, hnames⟩
    exact yields_varEntries.mpr ⟨rest, hentry, .inr ⟨hrest, rfl⟩⟩
  | @more ks ls type hnames hvars ih =>
    obtain ⟨mid, hks, hls⟩ :
        ∃ mid, Spells ts (ks ++ [.sign .colon, .ident type, .sign .semicolon]) mid ∧
          Spells mid ls rest := by
      apply spells_append.mp
      simpa using hs
    have hentry := yields_varEntry.mpr ⟨ks, type, hks, hnames⟩
    have hstarts := startsWithIdentifier_of_isVars hvars hls
    exact yields_varEntries.mpr ⟨mid, hentry, .inl ⟨hstarts, ih hls⟩⟩

-- ---------------------------------------------------------------------------
-- Requirements
-- ---------------------------------------------------------------------------

/-- The tail goes on with the path in front of it. -/
theorem pathTail_sound (hs : Spells front ks ts) (h : IsPath ks p) :
    ∃ ls, Spells front ls (pathTail p ts).rest ∧ IsPath ls (pathTail p ts).value := by
  fun_induction pathTail p ts generalizing ks with
  | case1 p a x b rest ih =>
    have hmore : Spells front (ks ++ [.sign .dot, .ident x]) rest :=
      hs.trans (by simp)
    exact ih hmore (.more h)
  | case2 p ts => exact ⟨ks, hs, h⟩

theorem pathTail_of_spells (h : Spells ts [.sign .dot, .ident x] rest) :
    (pathTail p ts).value = (pathTail (p ++ "." ++ x) rest).value ∧
      (pathTail p ts).rest = (pathTail (p ++ "." ++ x) rest).rest := by
  obtain ⟨_, hdot, hx⟩ := spells_head.mp h
  obtain ⟨b, rfl⟩ := spells_one.mp hx
  obtain ⟨a, rfl⟩ := spells_one.mp hdot
  rw [pathTail]
  exact ⟨rfl, rfl⟩

theorem path_continue (h : IsPath ks p) (hs : Spells ts ks mid)
    (hvalue : (pathTail p mid).value = q) (hrest : (pathTail p mid).rest = rest) :
    Yields (path ts) q rest := by
  induction h generalizing mid with
  | one =>
    rw [path]
    simp only [yields_bind, yields_pure, yields_identifier, Parsed.nextMay]
    exact ⟨_, mid, hs, hvalue, hrest⟩
  | more hpath ih =>
    obtain ⟨mid', hks, hmid'⟩ := spells_append.mp hs
    obtain ⟨hvalue', hrest'⟩ := pathTail_of_spells hmid'
    exact ih hks (hvalue'.trans hvalue) (hrest'.trans hrest)

theorem path_sound (h : Yields (path ts) p rest) : ∃ ks, Spells ts ks rest ∧ IsPath ks p := by
  rw [path] at h
  simp only [yields_bind, yields_pure, yields_identifier, Parsed.nextMay] at h
  obtain ⟨x, mid, hx, rfl, rfl⟩ := h
  exact pathTail_sound hx .one

theorem path_complete (h : IsPath ks p) (hs : Spells ts ks rest)
    (hrest : Ahead (· ≠ .sign .dot) rest) : Yields (path ts) p rest := by
  have hstop : pathTail p rest = .nothing p := by
    rw [pathTail.eq_def]
    split
    · exact absurd rfl (ahead_cons.mp hrest)
    · rfl
  exact path_continue h hs (by rw [hstop]; rfl) (by rw [hstop]; rfl)

theorem yields_tierPath : Yields (tierPath ts) tier rest ↔
    ∃ p, Yields (path ts) p rest ∧ Tier.ofText? p = some tier := by
  rw [tierPath]
  simp only [yields_bind]
  constructor
  · rintro ⟨p, mid, hp, h⟩
    split at h
    · next htier =>
      obtain ⟨rfl, rfl⟩ := yields_pure.mp h
      exact ⟨p, hp, htier⟩
    · simp at h
    · simp at h
  · rintro ⟨p, hp, htier⟩
    refine ⟨p, rest, hp, ?_⟩
    simp [htier, Parsed.map]

theorem yields_requirement : Yields (requirement ts) r rest ↔
    ∃ tier mid, Yields (tierPath ts) tier mid ∧
      ((∃ next extension, Spells mid [.keyword .via] next ∧ Yields (path next) extension rest ∧
          ⟨tier, some extension⟩ = r) ∨
        (Ahead (· ≠ .keyword .via) mid ∧ ⟨tier, none⟩ = r ∧ mid = rest)) := by
  rw [requirement]
  simp only [yields_bind]
  refine exists₂_congr fun tier mid => ?_
  rw [← exists_prop]
  refine exists_congr fun htier => ?_
  split
  · next heq =>
    cases mid with
    | nil => cases heq
    | cons t mid =>
      cases heq
      simp only [yields_bind, yields_pure, Parsed.next, Parsed.map, spells_one, ahead_cons]
      grind
  · next hne =>
    have hahead : Ahead (· ≠ .keyword .via) mid := by
      rw [ahead_ne_iff]
      rintro a next rfl
      exact hne _ _ rfl
    simp [hahead, hahead.not_spells, Parsed.map]

theorem requirement_sound (h : Yields (requirement ts) r rest) :
    ∃ ks, Spells ts ks rest ∧
      IsRequirement (.keyword .requires :: (ks ++ [.sign .semicolon])) r.tier r.extension? := by
  obtain ⟨tier, _, htier, hvia⟩ := yields_requirement.mp h
  obtain ⟨p, hp, hp'⟩ := yields_tierPath.mp htier
  obtain ⟨ks, hks, hpath⟩ := path_sound hp
  obtain ⟨_, extension, hvia, hext, rfl⟩ | ⟨-, rfl, rfl⟩ := hvia
  · obtain ⟨ls, hls, hpath'⟩ := path_sound hext
    exact ⟨_, hks.trans (hvia.trans hls), by simpa using .via hpath hp' hpath'⟩
  · exact ⟨_, hks, .tier hpath hp'⟩

theorem optionalRequirement_sound (h : Yields (optionalRequirement ts) r rest) :
    ∃ ks, Spells ts ks rest ∧ IsRequirement ks r.tier r.extension? := by
  unfold optionalRequirement at h
  split at h
  · simp only [yields_bind, yields_pure, yields_sign, Parsed.next, Parsed.behind, Parsed.relax,
      Parsed.map] at h
    obtain ⟨r, mid, hr, _, _, hclose, rfl, rfl⟩ := h
    obtain ⟨ks, hks, hr'⟩ := requirement_sound hr
    exact ⟨_, spells_cons_cons.mpr ⟨rfl, hks.trans hclose⟩, hr'⟩
  · obtain ⟨rfl, rfl⟩ := yields_ok.mp h
    exact ⟨[], spells_nil.mpr rfl, .none⟩

theorem optionalRequirement_complete (h : IsRequirement ks tier extension?)
    (hs : Spells ts ks rest) (hrest : Ahead (· ≠ .keyword .requires) rest) :
    Yields (optionalRequirement ts) ⟨tier, extension?⟩ rest := by
  cases h with
  | none =>
    obtain rfl := spells_nil.mp hs
    unfold optionalRequirement
    split
    · exact absurd rfl (ahead_cons.mp hrest)
    · exact yields_ok.mpr ⟨rfl, rfl⟩
  | tier hpath htier =>
    obtain ⟨next, hrequires, hnext⟩ := spells_head.mp hs
    obtain ⟨mid, hks, hclose⟩ := spells_append.mp hnext
    have hp := path_complete hpath hks (ahead_of_spells hclose nofun)
    have hr := yields_requirement.mpr ⟨_, mid, yields_tierPath.mpr ⟨_, hp, htier⟩,
      .inr ⟨ahead_of_spells hclose nofun, rfl, rfl⟩⟩
    obtain ⟨a, rfl⟩ := spells_one.mp hrequires
    refine yields_bind.mpr ⟨_, mid, hr, ?_⟩
    exact yields_bind.mpr ⟨(), rest, yields_sign.mpr hclose, yields_pure.mpr ⟨rfl, rfl⟩⟩
  | via hpath htier hpath' =>
    obtain ⟨next, hrequires, hnext⟩ := spells_head.mp hs
    obtain ⟨mid, hks, hmid⟩ := spells_append.mp hnext
    obtain ⟨next', hvia, hnext'⟩ := spells_head.mp hmid
    obtain ⟨mid', hls, hclose⟩ := spells_append.mp hnext'
    have hp := path_complete hpath hks (ahead_of_spells hvia nofun)
    have hp' := path_complete hpath' hls (ahead_of_spells hclose nofun)
    have hr := yields_requirement.mpr ⟨_, mid, yields_tierPath.mpr ⟨_, hp, htier⟩,
      .inl ⟨next', _, hvia, hp', rfl⟩⟩
    obtain ⟨a, rfl⟩ := spells_one.mp hrequires
    refine yields_bind.mpr ⟨_, mid', hr, ?_⟩
    exact yields_bind.mpr ⟨(), rest, yields_sign.mpr hclose, yields_pure.mpr ⟨rfl, rfl⟩⟩

-- ---------------------------------------------------------------------------
-- Procedures
-- ---------------------------------------------------------------------------

theorem optionalParens_sound (h : Yields (optionalParens ts) () rest) :
    ∃ ks, Spells ts ks rest ∧ IsParens ks := by
  unfold optionalParens at h
  split at h
  · simp only [yields_bind, yields_pure, yields_sign, Parsed.behind, Parsed.relax] at h
    obtain ⟨_, _, hclose, -, rfl⟩ := h
    exact ⟨_, spells_cons_cons.mpr ⟨rfl, hclose⟩, .some⟩
  · exact ⟨[], spells_nil.mpr (yields_ok.mp h).2, .none⟩

theorem optionalParens_complete (h : IsParens ks) (hs : Spells ts ks rest)
    (hrest : Ahead (· ≠ .sign .openParen) rest) : Yields (optionalParens ts) () rest := by
  cases h with
  | none =>
    obtain rfl := spells_nil.mp hs
    unfold optionalParens
    split
    · exact absurd rfl (ahead_cons.mp hrest)
    · exact yields_ok.mpr ⟨rfl, rfl⟩
  | some =>
    obtain ⟨_, hopen, hclose⟩ := spells_head.mp hs
    obtain ⟨a, rfl⟩ := spells_one.mp hopen
    exact yields_bind.mpr ⟨(), rest, yields_sign.mpr hclose, yields_pure.mpr ⟨rfl, rfl⟩⟩

theorem yields_procedure : Yields (procedure ts) r rest ↔
    ∃ ks, Spells ts ks rest ∧ IsProcedure (.keyword .procedure :: ks) r := by
  rw [procedure]
  simp only [yields_bind, yields_pure, yields_identifier, yields_sign, yields_block_iff,
    Parsed.next, Parsed.nextMay, Parsed.map]
  constructor
  · rintro ⟨name, _, hname, _, _, hparens, _, _, hsemicolon, needs, _, hneeds, body, _,
      ⟨bs, hbs, hbody⟩, _, _, hclose, rfl, rfl⟩
    obtain ⟨ps, hps, hparens'⟩ := optionalParens_sound hparens
    obtain ⟨rs, hrs, hneeds'⟩ := optionalRequirement_sound hneeds
    exact ⟨_, hname.trans (hps.trans (hsemicolon.trans (hrs.trans (hbs.trans hclose)))),
      .intro hparens' hneeds' hbody⟩
  · rintro ⟨ks, hs, h⟩
    cases h with
    | @intro ps rs tier extension? bs body name hparens hneeds hbody =>
      obtain ⟨_, hname, hs⟩ := spells_head.mp hs
      obtain ⟨_, hps, hs⟩ := spells_append.mp hs
      obtain ⟨_, hsemicolon, hs⟩ := spells_head.mp hs
      obtain ⟨_, hrs, hs⟩ := spells_append.mp hs
      obtain ⟨_, hbs, hclose⟩ := spells_append.mp hs
      have hparens' := optionalParens_complete hparens hps (ahead_of_spells hsemicolon nofun)
      have hneeds' := optionalRequirement_complete hneeds hrs (isBlock_ahead hbody hbs nofun)
      exact ⟨name, _, hname, (), _, hparens', (), _, hsemicolon, _, _, hneeds', body, _,
        ⟨bs, hbs, hbody⟩, (), _, hclose, rfl, rfl⟩

-- ---------------------------------------------------------------------------
-- Declarations
-- ---------------------------------------------------------------------------

/-- How a group of declarations was read, told by its keyword. -/
inductive DeclarationRead (ts rest : List Token) : Declarations → Prop
  | const : Spells ts [.keyword .const] next → Yields (constEntries next) cs rest →
      DeclarationRead ts rest ⟨cs, []⟩
  | var : Spells ts [.keyword .var] next → Yields (varEntries next) () rest →
      DeclarationRead ts rest ⟨[], []⟩
  | procedure : Spells ts [.keyword .procedure] next → Yields (procedure next) r rest →
      DeclarationRead ts rest ⟨[], [r]⟩

theorem declarationRead_of_yields {rule : Reads Declarations ts}
    (hrule : declaration? ts = some rule) (h : Yields rule d rest) : DeclarationRead ts rest d := by
  unfold declaration? at hrule
  split at hrule
  · cases hrule
    simp only [yields_bind, yields_pure, Parsed.behind, Parsed.map] at h
    obtain ⟨cs, _, hcs, rfl, rfl⟩ := h
    exact .const (by simp) hcs
  · cases hrule
    simp only [yields_bind, yields_pure, Parsed.behind, Parsed.map] at h
    obtain ⟨_, _, hvars, rfl, rfl⟩ := h
    exact .var (by simp) hvars
  · cases hrule
    simp only [yields_bind, yields_pure, Parsed.behind, Parsed.map] at h
    obtain ⟨r, _, hr, rfl, rfl⟩ := h
    exact .procedure (by simp) hr
  · cases hrule

theorem DeclarationRead.yields (h : DeclarationRead ts rest d) :
    ∃ rule, declaration? ts = some rule ∧ Yields rule d rest := by
  cases h with
  | const hts hcs =>
    obtain ⟨a, rfl⟩ := spells_one.mp hts
    exact ⟨_, rfl, yields_bind.mpr ⟨_, rest, hcs, yields_pure.mpr ⟨rfl, rfl⟩⟩⟩
  | var hts hvars =>
    obtain ⟨a, rfl⟩ := spells_one.mp hts
    exact ⟨_, rfl, yields_bind.mpr ⟨(), rest, hvars, yields_pure.mpr ⟨rfl, rfl⟩⟩⟩
  | procedure hts hr =>
    obtain ⟨a, rfl⟩ := spells_one.mp hts
    exact ⟨_, rfl, yields_bind.mpr ⟨_, rest, hr, yields_pure.mpr ⟨rfl, rfl⟩⟩⟩

theorem yields_declarations : Yields (declarations ts) d rest ↔
    (∃ d₁ mid d₂, DeclarationRead ts mid d₁ ∧ Yields (declarations mid) d₂ rest ∧
      ⟨d₁.constants ++ d₂.constants, d₁.routines ++ d₂.routines⟩ = d) ∨
    (declaration? ts = none ∧ ⟨[], []⟩ = d ∧ ts = rest) := by
  rw [declarations]
  split
  · next hnone =>
    simp only [yields_ok, Parsed.nothing, hnone, true_and]
    constructor
    · exact .inr
    · rintro (⟨_, _, _, hread, -⟩ | h)
      · obtain ⟨_, hsome, -⟩ := hread.yields
        rw [hnone] at hsome
        cases hsome
      · exact h
  · next rule hsome =>
    simp only [yields_bind, yields_pure, Parsed.nextMay, Parsed.relax, Parsed.map]
    constructor
    · rintro ⟨d₁, mid, hread, d₂, _, hmore, rfl, rfl⟩
      exact .inl ⟨d₁, mid, d₂, declarationRead_of_yields hsome hread, hmore, rfl⟩
    · rintro (⟨d₁, mid, d₂, hread, hmore, rfl⟩ | ⟨hnone, -⟩)
      · obtain ⟨_, hsome', hread'⟩ := hread.yields
        rw [hsome] at hsome'
        cases hsome'
        exact ⟨d₁, mid, hread', d₂, rest, hmore, rfl, rfl⟩
      · rw [hsome] at hnone
        cases hnone

theorem declarations_sound (ts : List Token) (h : Yields (declarations ts) d rest) :
    ∃ ks, Spells ts ks rest ∧ IsDeclarations ks d.constants d.routines := by
  obtain ⟨d₁, mid, d₂, hread, hmore, rfl⟩ | ⟨-, rfl, rfl⟩ := yields_declarations.mp h
  · cases hread with
    | const hts hcs =>
      have hnext := hts.fewer
      have hmid := hcs.fewer
      obtain ⟨ks, hks, hcs'⟩ := constEntries_sound _ hcs
      obtain ⟨ls, hls, hds⟩ := declarations_sound mid hmore
      exact ⟨.keyword .const :: (ks ++ ls), hts.trans (hks.trans hls), .const hcs' hds⟩
    | var hts hvars =>
      have hnext := hts.fewer
      have hmid := hvars.fewer
      obtain ⟨ks, hks, hvars'⟩ := varEntries_sound _ hvars
      obtain ⟨ls, hls, hds⟩ := declarations_sound mid hmore
      exact ⟨.keyword .var :: (ks ++ ls), hts.trans (hks.trans hls), .var hvars' hds⟩
    | procedure hts hr =>
      have hnext := hts.fewer
      have hmid := hr.fewer
      obtain ⟨ks, hks, hr'⟩ := yields_procedure.mp hr
      obtain ⟨ls, hls, hds⟩ := declarations_sound mid hmore
      exact ⟨(.keyword .procedure :: ks) ++ ls, hts.trans (hks.trans hls), .procedure hr' hds⟩
  · exact ⟨[], spells_nil.mpr rfl, .none⟩
termination_by ts.length

/-- Declarations start with one of three keywords, if there are any. -/
theorem isDeclarations_ahead (h : IsDeclarations ks cs rs) (hs : Spells ts ks rest)
    (hrest : Ahead p rest) (hconst : p (.keyword .const)) (hvar : p (.keyword .var))
    (hprocedure : p (.keyword .procedure)) : Ahead p ts := by
  cases h with
  | none =>
    obtain rfl := spells_nil.mp hs
    exact hrest
  | const => exact ahead_of_spells hs hconst
  | var => exact ahead_of_spells hs hvar
  | procedure hr =>
    cases hr with
    | intro => exact ahead_of_spells hs hprocedure

theorem not_startsWithIdentifier (h : Ahead (∀ x, · ≠ .ident x) ts) :
    ¬ startsWithIdentifier ts := by
  intro hstarts
  unfold startsWithIdentifier at hstarts
  split at hstarts
  · exact ahead_cons.mp h _ rfl
  · cases hstarts

theorem declaration?_eq_none (h : Ahead (· = .keyword .begin) ts) : declaration? ts = none := by
  cases ts with
  | nil => rfl
  | cons t ts =>
    obtain ⟨_, a⟩ := t
    obtain rfl := ahead_cons.mp h
    rfl

theorem declarations_complete (h : IsDeclarations ks cs rs) (hs : Spells ts ks rest)
    (hrest : Ahead (· = .keyword .begin) rest) : Yields (declarations ts) ⟨cs, rs⟩ rest := by
  -- What follows a section is no name, so the section ends there.
  have hnames : Ahead (∀ x, · ≠ .ident x) rest := hrest.mono (by rintro _ rfl; nofun)
  induction h generalizing ts with
  | none =>
    obtain rfl := spells_nil.mp hs
    exact yields_declarations.mpr (.inr ⟨declaration?_eq_none hrest, rfl, rfl⟩)
  | const hcs hds ih =>
    obtain ⟨next, hkeyword, hnext⟩ := spells_head.mp hs
    obtain ⟨mid, hks, hls⟩ := spells_append.mp hnext
    have hahead := isDeclarations_ahead hds hls hnames nofun nofun nofun
    have hread := constEntries_complete hcs hks (not_startsWithIdentifier hahead)
    exact yields_declarations.mpr (.inl ⟨_, mid, _, .const hkeyword hread, ih hls, rfl⟩)
  | var hvars hds ih =>
    obtain ⟨next, hkeyword, hnext⟩ := spells_head.mp hs
    obtain ⟨mid, hks, hls⟩ := spells_append.mp hnext
    have hahead := isDeclarations_ahead hds hls hnames nofun nofun nofun
    have hread := varEntries_complete hvars hks (not_startsWithIdentifier hahead)
    exact yields_declarations.mpr (.inl ⟨_, mid, _, .var hkeyword hread, ih hls, rfl⟩)
  | @procedure ks r ls cs rs hr hds ih =>
    obtain ⟨mid, hks, hls⟩ := spells_append.mp hs
    obtain ⟨next, hkeyword, hread⟩ : ∃ next, Spells ts [.keyword .procedure] next ∧
        Yields (procedure next) r mid := by
      cases hr with
      | intro hparens hneeds hbody =>
        obtain ⟨next, hkeyword, hnext⟩ := spells_head.mp hks
        exact ⟨next, hkeyword, yields_procedure.mpr ⟨_, hnext, .intro hparens hneeds hbody⟩⟩
    exact yields_declarations.mpr (.inl ⟨_, mid, _, .procedure hkeyword hread, ih hls, rfl⟩)

-- ---------------------------------------------------------------------------
-- Programs
-- ---------------------------------------------------------------------------

theorem header_sound (h : Yields (header ts) name rest) :
    ∃ ks, Spells ts ks rest ∧ IsHeader ks name := by
  unfold header at h
  split at h
  · simp only [yields_bind, yields_pure, yields_identifier, yields_sign, Parsed.next,
      Parsed.behind, Parsed.relax, Parsed.map] at h
    obtain ⟨name, _, hname, _, _, hclose, rfl, rfl⟩ := h
    exact ⟨_, spells_cons_cons.mpr ⟨rfl, hname.trans hclose⟩, .some⟩
  · obtain ⟨rfl, rfl⟩ := yields_ok.mp h
    exact ⟨[], spells_nil.mpr rfl, .none⟩

theorem header_complete (h : IsHeader ks name) (hs : Spells ts ks rest)
    (hrest : Ahead (· ≠ .keyword .program) rest) : Yields (header ts) name rest := by
  cases h with
  | none =>
    obtain rfl := spells_nil.mp hs
    unfold header
    split
    · exact absurd rfl (ahead_cons.mp hrest)
    · exact yields_ok.mpr ⟨rfl, rfl⟩
  | some =>
    obtain ⟨_, hprogram, hs⟩ := spells_head.mp hs
    obtain ⟨_, hname, hclose⟩ := spells_head.mp hs
    obtain ⟨a, rfl⟩ := spells_one.mp hprogram
    refine yields_bind.mpr ⟨_, _, yields_identifier.mpr hname, ?_⟩
    exact yields_bind.mpr ⟨(), rest, yields_sign.mpr hclose, yields_pure.mpr ⟨rfl, rfl⟩⟩

theorem parseTokens_eq_ok : parseTokens ts = .ok p ↔
    ∃ name mid d mid' body mid'', Yields (header ts) name mid ∧
      Yields (declarations mid) d mid' ∧ Yields (block mid') body mid'' ∧
      Spells mid'' [.sign .dot] [] ∧
      { constants := d.constants
        modules := [⟨name, d.routines ++ [{ name := mainName, body := body }]⟩] } = p := by
  rw [parseTokens]
  simp only [bind_eq_ok, yields_sign]
  constructor
  · rintro ⟨name, mid, hname, d, mid', hd, body, mid'', hbody, _, end_, hdot, h⟩
    split at h
    · cases h
      exact ⟨name, mid, d, mid', body, mid'', hname, hd, hbody, hdot, rfl⟩
    · cases h
  · rintro ⟨name, mid, d, mid', body, mid'', hname, hd, hbody, hdot, rfl⟩
    exact ⟨name, mid, hname, d, mid', hd, body, mid'', hbody, (), [], hdot, rfl⟩

theorem parseTokens_sound (h : parseTokens ts = .ok p) : IsProgram (kinds ts) p := by
  obtain ⟨name, mid, d, mid', body, mid'', hname, hd, hbody, hdot, rfl⟩ := parseTokens_eq_ok.mp h
  obtain ⟨hs, hhs, hname'⟩ := header_sound hname
  obtain ⟨ds, hds, hd'⟩ := declarations_sound mid hd
  obtain ⟨bs, hbs, hbody'⟩ := yields_block_iff.mp hbody
  rw [← (hhs.trans (hds.trans (hbs.trans hdot))).eq_kinds]
  exact .intro hname' hd' hbody'

theorem parseTokens_complete (h : IsProgram ks p) (hs : Spells ts ks []) :
    parseTokens ts = .ok p := by
  cases h with
  | intro hname hd hbody =>
    obtain ⟨mid, hhs, hs⟩ := spells_append.mp hs
    obtain ⟨mid', hds, hs⟩ := spells_append.mp hs
    obtain ⟨mid'', hbs, hdot⟩ := spells_append.mp hs
    have hbegin : Ahead (· = .keyword .begin) mid' := isBlock_ahead hbody hbs rfl
    have hahead : Ahead (· ≠ .keyword .program) mid :=
      isDeclarations_ahead hd hds (isBlock_ahead hbody hbs nofun) nofun nofun nofun
    have hname' := header_complete hname hhs hahead
    have hd' := declarations_complete hd hds hbegin
    have hbody' := yields_block_iff.mpr ⟨_, hbs, hbody⟩
    exact parseTokens_eq_ok.mpr ⟨_, mid, _, mid', _, mid'', hname', hd', hbody', hdot, rfl⟩

/-- A token list is read as a program exactly if the grammar derives it, and then as the only
program that the grammar derives from it. -/
theorem parseTokens_eq_ok_iff_isProgram (ts : List Token) (p : Program) :
    (parseTokens ts = .ok p ↔ IsProgram (kinds ts) p) ∧
      (IsProgram (kinds ts) p → ∀ q, IsProgram (kinds ts) q → q = p) := by
  refine ⟨⟨parseTokens_sound, fun h => parseTokens_complete h (spells_self ts)⟩, ?_⟩
  intro hp q hq
  have hp' := parseTokens_complete hp (spells_self ts)
  have hq' := parseTokens_complete hq (spells_self ts)
  rw [hp'] at hq'
  cases hq'
  rfl

end Cartridge.Pascal
