import Cartridge.Pascal.Parser.Rule

/-!
# What a rule reads

`Spells` cuts a token list into the kinds of a phrase and the tokens behind it;
`Yields` says that a rule succeeded, with its value and the tokens it left. The
bound that a rule's answer carries is kept inside `Yields`, so statements about
rules speak of values and token lists only. The rules for one token come last.
-/

namespace Cartridge.Pascal

-- ---------------------------------------------------------------------------
-- Tokens in front of others
-- ---------------------------------------------------------------------------

/-- The kinds of tokens, without the places they were read from. -/
def kinds (ts : List Token) : List Kind :=
  ts.map Token.kind

/-- The tokens `ts` are tokens of the kinds `ks` and then `rest`. -/
def Spells (ts : List Token) (ks : List Kind) (rest : List Token) : Prop :=
  ∃ front, ts = front ++ rest ∧ kinds front = ks

@[simp] theorem spells_nil : Spells ts [] rest ↔ ts = rest := by
  constructor
  · rintro ⟨front, rfl, hk⟩
    obtain rfl : front = [] := by simpa [kinds] using hk
    rfl
  · rintro rfl
    exact ⟨[], rfl, rfl⟩

theorem spells_cons : Spells ts (k :: ks) rest ↔
    ∃ t ts', ts = t :: ts' ∧ t.kind = k ∧ Spells ts' ks rest := by
  constructor
  · rintro ⟨front, rfl, hk⟩
    cases front with
    | nil => simp [kinds] at hk
    | cons t front =>
      obtain ⟨rfl, rfl⟩ : t.kind = k ∧ kinds front = ks := by simpa [kinds] using hk
      exact ⟨t, front ++ rest, rfl, rfl, front, rfl, rfl⟩
  · rintro ⟨t, _, rfl, rfl, front, rfl, rfl⟩
    exact ⟨t :: front, rfl, rfl⟩

theorem spells_append : Spells ts (ks ++ ls) rest ↔
    ∃ mid, Spells ts ks mid ∧ Spells mid ls rest := by
  constructor
  · rintro ⟨front, rfl, hk⟩
    obtain ⟨f, g, rfl, rfl, rfl⟩ := List.map_eq_append_iff.mp hk
    exact ⟨g ++ rest, ⟨f, by simp, rfl⟩, g, rfl, rfl⟩
  · rintro ⟨_, ⟨f, rfl, rfl⟩, g, rfl, rfl⟩
    exact ⟨f ++ g, by simp, by simp [kinds]⟩

theorem spells_self (ts : List Token) : Spells ts (kinds ts) [] :=
  ⟨ts, by simp, rfl⟩

@[simp] theorem spells_cons_cons :
    Spells (t :: ts) (k :: ks) rest ↔ t.kind = k ∧ Spells ts ks rest := by
  rw [spells_cons]
  constructor
  · rintro ⟨_, _, ⟨⟩, hk, h⟩
    exact ⟨hk, h⟩
  · rintro ⟨hk, h⟩
    exact ⟨t, ts, rfl, hk, h⟩

theorem spells_one : Spells ts [k] rest ↔ ∃ a, ts = ⟨k, a⟩ :: rest := by
  rw [spells_cons]
  constructor
  · rintro ⟨⟨_, a⟩, _, rfl, rfl, h⟩
    exact ⟨a, by rw [spells_nil.mp h]⟩
  · rintro ⟨a, rfl⟩
    exact ⟨⟨k, a⟩, rest, rfl, rfl, spells_nil.mpr rfl⟩

theorem spells_head : Spells ts (k :: ks) rest ↔ ∃ mid, Spells ts [k] mid ∧ Spells mid ks rest := by
  rw [← List.singleton_append, spells_append]

theorem Spells.trans (h : Spells ts ks mid) (h' : Spells mid ls rest) :
    Spells ts (ks ++ ls) rest :=
  spells_append.mpr ⟨mid, h, h'⟩

theorem Spells.fewer (h : Spells ts (k :: ks) rest) : rest.length < ts.length := by
  obtain ⟨front, rfl, hk⟩ := h
  have : front ≠ [] := by
    rintro rfl
    cases hk
  simpa [List.length_pos_iff] using this

theorem Spells.eq_kinds (h : Spells ts ks []) : ks = kinds ts := by
  obtain ⟨front, rfl, rfl⟩ := h
  simp

/-- The first token, if there is one, is of a kind with the property `p`. -/
def Ahead (p : Kind → Prop) (ts : List Token) : Prop :=
  ∀ t ∈ ts.head?, p t.kind

@[simp] theorem ahead_nil : Ahead p [] :=
  fun _ h => (nomatch h)

@[simp] theorem ahead_cons : Ahead p (t :: ts) ↔ p t.kind := by
  simp [Ahead]

theorem ahead_of_spells (h : Spells ts (k :: ks) rest) (hk : p k) : Ahead p ts := by
  obtain ⟨t, _, rfl, rfl, -⟩ := spells_cons.mp h
  exact ahead_cons.mpr hk

theorem ahead_ne_iff : Ahead (· ≠ k) ts ↔ ∀ a next, ts ≠ ⟨k, a⟩ :: next := by
  constructor
  · rintro h a next rfl
    exact ahead_cons.mp h rfl
  · rintro h ⟨_, a⟩ ha rfl
    obtain ⟨next, rfl⟩ := List.head?_eq_some_iff.mp ha
    exact h a next rfl

theorem Ahead.not_spells (h : Ahead (· ≠ k) ts) : ¬ Spells ts (k :: ks) rest := by
  intro hs
  obtain ⟨t, _, rfl, hk, -⟩ := spells_cons.mp hs
  exact ahead_cons.mp h hk

theorem Ahead.mono (h : Ahead p ts) (hpq : ∀ k, p k → q k) : Ahead q ts :=
  fun t ht => hpq _ (h t ht)

-- ---------------------------------------------------------------------------
-- Answers of rules
-- ---------------------------------------------------------------------------

/-- A rule succeeded: it stands for `a` and left `rest`. -/
def Yields (r : Except Fault (Parsed Token α bound)) (a : α) (rest : List Token) : Prop :=
  ∃ h, r = .ok ⟨a, rest, h⟩

theorem Yields.fewer {r : Except Fault (Parsed Token α bound)} (h : Yields r a rest) :
    rest.length < bound :=
  h.1

@[simp] theorem yields_ok {p : Parsed Token α bound} :
    Yields (.ok p) a rest ↔ p.value = a ∧ p.rest = rest := by
  obtain ⟨value, left, hp⟩ := p
  constructor
  · rintro ⟨h, he⟩
    cases he
    exact ⟨rfl, rfl⟩
  · rintro ⟨rfl, rfl⟩
    exact ⟨hp, rfl⟩

@[simp] theorem yields_pure {p : Parsed Token α bound} :
    Yields (pure p) a rest ↔ p.value = a ∧ p.rest = rest :=
  yields_ok

@[simp] theorem yields_error {f : Fault} :
    Yields (.error f : Except Fault (Parsed Token α bound)) a rest ↔ False :=
  ⟨fun ⟨_, h⟩ => (nomatch h), False.elim⟩

/-- A rule and then anything that may fail in the same way. -/
theorem bind_eq_ok {x : Except Fault (Parsed Token α bound)}
    {f : Parsed Token α bound → Except Fault β} :
    (x >>= f) = .ok b ↔ ∃ a mid, ∃ hx : Yields x a mid, f ⟨a, mid, hx.fewer⟩ = .ok b := by
  cases x with
  | error e => simp [bind, Except.bind]
  | ok p =>
    obtain ⟨a, mid, h⟩ := p
    constructor
    · exact fun hf => ⟨a, mid, ⟨h, rfl⟩, hf⟩
    · rintro ⟨_, _, ⟨_, he⟩, hf⟩
      cases he
      exact hf

/-- Rules one after the other: the second reads what the first left. -/
@[simp] theorem yields_bind {x : Except Fault (Parsed Token α bound)}
    {f : Parsed Token α bound → Except Fault (Parsed Token β bound')} :
    Yields (x >>= f) b rest ↔
      ∃ a mid, ∃ hx : Yields x a mid, Yields (f ⟨a, mid, hx.fewer⟩) b rest := by
  constructor
  · rintro ⟨h, hok⟩
    obtain ⟨a, mid, hx, hf⟩ := bind_eq_ok.mp hok
    exact ⟨a, mid, hx, h, hf⟩
  · rintro ⟨a, mid, hx, h, hf⟩
    exact ⟨h, bind_eq_ok.mpr ⟨a, mid, hx, hf⟩⟩

@[simp] theorem yields_map {x : Except Fault (Parsed Token α bound)}
    {f : Parsed Token α bound → Parsed Token β bound'} :
    Yields (f <$> x) b rest ↔
      ∃ a mid, ∃ hx : Yields x a mid,
        (f ⟨a, mid, hx.fewer⟩).value = b ∧ (f ⟨a, mid, hx.fewer⟩).rest = rest := by
  rw [← bind_pure_comp]
  simp only [yields_bind, yields_pure]

-- ---------------------------------------------------------------------------
-- One token
-- ---------------------------------------------------------------------------

@[simp] theorem yields_token : Yields (token k ts) a rest ↔ Spells ts [k] rest := by
  simp only [spells_cons, spells_nil]
  constructor
  · intro h
    unfold token at h
    split at h
    · simp at h
    · split at h
      · next t ts hk =>
        simp only [Parsed.one, yields_ok, true_and] at h
        exact ⟨t, ts, rfl, hk, h⟩
      · simp at h
  · rintro ⟨t, _, rfl, rfl, rfl⟩
    simp [token, Parsed.one]

@[simp] theorem yields_identifier : Yields (identifier ts) x rest ↔ Spells ts [.ident x] rest := by
  simp only [spells_cons, spells_nil]
  constructor
  · intro h
    unfold identifier at h
    split at h
    · simp only [Parsed.one, yields_ok] at h
      obtain ⟨rfl, rfl⟩ := h
      exact ⟨_, _, rfl, rfl, rfl⟩
    · simp at h
  · rintro ⟨⟨kind, span⟩, _, rfl, rfl, rfl⟩
    simp [identifier, Parsed.one]

@[simp] theorem yields_sign : Yields (sign s ts) a rest ↔ Spells ts [.sign s] rest :=
  yields_token

@[simp] theorem yields_keyword : Yields (keyword k ts) a rest ↔ Spells ts [.keyword k] rest :=
  yields_token

end Cartridge.Pascal
