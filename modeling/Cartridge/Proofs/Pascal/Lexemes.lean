import Mathlib.Data.List.Infix
import Mathlib.Data.List.TakeWhile
import Mathlib.Data.String.Basic
import Cartridge.Proofs.Flat.Operand

/-!
# The longest match

`Shape` says which words a lexeme may be written as, and nothing about how a
text is read. What `classify` takes in front of a text has a shape, unless it is
an invalid character, and no longer piece in front of that text has one; so a
piece with a shape that stands alone is taken whole.
-/

namespace Cartridge.Pascal

-- ---------------------------------------------------------------------------
-- Shapes
-- ---------------------------------------------------------------------------

/-- What may follow the opening quote of a string, and the characters it stands for. -/
inductive Quoted : List Char → List Char → Prop
  | nil : Quoted [] []
  | pair : Quoted body content → Quoted ('\'' :: '\'' :: body) ('\'' :: content)
  | char : c ≠ '\'' → c ≠ '\n' → Quoted body content → Quoted (c :: body) (c :: content)

def closer : List Char := ['*', ')']

/-- The words that a lexeme may be written as. -/
inductive Shape : List Char → Lexeme → Prop
  | blanks : w ≠ [] → (∀ c ∈ w, isLayout c) → Shape w .skip
  | brace : '}' ∉ body → Shape ('{' :: (body ++ ['}'])) .skip
  | openBrace : '}' ∉ body → Shape ('{' :: body) (.fault .unterminatedComment)
  /-- The closer is the first one: there is none without the last parenthesis. -/
  | star : ¬ closer <:+: body ++ ['*'] → Shape ('(' :: '*' :: (body ++ closer)) .skip
  | openStar : ¬ closer <:+: body → Shape ('(' :: '*' :: body) (.fault .unterminatedComment)
  | line : '\n' ∉ body → Shape ('/' :: '/' :: body) .skip
  | string : Quoted body content →
      Shape ('\'' :: (body ++ ['\''])) (.token (.str (String.ofList content)))
  | openString : Quoted body content → Shape ('\'' :: body) (.fault .unterminatedString)
  | decimal : w ≠ [] → (∀ c ∈ w, c.isDigit) → Shape w (numberLexeme 10 w (String.ofList w))
  | hex : w ≠ [] → (∀ c ∈ w, Text.isDigitOf 16 c) →
      Shape ('$' :: w) (numberLexeme 16 w (String.ofList ('$' :: w)))
  | dollar : Shape ['$'] (.fault .missingHexDigits)
  | word : isWord x → Shape x.toList (.token (wordKind x))
  | sign (s : Sign) : Shape s.text.toList (.token (.sign s))

-- ---------------------------------------------------------------------------
-- Runs of characters
-- ---------------------------------------------------------------------------

theorem bne_of_notMem {d : Char} {w : List Char} (h : d ∉ w) : ∀ c ∈ w, (c != d) = true := by
  intro c hc
  rw [bne_iff_ne]
  rintro rfl
  exact h hc

theorem takeWhile_stop {p : Char → Bool} {w rest : List Char} (hall : ∀ c ∈ w, p c)
    (hstop : ∀ c ∈ rest.head?, p c = false) : (w ++ rest).takeWhile p = w := by
  rw [List.takeWhile_append_of_pos hall]
  cases rest with
  | nil => simp
  | cons c rest => simp [hstop c rfl]

-- ---------------------------------------------------------------------------
-- Strings and comments
-- ---------------------------------------------------------------------------

theorem stringReach_char (hquote : c ≠ '\'') (hline : c ≠ '\n') (cs : List Char) :
    stringReach (c :: cs) = ((stringReach cs).1 + 1, (stringReach cs).2) := by
  rw [stringReach.eq_def]
  split <;> simp_all

/-- Reading passes over what may follow an opening quote. -/
theorem stringReach_append (h : Quoted body content) (rest : List Char) :
    stringReach (body ++ rest) = (body.length + (stringReach rest).1, (stringReach rest).2) := by
  induction h with
  | nil => simp
  | pair _ ih =>
    simp only [List.cons_append, stringReach, ih, List.length_cons]
    congr 1
    omega
  | char hquote hline _ ih =>
    rw [List.cons_append, stringReach_char hquote hline, ih, List.length_cons]
    congr 1
    omega

/-- What stands quoted is its content with every quote written twice. -/
theorem Quoted.undoubled_eq (h : Quoted body content) : undoubled body = content := by
  induction h with
  | nil => rfl
  | pair _ ih => rw [undoubled, ih]
  | char hquote _ _ ih =>
    rw [undoubled.eq_def]
    split <;> simp_all

/-- A string is closed, or it ends before a newline or with the text. -/
theorem stringReach_cases (cs : List Char) :
    (∃ body content rest, cs = body ++ '\'' :: rest ∧ Quoted body content ∧
      stringReach cs = (body.length + 1, true)) ∨
    (∃ body content rest, cs = body ++ rest ∧ Quoted body content ∧
      stringReach cs = (body.length, false)) := by
  fun_induction stringReach cs with
  | case1 => exact .inr ⟨[], [], [], rfl, .nil, rfl⟩
  | case2 cs n closed hreach ih =>
    rw [hreach] at ih
    obtain ⟨body, _, rest, rfl, hbody, ⟨⟩⟩ | ⟨body, _, rest, rfl, hbody, ⟨⟩⟩ := ih
    · exact .inl ⟨_, _, rest, rfl, hbody.pair, rfl⟩
    · exact .inr ⟨_, _, rest, rfl, hbody.pair, rfl⟩
  | case3 rest => exact .inl ⟨[], [], rest, rfl, .nil, rfl⟩
  | case4 rest => exact .inr ⟨[], [], '\n' :: rest, rfl, .nil, rfl⟩
  | case5 c cs _ hquote hline n closed hreach ih =>
    rw [hreach] at ih
    obtain ⟨body, _, rest, rfl, hbody, ⟨⟩⟩ | ⟨body, _, rest, rfl, hbody, ⟨⟩⟩ := ih
    · exact .inl ⟨_, _, rest, rfl, hbody.char hquote hline, rfl⟩
    · exact .inr ⟨_, _, rest, rfl, hbody.char hquote hline, rfl⟩

theorem starCloser?_cons (h : ¬ closer <+: c :: cs) :
    starCloser? (c :: cs) = (starCloser? cs).map (· + 1) := by
  rw [starCloser?.eq_def]
  split <;> simp_all [closer]

theorem starCloser?_eq_none (h : ¬ closer <:+: cs) : starCloser? cs = none := by
  induction cs with
  | nil => rfl
  | cons c cs ih =>
    obtain ⟨hhere, hlater⟩ := not_or.mp (mt List.infix_cons_iff.mpr h)
    simp [starCloser?_cons hhere, ih hlater]

theorem closer_prefix_iff (rest : List Char) :
    closer <+: c :: (body ++ closer ++ rest) ↔ closer <+: c :: (body ++ ['*']) := by
  cases body <;> simp [closer]

theorem starCloser?_first (h : ¬ closer <:+: body ++ ['*']) (rest : List Char) :
    starCloser? (body ++ closer ++ rest) = some (body.length + 2) := by
  induction body with
  | nil => rfl
  | cons c body ih =>
    obtain ⟨hhere, hlater⟩ := not_or.mp (mt List.infix_cons_iff.mpr h)
    have hhere := mt (closer_prefix_iff rest).mp hhere
    rw [List.cons_append, List.cons_append, starCloser?_cons hhere, ih hlater]
    rfl

theorem closer_cases (cs : List Char) :
    (∃ body rest, cs = body ++ closer ++ rest ∧ ¬ closer <:+: body ++ ['*']) ∨
      ¬ closer <:+: cs := by
  induction cs with
  | nil => exact .inr (by simp [closer])
  | cons c cs ih =>
    by_cases hhere : closer <+: c :: cs
    · obtain ⟨rest, hrest⟩ := hhere
      refine .inl ⟨[], rest, hrest.symm, by simp [closer, List.infix_cons_iff]⟩
    · obtain ⟨body, rest, rfl, hbody⟩ | hnone := ih
      · refine .inl ⟨c :: body, rest, rfl, fun hinfix => ?_⟩
        obtain hfirst | hlater := List.infix_cons_iff.mp hinfix
        · exact hhere ((closer_prefix_iff rest).mpr hfirst)
        · exact hbody hlater
      · exact .inr fun hinfix => (List.infix_cons_iff.mp hinfix).elim hhere hnone

-- ---------------------------------------------------------------------------
-- The first character decides
-- ---------------------------------------------------------------------------

theorem classify_blank (h : isLayout c) (cs : List Char) :
    classify c cs = (.skip, (cs.takeWhile isLayout).length) := by
  simp [classify, h]

theorem classify_brace (cs : List Char) : classify '{' cs = braceComment cs := rfl

theorem classify_star (cs : List Char) : classify '(' ('*' :: cs) = starComment ('*' :: cs) := rfl

theorem classify_line (cs : List Char) :
    classify '/' ('/' :: cs) = (.skip, (cs.takeWhile (· != '\n')).length + 1) := by
  simp [classify, isLayout]

theorem classify_quote (cs : List Char) : classify '\'' cs = stringLexeme cs := by
  simp [classify, isLayout]

theorem classify_dollar (cs : List Char) : classify '$' cs = hexLexeme cs := by
  simp [classify, isLayout]

/-- No letter, digit or underscore starts anything but a word or a number. -/
theorem classify_wordPart (h : isWordPart c) (cs : List Char) :
    classify c cs =
      if c.isDigit then
        (numberLexeme 10 (c :: cs.takeWhile Char.isDigit)
          (String.ofList (c :: cs.takeWhile Char.isDigit)), (cs.takeWhile Char.isDigit).length)
      else if isWordStart c then
        (.token (wordKind (String.ofList (c :: cs.takeWhile isWordPart))),
          (cs.takeWhile isWordPart).length)
      else signLexeme c cs := by
  have hne (d : Char) (hd : isWordPart d = false) : c ≠ d := by
    rintro rfl
    simp [hd] at h
  have hlayout : isLayout c = false := by
    simp [isLayout, hne ' ' rfl, hne '\t' rfl, hne '\r' rfl,
      hne '\n' rfl, hne '\x0c' rfl]
  simp [classify, hlayout, hne '{' rfl, hne '(' rfl, hne '/' rfl,
    hne '\'' rfl, hne '$' rfl]

theorem isWordPart_of_isDigit (h : Char.isDigit c) : isWordPart c := by
  simp [isWordPart, Char.isAlphanum, h]

theorem classify_digit (h : c.isDigit) (cs : List Char) :
    classify c cs = (numberLexeme 10 (c :: cs.takeWhile Char.isDigit)
      (String.ofList (c :: cs.takeWhile Char.isDigit)), (cs.takeWhile Char.isDigit).length) := by
  rw [classify_wordPart (isWordPart_of_isDigit h), if_pos h]

theorem classify_word (h : isWordStart c) (cs : List Char) :
    classify c cs = (.token (wordKind (String.ofList (c :: cs.takeWhile isWordPart))),
      (cs.takeWhile isWordPart).length) := by
  simp [classify_wordPart (isWordPart_of_isWordStart h), isDigit_of_isWordStart h, h]

theorem braceComment_closed (h : '}' ∉ body) (rest : List Char) :
    braceComment (body ++ '}' :: rest) = (.skip, body.length + 1) := by
  have hbody : (body ++ '}' :: rest).takeWhile (· != '}') = body := by
    exact takeWhile_stop (bne_of_notMem h) (by simp)
  simp [braceComment, hbody]

theorem braceComment_open (h : '}' ∉ cs) :
    braceComment cs = (.fault .unterminatedComment, cs.length) := by
  have hbody : cs.takeWhile (· != '}') = cs := List.takeWhile_eq_self_iff.mpr (bne_of_notMem h)
  simp [braceComment, hbody]

theorem starComment_closed (h : ¬ closer <:+: body ++ ['*']) (rest : List Char) :
    starComment ('*' :: (body ++ closer ++ rest)) = (.skip, body.length + 3) := by
  simp [starComment, -List.append_assoc, starCloser?_first h]

theorem starComment_open (h : ¬ closer <:+: cs) :
    starComment ('*' :: cs) = (.fault .unterminatedComment, cs.length + 1) := by
  simp [starComment, starCloser?_eq_none h]

theorem stringLexeme_closed (h : Quoted body content) (hrest : rest.head? ≠ some '\'') :
    stringLexeme (body ++ '\'' :: rest) =
      (.token (.str (String.ofList content)), body.length + 1) := by
  have hend : stringReach ('\'' :: rest) = (1, true) := by
    cases rest with
    | nil => rfl
    | cons c rest =>
      have hc : c ≠ '\'' := by simpa using hrest
      simp [stringReach, hc]
  simp [stringLexeme, stringReach_append h, hend, h.undoubled_eq]

theorem stringLexeme_open (h : Quoted body content) (hrest : ∀ c ∈ rest.head?, c = '\n') :
    stringLexeme (body ++ rest) = (.fault .unterminatedString, body.length) := by
  have hend : stringReach rest = (0, false) := by
    cases rest with
    | nil => rfl
    | cons c rest =>
      obtain rfl := hrest c rfl
      rfl
  simp [stringLexeme, stringReach_append h, hend]

-- ---------------------------------------------------------------------------
-- What is taken has a shape
-- ---------------------------------------------------------------------------

/-- What is taken in front of `cs` and behind `c` makes a word of the shape with it. -/
def Fits (c : Char) (cs : List Char) (taken : Lexeme × Nat) : Prop :=
  taken.2 ≤ cs.length ∧ Shape (c :: cs.take taken.2) taken.1

theorem Fits.intro (h : Shape (c :: u) l) (hn : n = u.length) (rest : List Char) :
    Fits c (u ++ rest) (l, n) := by
  subst hn
  exact ⟨by simp, by simpa using h⟩

theorem fits_braceComment (cs : List Char) : Fits '{' cs (braceComment cs) := by
  by_cases hmem : '}' ∈ cs
  · obtain ⟨body, rest, rfl, hbody⟩ := List.eq_append_cons_of_mem hmem
    simpa [braceComment_closed hbody] using Fits.intro (.brace hbody) rfl rest
  · simpa [braceComment_open hmem] using Fits.intro (.openBrace hmem) rfl []

theorem fits_starComment (cs : List Char) : Fits '(' ('*' :: cs) (starComment ('*' :: cs)) := by
  obtain ⟨body, rest, rfl, hbody⟩ | hnone := closer_cases cs
  · rw [starComment_closed hbody]
    exact .intro (.star hbody) (by simp [closer]) rest
  · simpa [starComment_open hnone] using Fits.intro (.openStar hnone) rfl []

theorem fits_stringLexeme (cs : List Char) : Fits '\'' cs (stringLexeme cs) := by
  obtain ⟨body, content, rest, rfl, hbody, hreach⟩ | ⟨body, content, rest, rfl, hbody, hreach⟩ :=
    stringReach_cases cs
  · simpa [stringLexeme, hreach, hbody.undoubled_eq] using Fits.intro (.string hbody) rfl rest
  · simpa [stringLexeme, hreach] using Fits.intro (.openString hbody) rfl rest

theorem fits_takeWhile {p : Char → Bool} (h : Shape (c :: cs.takeWhile p) l) :
    Fits c cs (l, (cs.takeWhile p).length) := by
  have hfits := Fits.intro h rfl (cs.dropWhile p)
  rwa [List.takeWhile_append_dropWhile] at hfits

theorem fits_hexLexeme (cs : List Char) : Fits '$' cs (hexLexeme cs) := by
  simp only [hexLexeme]
  split
  · exact .intro .dollar rfl cs
  · next hdigits =>
    exact fits_takeWhile (.hex (by simpa using hdigits) fun c => List.mem_takeWhile_imp)

theorem toList_of_ofPair? (h : Sign.ofPair? c d = some s) : s.text.toList = [c, d] := by
  unfold Sign.ofPair? at h
  split at h <;> cases h <;> rfl

theorem toList_of_ofChar? (h : Sign.ofChar? c = some s) : s.text.toList = [c] := by
  unfold Sign.ofChar? at h
  split at h <;> cases h <;> rfl

theorem signLexeme_cases (c : Char) (cs : List Char) :
    Fits c cs (signLexeme c cs) ∨ signLexeme c cs = (.fault (.invalidCharacter c), 0) := by
  unfold signLexeme
  split
  · next s hs =>
    obtain ⟨d, hd, hpair⟩ := Option.bind_eq_some_iff.mp hs
    obtain ⟨rest, rfl⟩ := List.head?_eq_some_iff.mp hd
    have hshape := Shape.sign s
    rw [toList_of_ofPair? hpair] at hshape
    exact .inl (.intro hshape rfl rest)
  · split
    · next s hs =>
      have hshape := Shape.sign s
      rw [toList_of_ofChar? hs] at hshape
      exact .inl (.intro hshape rfl cs)
    · exact .inr rfl

/-- What is taken has a shape, unless it is an invalid character. -/
theorem classify_cases (c : Char) (cs : List Char) :
    Fits c cs (classify c cs) ∨ classify c cs = (.fault (.invalidCharacter c), 0) := by
  unfold classify
  split
  · next hc =>
    refine .inl (fits_takeWhile (.blanks (by simp) ?_))
    simpa [hc] using fun d => List.mem_takeWhile_imp
  split
  · next hc =>
    obtain rfl := beq_iff_eq.mp hc
    exact .inl (fits_braceComment cs)
  split
  · next hc =>
    obtain ⟨rfl, rest, rfl⟩ : c = '(' ∧ ∃ rest, cs = '*' :: rest := by
      simpa [List.head?_eq_some_iff] using hc
    exact .inl (fits_starComment rest)
  split
  · next hc =>
    obtain ⟨rfl, rest, rfl⟩ : c = '/' ∧ ∃ rest, cs = '/' :: rest := by
      simpa [List.head?_eq_some_iff] using hc
    refine .inl (fits_takeWhile (.line ?_))
    exact fun hmem => by simpa using List.mem_takeWhile_imp hmem
  split
  · next hc =>
    obtain rfl := beq_iff_eq.mp hc
    exact .inl (fits_stringLexeme cs)
  split
  · next hc =>
    obtain rfl := beq_iff_eq.mp hc
    exact .inl (fits_hexLexeme cs)
  split
  · next hc =>
    refine .inl (fits_takeWhile (.decimal (by simp) ?_))
    simpa [hc] using fun d => List.mem_takeWhile_imp
  split
  · next hc =>
    have hword : isWord (String.ofList (c :: cs.takeWhile isWordPart)) := by
      simp [isWord, hc]
    refine .inl (fits_takeWhile ?_)
    simpa using Shape.word hword
  · exact signLexeme_cases c cs

-- ---------------------------------------------------------------------------
-- What has a shape is taken, or something longer
-- ---------------------------------------------------------------------------

theorem takeWhile_or_longer {p : Char → Bool} (hall : ∀ c ∈ u, p c) (rest : List Char) :
    (u ++ rest).takeWhile p = u ∨ u.length < ((u ++ rest).takeWhile p).length := by
  rw [List.takeWhile_append_of_pos hall]
  cases rest.takeWhile p <;> simp

theorem length_lt_braceComment (h : '}' ∉ body) (d : Char) (rest : List Char) :
    body.length < (braceComment (body ++ d :: rest)).2 := by
  by_cases hmem : '}' ∈ d :: rest
  · obtain ⟨more, rest', hrest, hmore⟩ := List.eq_append_cons_of_mem hmem
    have hbody : '}' ∉ body ++ more := by simp [h, hmore]
    rw [hrest, ← List.append_assoc, braceComment_closed hbody, List.length_append]
    omega
  · have hbody : '}' ∉ body ++ d :: rest := by simpa [h] using hmem
    rw [braceComment_open hbody]
    simp

theorem length_lt_starComment (h : ¬ closer <:+: body) (d : Char) (rest : List Char) :
    body.length + 1 < (starComment ('*' :: (body ++ d :: rest))).2 := by
  obtain ⟨first, rest', hsplit, hfirst⟩ | hnone := closer_cases (body ++ d :: rest)
  · rw [hsplit, starComment_closed hfirst]
    -- A closer that ends within `body` would stand in it.
    by_contra hshort
    have hwithin : first ++ closer <+: body := by
      refine List.prefix_of_prefix_length_le ⟨rest', hsplit.symm⟩ ⟨d :: rest, rfl⟩ ?_
      simp only [List.length_append, closer, List.length_cons, List.length_nil]
      omega
    exact h ((List.suffix_append _ _).isInfix.trans hwithin.isInfix)
  · rw [starComment_open hnone]
    simp

theorem stringLexeme_snd (cs : List Char) : (stringLexeme cs).2 = (stringReach cs).1 := by
  simp only [stringLexeme]
  split <;> rfl

theorem stringReach_pos (h : c ≠ '\n') (cs : List Char) : 0 < (stringReach (c :: cs)).1 := by
  rw [stringReach.eq_def]
  split <;> simp_all

theorem classify_of_sign (h : Sign.ofChar? c = some s) (cs : List Char) :
    classify c cs =
      if c == '(' && cs.head? == some '*' then starComment cs
      else if c == '/' && cs.head? == some '/' then (.skip, (cs.takeWhile (· != '\n')).length)
      else signLexeme c cs := by
  have hclass : isLayout c = false ∧ (c == '{') = false ∧ (c == '\'') = false ∧
      (c == '$') = false ∧ c.isDigit = false ∧ isWordStart c = false := by
    unfold Sign.ofChar? at h
    split at h
    case h_14 => cases h
    all_goals decide
  simp [classify, hclass]

theorem classify_sign (h : Sign.ofChar? c = some s) (cs : List Char) :
    classify c cs = (.token (.sign s), 0) ∨ 0 < (classify c cs).2 := by
  rw [classify_of_sign h]
  split
  · next hopen =>
    obtain ⟨-, rest, rfl⟩ : c = '(' ∧ ∃ rest, cs = '*' :: rest := by
      simpa [List.head?_eq_some_iff] using hopen
    right
    unfold starComment
    split <;> simp
  split
  · next hopen =>
    obtain ⟨-, rest, rfl⟩ : c = '/' ∧ ∃ rest, cs = '/' :: rest := by
      simpa [List.head?_eq_some_iff] using hopen
    exact .inr (by simp)
  · unfold signLexeme
    split
    · exact .inr Nat.one_pos
    · exact .inl (by simp [h])

theorem classify_pair (h : Sign.ofPair? c d = some s) (cs : List Char) :
    classify c (d :: cs) = (.token (.sign s), 1) := by
  unfold Sign.ofPair? at h
  split at h <;> cases h <;> rfl

/-- A word with a shape is taken where it stands first, or a longer one is. -/
theorem Shape.taken (h : Shape (c :: u) l) (rest : List Char) :
    classify c (u ++ rest) = (l, u.length) ∨ u.length < (classify c (u ++ rest)).2 := by
  generalize hw : c :: u = w at h
  cases h with
  | blanks _ hall =>
    subst hw
    obtain ⟨hc, hu⟩ := List.forall_mem_cons.mp hall
    rw [classify_blank hc]
    exact (takeWhile_or_longer hu rest).imp_left fun h => by rw [h]
  | brace hbody =>
    cases hw
    left
    simp [classify_brace, braceComment_closed hbody]
  | openBrace hbody =>
    cases hw
    rw [classify_brace]
    cases rest with
    | nil => exact .inl (by simp [braceComment_open hbody])
    | cons d rest => exact .inr (length_lt_braceComment hbody d rest)
  | star hbody =>
    cases hw
    left
    rw [List.cons_append, classify_star, starComment_closed hbody]
    simp [closer]
  | openStar hbody =>
    cases hw
    rw [List.cons_append, classify_star]
    cases rest with
    | nil => exact .inl (by simp [starComment_open hbody])
    | cons d rest => exact .inr (length_lt_starComment hbody d rest)
  | line hbody =>
    cases hw
    rw [List.cons_append, classify_line]
    obtain h | h := takeWhile_or_longer (bne_of_notMem hbody) rest
    · exact .inl (by rw [h]; rfl)
    · exact .inr (by simpa using h)
  | @string body content hbody =>
    cases hw
    rw [classify_quote]
    by_cases hrest : rest.head? = some '\''
    · obtain ⟨rest, rfl⟩ := List.head?_eq_some_iff.mp hrest
      right
      simp [stringLexeme_snd, stringReach_append hbody, stringReach]
    · left
      simp [stringLexeme_closed hbody hrest]
  | openString hbody =>
    cases hw
    rw [classify_quote]
    by_cases hrest : ∀ c ∈ rest.head?, c = '\n'
    · exact .inl (stringLexeme_open hbody hrest)
    · cases rest with
      | nil => simp at hrest
      | cons d rest =>
        right
        have hd : d ≠ '\n' := by simpa using hrest
        simp [stringLexeme_snd, stringReach_append hbody, stringReach_pos hd]
  | decimal _ hall =>
    subst hw
    obtain ⟨hc, hu⟩ := List.forall_mem_cons.mp hall
    rw [classify_digit hc]
    exact (takeWhile_or_longer hu rest).imp_left fun h => by rw [h]
  | hex hne hall =>
    cases hw
    rw [classify_dollar]
    simp only [hexLexeme]
    obtain h | h := takeWhile_or_longer hall rest
    · simp [h, hne]
    · right
      split
      · simp_all
      · exact h
  | dollar =>
    cases hw
    rw [classify_dollar, List.nil_append]
    simp only [hexLexeme]
    split
    · exact .inl rfl
    · next hdigits =>
      right
      simpa [List.length_pos_iff] using hdigits
  | @word x hx =>
    obtain ⟨d, ds, hword, hstart, hall⟩ := isWord_cons hx
    rw [hword] at hw
    cases hw
    rw [hword] at hall
    rw [classify_word hstart]
    refine (takeWhile_or_longer (fun c hc => hall c (List.mem_cons_of_mem _ hc)) rest).imp_left
      fun h => ?_
    rw [h, ← hword, String.ofList_toList]
  | sign s =>
    cases s with
    | assign | ne | le | ge =>
      cases hw
      exact .inl (classify_pair rfl rest)
    | _ =>
      cases hw
      exact classify_sign rfl rest

-- ---------------------------------------------------------------------------
-- The longest match
-- ---------------------------------------------------------------------------

theorem shape_of_classify (h : classify c (u ++ rest) = (l, u.length))
    (hl : ∀ d, l ≠ .fault (.invalidCharacter d)) : Shape (c :: u) l := by
  obtain ⟨-, hshape⟩ | hinvalid := classify_cases c (u ++ rest)
  · simpa [h] using hshape
  · exact absurd (congrArg Prod.fst (h.symm.trans hinvalid)) (hl c)

theorem classify_le (c : Char) (cs : List Char) : (classify c cs).2 ≤ cs.length := by
  obtain hfits | hinvalid := classify_cases c cs
  · exact hfits.1
  · simp [hinvalid]

/-- A word with a shape is taken whole where nothing follows it. -/
theorem Shape.alone (h : Shape (c :: u) l) : classify c u = (l, u.length) := by
  have htaken := h.taken []
  rw [List.append_nil] at htaken
  exact htaken.resolve_right (Nat.not_lt.mpr (classify_le c u))

/-- No word with a shape reaches further than what is taken. -/
theorem Shape.length_le (h : Shape (c :: u) l) (hu : u <+: cs) :
    u.length ≤ (classify c cs).2 := by
  obtain ⟨rest, rfl⟩ := hu
  obtain htaken | hlonger := h.taken rest
  · rw [htaken]
  · exact hlonger.le

-- ---------------------------------------------------------------------------
-- One lexeme at a time
-- ---------------------------------------------------------------------------

theorem byteSize_eq_utf8Len (cs : List Char) : byteSize cs = String.utf8Len cs := by
  suffices h : ∀ n, cs.foldl (fun n c => n + c.utf8Size) n = n + String.utf8Len cs by
    simpa [byteSize] using h 0
  induction cs with
  | nil => simp
  | cons c cs ih =>
    intro n
    rw [List.foldl_cons, ih, String.utf8Len_cons]
    omega

@[simp]
theorem byteSize_append (cs ds : List Char) : byteSize (cs ++ ds) = byteSize cs + byteSize ds := by
  simp [byteSize_eq_utf8Len]

theorem byteSize_pos (h : cs ≠ []) : 0 < byteSize cs := by
  simpa [byteSize_eq_utf8Len, Nat.pos_iff_ne_zero] using h

theorem byteSize_toList (s : String) : byteSize s.toList = s.utf8ByteSize := by
  rw [byteSize_eq_utf8Len, ← String.utf8ByteSize_ofList, String.ofList_toList]

theorem lexFrom_skip (h : classify c (u ++ rest) = (.skip, u.length)) (offset : Nat) :
    lexFrom offset (c :: (u ++ rest)) = lexFrom (offset + byteSize (c :: u)) rest := by
  simp [lexFrom, h]

theorem lexFrom_token (h : classify c (u ++ rest) = (.token kind, u.length)) (offset : Nat) :
    lexFrom offset (c :: (u ++ rest)) = (lexFrom (offset + byteSize (c :: u)) rest).map
      (⟨kind, Span.ofRange offset (offset + byteSize (c :: u))⟩ :: ·) := by
  simp only [lexFrom, h, List.take_left', List.drop_left']
  cases lexFrom (offset + byteSize (c :: u)) rest <;> rfl

theorem lexFrom_fault (h : classify c (u ++ rest) = (.fault cause, u.length)) (offset : Nat) :
    lexFrom offset (c :: (u ++ rest)) =
      .error ⟨cause, Span.ofRange offset (offset + byteSize (c :: u))⟩ := by
  simp [lexFrom, h]

/-- A word with the shape of a token is a text of one token. -/
theorem Shape.lexFrom_eq (h : Shape (c :: u) (.token kind)) (offset : Nat) :
    lexFrom offset (c :: u) =
      .ok [⟨kind, Span.ofRange offset (offset + byteSize (c :: u))⟩] := by
  have hclassify : classify c (u ++ []) = (.token kind, u.length) := by simpa using h.alone
  have hlex := lexFrom_token hclassify offset
  rw [List.append_nil] at hlex
  simp [hlex, lexFrom, Except.map]

/-- A blank joins the blanks behind it. -/
theorem lexFrom_blank (hc : isLayout c) (offset : Nat) (cs : List Char) :
    lexFrom offset (c :: cs) = lexFrom (offset + c.utf8Size) cs := by
  have hblank := classify_blank hc cs
  have hsize (w : List Char) : byteSize (c :: w) = c.utf8Size + byteSize w := by
    simp [byteSize_eq_utf8Len, Nat.add_comm]
  cases cs with
  | nil => simp [lexFrom, hblank, byteSize]
  | cons d cs =>
    by_cases hd : isLayout d
    · rw [lexFrom, lexFrom]
      simp [hblank, classify_blank hd, hd, hsize, Nat.add_assoc]
    · have hnone : (d :: cs).takeWhile isLayout = [] := by simp [hd]
      rw [hnone] at hblank
      simpa [hsize, byteSize] using lexFrom_skip (u := []) hblank offset

end Cartridge.Pascal
