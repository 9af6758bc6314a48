import Cartridge.Proofs.Pascal.Printing
import Cartridge.Proofs.Pascal.Tiling

/-!
# Layout

Blanks and comments between tokens do not matter: wherever one of its tokens
starts or ends, a source takes more blanks or a comment and keeps the kinds of
its tokens, and with them the program that it is read as.

A token ends at the character behind it, whatever stands further on, and no
blank and no comment goes on with one. What is skipped ends by itself, but for a
comment that takes the rest of its line; no token stands right behind that one.
-/

namespace Cartridge.Pascal

-- ---------------------------------------------------------------------------
-- What goes on with a token
-- ---------------------------------------------------------------------------

/-- The characters that inserted layout can start with. -/
def separators : List Char :=
  [' ', '\t', '\r', '\n', '\x0c', '{']

/-- The token text `c :: u` goes on exactly with the characters `p`. -/
structure GoesOn (c : Char) (u : List Char) (kind : Kind) (p : Char → Bool) : Prop where
  longer : p d → ∃ l, Shape (c :: (u ++ [d])) l
  stops : (∀ d ∈ rest.head?, p d = false) → classify c (u ++ rest) = (.token kind, u.length)
  separated : separators.any p = false

theorem Quoted.append_pair (h : Quoted body content) :
    Quoted (body ++ ['\'', '\'']) (content ++ ['\'']) := by
  induction h with
  | nil => exact .pair .nil
  | pair _ ih => exact ih.pair
  | char hquote hline _ ih => exact ih.char hquote hline

theorem goesOn_string (h : Quoted body content) :
    GoesOn '\'' (body ++ ['\'']) (.str (String.ofList content)) (· == '\'') where
  longer := by
    intro d hd
    obtain rfl := beq_iff_eq.mp hd
    exact ⟨_, by simpa using Shape.openString h.append_pair⟩
  stops := by
    intro rest hrest
    have hquote : rest.head? ≠ some '\'' := fun hd => by simpa using hrest _ hd
    simp [classify_quote, stringLexeme_closed h hquote]
  separated := by decide

theorem goesOn_decimal (hc : c.isDigit) (hu : ∀ d ∈ u, d.isDigit)
    (hkind : numberLexeme 10 (c :: u) (String.ofList (c :: u)) = .token kind) :
    GoesOn c u kind Char.isDigit where
  longer := by
    intro d hd
    exact ⟨_, Shape.decimal (List.cons_ne_nil c _) (by simpa [hc, or_imp, forall_and, hd] using hu)⟩
  stops := by
    intro rest hrest
    rw [classify_digit hc, takeWhile_stop hu hrest, hkind]
  separated := by decide

theorem goesOn_hex (hne : u ≠ []) (hu : ∀ d ∈ u, Text.isDigitOf 16 d)
    (hkind : numberLexeme 16 u (String.ofList ('$' :: u)) = .token kind) :
    GoesOn '$' u kind (Text.isDigitOf 16) where
  longer := by
    intro d hd
    exact ⟨_, Shape.hex (by simp) (by simpa [or_imp, forall_and, hd] using hu)⟩
  stops := by
    intro rest hrest
    simp only [classify_dollar, hexLexeme, takeWhile_stop hu hrest, hkind]
    simp [hne]
  separated := by decide

theorem goesOn_word (hc : isWordStart c) (hu : ∀ d ∈ u, isWordPart d) :
    GoesOn c u (wordKind (String.ofList (c :: u))) isWordPart where
  longer := by
    intro d hd
    have hword : isWord (String.ofList (c :: (u ++ [d]))) := by
      simpa [isWord, hc, or_imp, forall_and, hd] using hu
    exact ⟨_, by simpa using Shape.word hword⟩
  stops := by
    intro rest hrest
    rw [classify_word hc, takeWhile_stop hu hrest]
  separated := by decide

theorem goesOn_pair (h : Sign.ofPair? c d = some s) :
    GoesOn c [d] (.sign s) fun _ => false where
  longer := nofun
  stops _ := classify_pair h _
  separated := rfl

theorem goesOn_sign (h : Sign.ofChar? c = some s) : GoesOn c [] (.sign s) (joins c) where
  longer := by
    intro d hd
    simp only [joins, Bool.or_eq_true, Bool.and_eq_true, beq_iff_eq] at hd
    obtain (hpair | ⟨rfl, rfl⟩) | ⟨rfl, rfl⟩ := hd
    · obtain ⟨s', hs'⟩ := Option.isSome_iff_exists.mp hpair
      have hshape := Shape.sign s'
      rw [toList_of_ofPair? hs'] at hshape
      exact ⟨_, hshape⟩
    · exact ⟨_, @Shape.openStar [] (by simp [closer])⟩
    · exact ⟨_, @Shape.line [] (by simp)⟩
  stops hrest := classify_of_not_joins h hrest
  separated := by
    unfold Sign.ofChar? at h
    split at h
    case h_14 => cases h
    all_goals decide

theorem exists_goesOn (h : Shape (c :: u) (.token kind)) : ∃ p, GoesOn c u kind p := by
  generalize hw : c :: u = w at h
  generalize hl : Lexeme.token kind = l at h
  cases h with
  | string hbody =>
    cases hw
    cases hl
    exact ⟨_, goesOn_string hbody⟩
  | decimal _ hall =>
    subst hw
    obtain ⟨hc, hu⟩ := List.forall_mem_cons.mp hall
    exact ⟨_, goesOn_decimal hc hu hl.symm⟩
  | hex hne hall =>
    cases hw
    exact ⟨_, goesOn_hex hne hall hl.symm⟩
  | @word x hx =>
    cases hl
    obtain ⟨d, ds, hword, hstart, hall⟩ := isWord_cons hx
    obtain ⟨rfl, rfl⟩ := List.cons.inj (hw.trans hword)
    obtain rfl : x = String.ofList (c :: u) := by rw [hw, String.ofList_toList]
    exact ⟨_, goesOn_word hstart fun d hd => hall d (by simp [hd])⟩
  | sign s =>
    cases hl
    cases s with
    | assign | ne | le | ge =>
      cases hw
      exact ⟨_, goesOn_pair rfl⟩
    | _ =>
      cases hw
      exact ⟨_, goesOn_sign rfl⟩
  | _ => cases hl

/-- A token is read the same if what stands behind it starts with the same character or with
a separator. -/
theorem classify_token_congr (h : classify c (u ++ rest) = (.token kind, u.length))
    (hhead : ∀ d ∈ rest'.head?, d ∈ rest.head? ∨ d ∈ separators) :
    classify c (u ++ rest') = (.token kind, u.length) := by
  obtain ⟨p, hp⟩ := exists_goesOn (shape_of_classify h nofun)
  refine hp.stops fun d hd => ?_
  obtain hsame | hsep := hhead d hd
  · -- The token would have been longer.
    obtain ⟨rest, rfl⟩ := List.head?_eq_some_iff.mp hsame
    refine Bool.eq_false_iff.mpr fun hpd => ?_
    obtain ⟨l, hshape⟩ := hp.longer hpd
    have hfront : u ++ [d] <+: u ++ d :: rest := ⟨rest, by simp⟩
    have hle := hshape.length_le hfront
    simp [h] at hle
  · simpa using List.any_eq_false.mp hp.separated d hsep

-- ---------------------------------------------------------------------------
-- What is skipped
-- ---------------------------------------------------------------------------

/-- What may be inserted: blanks, or one comment in braces. -/
inductive Layout : List Char → Prop
  | blanks : w ≠ [] → (∀ c ∈ w, isLayout c) → Layout w
  | comment : '}' ∉ body → Layout ('{' :: (body ++ ['}']))

theorem Layout.head (h : Layout w) : ∃ d u, w = d :: u ∧ d ∈ separators := by
  cases h with
  | blanks hne hall =>
    obtain ⟨d, u, rfl⟩ := List.exists_cons_of_ne_nil hne
    have hd : isLayout d := hall d (by simp)
    simp only [isLayout, Bool.or_eq_true, beq_iff_eq] at hd
    exact ⟨d, u, rfl, by simp only [separators]; grind⟩
  | comment => exact ⟨_, _, rfl, by decide⟩

theorem Lexes.skip (h : Lexes rest ks) (hclassify : classify c (u ++ rest) = (.skip, u.length)) :
    Lexes (c :: (u ++ rest)) ks := by
  intro offset
  rw [lexFrom_skip hclassify]
  exact h _

theorem Lexes.blanks (h : Lexes rest ks) (hall : ∀ c ∈ w, isLayout c) : Lexes (w ++ rest) ks := by
  induction w with
  | nil => exact h
  | cons c w ih =>
    obtain ⟨hc, hw⟩ := List.forall_mem_cons.mp hall
    exact (ih hw).layout hc

theorem Lexes.brace (h : Lexes rest ks) (hbody : '}' ∉ body) :
    Lexes ('{' :: (body ++ ['}'] ++ rest)) ks := by
  refine h.skip ?_
  simp [classify_brace, braceComment_closed hbody]

theorem Lexes.insert (h : Lexes rest ks) (hgap : Layout gap) : Lexes (gap ++ rest) ks := by
  cases hgap with
  | blanks _ hall => exact h.blanks hall
  | comment hbody => exact h.brace hbody

/-- What is skipped in front of one text is skipped in front of another, unless it is the rest of
a line and the other text does not begin with a new one. -/
theorem Lexes.skip_congr (h : Lexes rest' ks)
    (hclassify : classify c (u ++ rest) = (.skip, u.length))
    (hline : (∀ d ∈ rest.head?, d = '\n') → ∀ d ∈ rest'.head?, d = '\n') :
    Lexes (c :: (u ++ rest')) ks := by
  have hshape : Shape (c :: u) .skip := shape_of_classify hclassify nofun
  generalize hw : c :: u = w at hshape
  generalize hl : Lexeme.skip = l at hshape
  cases hshape with
  | blanks _ hall =>
    subst hw
    exact h.blanks hall
  | brace hbody =>
    cases hw
    exact h.brace hbody
  | star hbody =>
    cases hw
    refine h.skip ?_
    rw [List.cons_append, classify_star, starComment_closed hbody]
    simp [closer]
  | line hbody =>
    cases hw
    have hend := hline (line_of_classify hbody hclassify)
    refine h.skip ?_
    rw [List.cons_append, classify_line, takeWhile_stop (bne_of_notMem hbody) (by simpa using hend)]
    rfl
  | decimal => exact absurd hl.symm (numberLexeme_ne_skip _ _ _)
  | hex => exact absurd hl.symm (numberLexeme_ne_skip _ _ _)
  | _ => cases hl

-- ---------------------------------------------------------------------------
-- The edges of tokens
-- ---------------------------------------------------------------------------

/-- A text is cut where one of its tokens starts or ends. -/
inductive TokenEdge : List Char → List Char → Prop
  | start : classify c cs = (.token kind, n) → TokenEdge [] (c :: cs)
  | stop : classify c (u ++ after) = (.token kind, u.length) → TokenEdge (c :: u) after
  | behindSkip : classify c (u ++ (before ++ after)) = (.skip, u.length) →
      TokenEdge before after → TokenEdge (c :: (u ++ before)) after
  | behindToken : classify c (u ++ (before ++ after)) = (.token kind, u.length) →
      TokenEdge before after → TokenEdge (c :: (u ++ before)) after

theorem Lexes.exists_tokens (h : Lexes cs ks) (offset : Nat) :
    ∃ tokens, lexFrom offset cs = .ok tokens ∧ kinds tokens = ks := by
  have hmap := h offset
  cases hlex : lexFrom offset cs with
  | error fault => simp [hlex, Except.map] at hmap
  | ok tokens => exact ⟨tokens, rfl, by simpa [hlex, Except.map] using hmap⟩

theorem lexes_of_lexFrom (h : lexFrom offset cs = .ok tokens) : Lexes cs (kinds tokens) := by
  fun_induction lexFrom offset cs generalizing tokens with
  | case1 =>
    cases h
    exact lexes_nil
  | case2 offset c cs n stop hclassify =>
    rename_i ih
    obtain ⟨u, rest, rfl, rfl⟩ := taken_of_classify hclassify
    rw [List.drop_left] at ih h
    exact (ih h).skip hclassify
  | case3 => cases h
  | case4 offset c cs n stop kind tokens' hrest hclassify =>
    rename_i ih
    obtain ⟨u, rest, rfl, rfl⟩ := taken_of_classify hclassify
    rw [List.drop_left] at ih hrest
    cases h
    exact (ih hrest).token hclassify
  | case5 => cases h

theorem lexFrom_token_ok (hclassify : classify c (u ++ rest) = (.token kind, u.length))
    (h : lexFrom offset (c :: (u ++ rest)) = .ok tokens) :
    ∃ tokens', lexFrom (offset + byteSize (c :: u)) rest = .ok tokens' ∧
      kinds tokens = kind :: kinds tokens' := by
  rw [lexFrom_token hclassify] at h
  cases hrest : lexFrom (offset + byteSize (c :: u)) rest with
  | error fault => simp [hrest, Except.map] at h
  | ok tokens' =>
    rw [hrest] at h
    cases h
    exact ⟨tokens', rfl, rfl⟩

theorem TokenEdge.lexes_insert (h : TokenEdge before after) (hgap : Layout gap)
    (hlex : lexFrom offset (before ++ after) = .ok tokens) :
    Lexes (before ++ (gap ++ after)) (kinds tokens) := by
  obtain ⟨sep, more, hgap', hsep⟩ := hgap.head
  induction h generalizing offset tokens with
  | start => exact (lexes_of_lexFrom hlex).insert hgap
  | stop hclassify =>
    obtain ⟨tokens', hrest, hkinds⟩ := lexFrom_token_ok hclassify hlex
    rw [hkinds]
    exact ((lexes_of_lexFrom hrest).insert hgap).token
      (classify_token_congr hclassify (by simp [hgap', hsep]))
  | @behindSkip c u before after hclassify hedge ih =>
    rw [List.cons_append, List.append_assoc, lexFrom_skip hclassify] at hlex
    rw [List.cons_append, List.append_assoc]
    refine (ih hlex).skip_congr hclassify ?_
    cases before with
    | nil =>
      -- The next token stands right behind, and no token begins with a newline.
      cases hedge with
      | @start c' _ kind _ htoken =>
        intro hend
        obtain rfl : c' = '\n' := by simpa using hend
        simp [classify_blank (c := '\n') rfl] at htoken
    | cons d before => exact id
  | @behindToken c u before after kind hclassify hedge ih =>
    rw [List.cons_append, List.append_assoc] at hlex
    obtain ⟨tokens', hrest, hkinds⟩ := lexFrom_token_ok hclassify hlex
    rw [hkinds, List.cons_append, List.append_assoc]
    refine (ih hrest).token (classify_token_congr hclassify ?_)
    cases before with
    | nil => simp [hgap', hsep]
    | cons d before => simp

-- ---------------------------------------------------------------------------
-- Positions in a source
-- ---------------------------------------------------------------------------

/-- Where the tokens of `cs` stand if `cs` stands at `offset`, up to the first fault and however
long the text is. -/
def exactSpans (offset : Nat) (cs : List Char) : List Span :=
  match cs with
  | [] => []
  | c :: cs =>
    let (lexeme, n) := classify c cs
    let stop := offset + byteSize (c :: cs.take n)
    match lexeme with
    | .skip => exactSpans stop (cs.drop n)
    | .fault _ => []
    | .token _ => ⟨offset, stop⟩ :: exactSpans stop (cs.drop n)
termination_by cs.length
decreasing_by
  all_goals simp only [List.length_drop, List.length_cons]; omega

/-- A token records its exact span up to the largest offset. -/
theorem spans_of_lexFrom (h : lexFrom offset cs = .ok tokens) :
    tokens.map Token.span = (exactSpans offset cs).map fun s => .ofRange s.start s.stop := by
  fun_induction lexFrom offset cs generalizing tokens with
  | case1 =>
    cases h
    simp [exactSpans]
  | case2 offset c cs n stop hclassify =>
    rename_i ih
    simp [exactSpans, hclassify, ih h, stop]
  | case3 => cases h
  | case4 offset c cs n stop kind tokens' hrest hclassify =>
    rename_i ih
    cases h
    simp [exactSpans, hclassify, ih hrest, stop]
  | case5 => cases h

theorem exactSpans_bounds (offset : Nat) (cs : List Char) :
    ∀ s ∈ exactSpans offset cs, offset ≤ s.start ∧ s.start < s.stop := by
  fun_induction exactSpans offset cs with
  | case1 => simp
  | case2 offset c cs n stop hclassify ih =>
    intro s hs
    have := ih s hs
    omega
  | case3 => simp
  | case4 offset c cs n stop kind hclassify ih =>
    have hpos : 0 < byteSize (c :: cs.take n) := byteSize_pos (List.cons_ne_nil _ _)
    refine List.forall_mem_cons.mpr ⟨⟨le_refl _, by simp only; omega⟩, fun s hs => ?_⟩
    have := ih s hs
    omega

theorem eq_nil_of_byteSize (cs : List Char) (h : byteSize cs = 0) : cs = [] := by
  by_contra hne
  have := byteSize_pos hne
  omega

/-- A text that is cut behind the piece `w` has `w` in its first part. -/
theorem exists_append_of_byteSize (h : before ++ after = w ++ rest)
    (hle : byteSize w ≤ byteSize before) : ∃ b, before = w ++ b ∧ rest = b ++ after := by
  obtain ⟨a, rfl, rfl⟩ | hb := List.append_eq_append_iff.mp h
  · rw [byteSize_append] at hle
    obtain rfl := eq_nil_of_byteSize a (by omega)
    exact ⟨[], by simp⟩
  · exact hb

theorem tokenEdge_of_exactSpans (hs : s ∈ exactSpans offset (before ++ after))
    (hedge : offset + byteSize before = s.start ∨ offset + byteSize before = s.stop) :
    TokenEdge before after := by
  generalize hcs : before ++ after = cs at hs
  fun_induction exactSpans offset cs generalizing before with
  | case1 => simp at hs
  | case2 offset c cs n stop hclassify =>
    rename_i ih
    obtain ⟨u, rest, rfl, rfl⟩ := taken_of_classify hclassify
    simp only [stop, List.take_left', List.drop_left'] at ih hs
    have hbounds := exactSpans_bounds _ _ s hs
    obtain ⟨before, rfl, rfl⟩ := exists_append_of_byteSize (w := c :: u) hcs (by omega)
    rw [byteSize_append, ← Nat.add_assoc] at hedge
    exact .behindSkip hclassify (ih hedge rfl hs)
  | case3 => simp at hs
  | case4 offset c cs n stop kind hclassify =>
    rename_i ih
    obtain ⟨u, rest, rfl, rfl⟩ := taken_of_classify hclassify
    simp only [stop, List.take_left', List.drop_left'] at ih hs
    obtain rfl | hs := List.mem_cons.mp hs
    · -- The first token: the cut is in front of it or right behind it.
      obtain hstart | hstop := hedge
      · simp only at hstart
        obtain rfl := eq_nil_of_byteSize before (by omega)
        obtain rfl := hcs
        exact .start hclassify
      · simp only at hstop
        obtain ⟨b, rfl, rfl⟩ := exists_append_of_byteSize (w := c :: u) hcs (by omega)
        rw [byteSize_append] at hstop
        obtain rfl := eq_nil_of_byteSize b (by omega)
        rw [List.append_nil]
        exact .stop hclassify
    · have hbounds := exactSpans_bounds _ _ s hs
      obtain ⟨before, rfl, rfl⟩ := exists_append_of_byteSize (w := c :: u) hcs (by omega)
      rw [byteSize_append, ← Nat.add_assoc] at hedge
      exact .behindToken hclassify (ih hedge rfl hs)

-- ---------------------------------------------------------------------------
-- Sources with more layout
-- ---------------------------------------------------------------------------

/-- Sources with tokens of the same kinds are read as the same program. -/
theorem parse_congr (hlex : lexFrom 0 source.toList = .ok tokens)
    (hlex' : lexFrom 0 source'.toList = .ok tokens') (hkinds : kinds tokens' = kinds tokens) :
    parse source' = .ok p ↔ parse source = .ok p := by
  have hread : ∀ ts, parseTokens ts = .ok p ↔ Grammar.IsProgram (kinds ts) p :=
    fun ts => ⟨parseTokens_sound, fun h => parseTokens_complete h (spells_self ts)⟩
  simp [parse_eq_ok_iff, hlex, hlex', hread, hkinds]

/-- Layout is inserted where a token starts or ends, and the source is read as before. -/
theorem parse_insert_layout {before after gap : String} (hlex : lex (before ++ after) = .ok tokens)
    (hs : s ∈ exactSpans 0 (before ++ after).toList)
    (hedge : before.utf8ByteSize = s.start ∨ before.utf8ByteSize = s.stop)
    (hgap : Layout gap.toList) :
    tokens.map Token.span = (exactSpans 0 (before ++ after).toList).map
        (fun s => Span.ofRange s.start s.stop) ∧
      (∃ tokens', lex (before ++ gap ++ after) = .ok tokens' ∧ kinds tokens' = kinds tokens) ∧
      ∀ p, parse (before ++ gap ++ after) = .ok p ↔ parse (before ++ after) = .ok p := by
  have hlex := lexFrom_of_lex hlex
  have hspans := spans_of_lexFrom hlex
  rw [String.toList_append] at hs
  have hcut : TokenEdge before.toList after.toList := by
    refine tokenEdge_of_exactSpans hs ?_
    simpa [byteSize_toList] using hedge
  have hinsert := (hcut.lexes_insert hgap (by simpa using hlex)).exists_tokens 0
  obtain ⟨tokens', hlex', hkinds⟩ := hinsert
  have hlex' : lexFrom 0 (before ++ gap ++ after).toList = .ok tokens' := by simpa using hlex'
  exact ⟨hspans, ⟨tokens', by simp only [lex, hlex'], hkinds⟩,
    fun p => parse_congr hlex hlex' hkinds⟩

/-- A comment with a quote and a newline in it, between a number and the word right behind it. -/
theorem parse_insert_layout_number :
    let before := "begin x:=12"
    let after := "div y// c\nend."
    let gap := "\x7b' \n\x7d"
    let tokens : List Token := [⟨.keyword .begin, ⟨0, 5⟩⟩, ⟨.ident "x", ⟨6, 7⟩⟩,
      ⟨.sign .assign, ⟨7, 9⟩⟩, ⟨.int 12, ⟨9, 11⟩⟩, ⟨.keyword .div, ⟨11, 14⟩⟩,
      ⟨.ident "y", ⟨15, 16⟩⟩, ⟨.keyword .end_, ⟨21, 24⟩⟩, ⟨.sign .dot, ⟨24, 25⟩⟩]
    lex (before ++ after) = .ok tokens ∧
      (∃ tokens', lex (before ++ gap ++ after) = .ok tokens' ∧ kinds tokens' = kinds tokens) ∧
      ∀ p, parse (before ++ gap ++ after) = .ok p ↔ parse (before ++ after) = .ok p := by
  intro before after gap tokens
  have hlex : lex (before ++ after) = .ok tokens := by decide +kernel
  have hs : ⟨9, 11⟩ ∈ exactSpans 0 (before ++ after).toList := by decide +kernel
  have hbody : '}' ∉ ['\'', ' ', '\n'] := by decide
  have htext : gap.toList = '{' :: (['\'', ' ', '\n'] ++ ['}']) := by decide
  have hgap : Layout gap.toList := htext ▸ .comment hbody
  exact ⟨hlex, (parse_insert_layout hlex hs (.inr (by decide)) hgap).2⟩

end Cartridge.Pascal
