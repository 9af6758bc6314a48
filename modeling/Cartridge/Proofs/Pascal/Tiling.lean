import Cartridge.Proofs.Pascal.Lexemes

/-!
# Tiling

The tokens of a source lie in it one behind the other. Between them stand only
blanks and complete comments, and every token is what its own text is read as.
-/

namespace Cartridge.Pascal

-- ---------------------------------------------------------------------------
-- Gaps
-- ---------------------------------------------------------------------------

/-- Blanks and complete comments that stand before `after`. -/
inductive Gap (after : List Char) : List Char → Prop
  | nil : Gap after []
  | blank : isLayout c → Gap after text → Gap after (c :: text)
  | brace : '}' ∉ body → Gap after text → Gap after ('{' :: (body ++ '}' :: text))
  /-- The closer is the first one: there is none without the last parenthesis. -/
  | star : ¬ closer <:+: body ++ ['*'] → Gap after text →
      Gap after ('(' :: '*' :: (body ++ closer ++ text))
  /-- The comment ends with its line, the last one of a source with the source. -/
  | line : '\n' ∉ body → (∀ c ∈ (text ++ after).head?, c = '\n') → Gap after text →
      Gap after ('/' :: '/' :: (body ++ text))

theorem Gap.blanks (hall : ∀ c ∈ w, isLayout c) (h : Gap after text) : Gap after (w ++ text) := by
  induction w with
  | nil => exact h
  | cons c w ih =>
    obtain ⟨hc, hw⟩ := List.forall_mem_cons.mp hall
    exact .blank hc (ih hw)

theorem numberLexeme_ne_skip (base : Nat) (digits : List Char) (text : String) :
    numberLexeme base digits text ≠ .skip := by
  unfold numberLexeme
  cases Text.fit (Text.digitsValue base digits) <;> simp

/-- A line comment that is taken reaches to the end of its line. -/
theorem line_of_classify (hbody : '\n' ∉ body)
    (h : classify '/' ('/' :: (body ++ rest)) = (.skip, body.length + 1)) :
    ∀ c ∈ rest.head?, c = '\n' := by
  intro c hc
  by_contra hne
  obtain ⟨rest, rfl⟩ := List.head?_eq_some_iff.mp hc
  -- With the next character it would be a comment too, and a longer one.
  have hlonger : Shape ('/' :: '/' :: (body ++ [c])) .skip := .line (by simp [hbody, Ne.symm hne])
  have hle := hlonger.length_le (show _ <+: '/' :: (body ++ c :: rest) from ⟨rest, by simp⟩)
  simp [h] at hle

/-- What is skipped in front of a gap makes a gap with it. -/
theorem Gap.skip (hclassify : classify c (u ++ (text ++ after)) = (.skip, u.length))
    (h : Gap after text) : Gap after (c :: (u ++ text)) := by
  have hshape : Shape (c :: u) .skip := shape_of_classify hclassify nofun
  generalize hw : c :: u = w at hshape
  generalize hl : Lexeme.skip = l at hshape
  cases hshape with
  | blanks _ hall =>
    subst hw
    exact Gap.blanks hall h
  | brace hbody =>
    cases hw
    simpa using h.brace hbody
  | star hbody =>
    cases hw
    exact h.star hbody
  | line hbody =>
    cases hw
    exact h.line hbody (line_of_classify hbody hclassify)
  | decimal => exact absurd hl.symm (numberLexeme_ne_skip _ _ _)
  | hex => exact absurd hl.symm (numberLexeme_ne_skip _ _ _)
  | _ => cases hl

-- ---------------------------------------------------------------------------
-- Byte offsets
-- ---------------------------------------------------------------------------

/-- Where `text` stands behind `before`. -/
def spanOf (before text : List Char) : Span :=
  ⟨byteSize before, byteSize (before ++ text)⟩

theorem ofRange_eq_spanOf (before text : List Char)
    (h : byteSize (before ++ text) ≤ Span.limit) :
    Span.ofRange (byteSize before) (byteSize before + byteSize text) = spanOf before text := by
  rw [byteSize_append] at h
  simp only [Span.ofRange, spanOf, byteSize_append, Span.mk.injEq]
  omega

/-- Within the limit, the span of what is read first is not cut short. -/
theorem ofRange_head (before u rest : List Char) (c : Char)
    (h : byteSize (before ++ c :: (u ++ rest)) ≤ Span.limit) :
    Span.ofRange (byteSize before) (byteSize before + byteSize (c :: u)) =
      spanOf before (c :: u) := by
  refine ofRange_eq_spanOf before (c :: u) ?_
  have hall : before ++ c :: (u ++ rest) = before ++ c :: u ++ rest := by simp
  rw [hall, byteSize_append] at h
  omega

-- ---------------------------------------------------------------------------
-- Gaps and tokens in turn
-- ---------------------------------------------------------------------------

/-- The text is one token, read from its first character to its last. -/
def Alone (text : List Char) (kind : Kind) : Prop :=
  lex (String.ofList text) = .ok [⟨kind, spanOf [] text⟩]

/-- The tokens of a text behind `before`, each after a gap, with a gap behind the last. -/
inductive Tiles : List Char → List Char → List Token → Prop
  | done : Gap [] text → Tiles before text []
  | token : Gap (text ++ rest) gap → text ≠ [] → Alone text kind →
      Tiles (before ++ gap ++ text) rest tokens →
      Tiles before (gap ++ (text ++ rest)) (⟨kind, spanOf (before ++ gap) text⟩ :: tokens)

theorem alone_of_shape (h : Shape (c :: u) (.token kind)) (hsize : byteSize (c :: u) ≤ Span.limit) :
    Alone (c :: u) kind := by
  have hspan : Span.ofRange 0 (0 + byteSize (c :: u)) = spanOf [] (c :: u) :=
    ofRange_eq_spanOf [] (c :: u) hsize
  simp [Alone, lex, h.lexFrom_eq, ← hspan]

/-- What is skipped goes to the first gap. -/
theorem Tiles.skip (hclassify : classify c (u ++ rest) = (.skip, u.length))
    (h : Tiles (before ++ c :: u) rest tokens) : Tiles before (c :: (u ++ rest)) tokens := by
  cases h with
  | done hgap =>
    refine .done (hgap.skip ?_)
    simpa using hclassify
  | @token text rest gap kind _ tokens hgap hne halone hrest =>
    have hrest : Tiles (before ++ c :: (u ++ gap) ++ text) rest tokens := by simpa using hrest
    simpa using Tiles.token (hgap.skip hclassify) hne halone hrest

theorem Tiles.read (hclassify : classify c (u ++ rest) = (.token kind, u.length))
    (hsize : byteSize (before ++ c :: (u ++ rest)) ≤ Span.limit)
    (h : Tiles (before ++ c :: u) rest tokens) :
    Tiles before (c :: (u ++ rest)) (⟨kind, spanOf before (c :: u)⟩ :: tokens) := by
  have hown : byteSize (c :: u) ≤ Span.limit := by
    rw [← List.cons_append, byteSize_append, byteSize_append] at hsize
    omega
  have halone := alone_of_shape (shape_of_classify hclassify nofun) hown
  have htiles : Tiles (before ++ [] ++ c :: u) rest tokens := by simpa using h
  simpa using Tiles.token .nil (List.cons_ne_nil c u) halone htiles

theorem taken_of_classify (h : classify c cs = (l, n)) :
    ∃ u rest, cs = u ++ rest ∧ n = u.length := by
  have hle := classify_le c cs
  rw [h] at hle
  exact ⟨cs.take n, cs.drop n, (List.take_append_drop n cs).symm, by simpa using hle⟩

theorem tiles_of_lexFrom (hlex : lexFrom (byteSize before) cs = .ok tokens)
    (hsize : byteSize (before ++ cs) ≤ Span.limit) : Tiles before cs tokens := by
  generalize hoffset : byteSize before = offset at hlex
  fun_induction lexFrom offset cs generalizing before tokens with
  | case1 =>
    cases hlex
    exact .done .nil
  | case2 offset c cs n stop hclassify =>
    -- What is skipped stands before the rest, which has its tokens by induction.
    rename_i ih
    obtain ⟨u, rest, rfl, rfl⟩ := taken_of_classify hclassify
    rw [List.drop_left] at ih hlex
    exact .skip hclassify (ih (by simpa using hsize) (by simp [stop, hoffset]) hlex)
  | case3 => cases hlex
  | case4 offset c cs n stop kind tokens' hrest hclassify =>
    rename_i ih
    obtain ⟨u, rest, rfl, rfl⟩ := taken_of_classify hclassify
    rw [List.drop_left] at ih hrest
    cases hlex
    have hspan : Span.ofRange offset stop = spanOf before (c :: u) := by
      rw [← ofRange_head before u rest c hsize, hoffset]
      simp [stop]
    rw [hspan]
    exact .read hclassify hsize (ih (by simpa using hsize) (by simp [stop, hoffset]) hrest)
  | case5 => cases hlex

-- ---------------------------------------------------------------------------
-- The spans of a tiling
-- ---------------------------------------------------------------------------

/-- The spans before, between and after the given ones, from `start` to `stop`. -/
def gapsAround (start : Nat) (spans : List Span) (stop : Nat) : List Span :=
  match spans with
  | [] => [⟨start, stop⟩]
  | s :: rest => ⟨start, s.start⟩ :: gapsAround s.stop rest stop

/-- The span covers `text`, which `after` follows. -/
def Covers (source : List Char) (span : Span) (text after : List Char) : Prop :=
  ∃ before, source = before ++ text ++ after ∧ span = spanOf before text

theorem Tiles.bounds (h : Tiles before cs tokens) :
    ∀ t ∈ tokens, byteSize before ≤ t.span.start ∧ t.span.start < t.span.stop ∧
      t.span.stop ≤ byteSize (before ++ cs) := by
  induction h with
  | done => nofun
  | token _ hne _ _ ih =>
    have hpos := byteSize_pos hne
    simp only [byteSize_append] at ih
    refine List.forall_mem_cons.mpr ⟨?_, fun t ht => ?_⟩
    · simp only [spanOf, byteSize_append]
      omega
    · have hrest := ih t ht
      simp only [byteSize_append]
      omega

theorem Tiles.ordered (h : Tiles before cs tokens) :
    (tokens.map Token.span).Pairwise fun s t => s.stop ≤ t.start := by
  induction h with
  | done => exact .nil
  | token _ _ _ hrest ih =>
    refine .cons ?_ ih
    simpa [spanOf] using fun t ht => (hrest.bounds t ht).1

theorem Tiles.gap (h : Tiles before cs tokens) :
    ∀ gap ∈ gapsAround (byteSize before) (tokens.map Token.span) (byteSize (before ++ cs)),
      ∃ text after, Covers (before ++ cs) gap text after ∧ Gap after text := by
  induction h with
  | @done text before hgap =>
    simp only [List.map_nil, gapsAround, List.forall_mem_singleton]
    exact ⟨text, [], ⟨before, by simp, rfl⟩, hgap⟩
  | @token text rest gap kind before tokens hgap _ _ _ ih =>
    refine List.forall_mem_cons.mpr ⟨?_, ?_⟩
    · exact ⟨gap, text ++ rest, ⟨before, by simp, rfl⟩, hgap⟩
    · simpa [spanOf] using ih

theorem Tiles.alone (h : Tiles before cs tokens) :
    ∀ t ∈ tokens, ∃ text after, Covers (before ++ cs) t.span text after ∧ Alone text t.kind := by
  induction h with
  | done => nofun
  | @token text rest gap kind before tokens _ _ halone _ ih =>
    refine List.forall_mem_cons.mpr ⟨?_, ?_⟩
    · exact ⟨text, rest, ⟨before ++ gap, by simp, rfl⟩, halone⟩
    · simpa using ih

-- ---------------------------------------------------------------------------
-- The tokens of a source
-- ---------------------------------------------------------------------------

/-- How the tokens of a source lie in it. -/
structure Tiling (source : String) (tokens : List Token) : Prop where
  ordered : (tokens.map Token.span).Pairwise fun s t => s.stop ≤ t.start
  within : ∀ t ∈ tokens, t.span.start < t.span.stop ∧ t.span.stop ≤ source.utf8ByteSize
  ended : endSpan source = ⟨source.utf8ByteSize, source.utf8ByteSize⟩
  gap : ∀ gap ∈ gapsAround 0 (tokens.map Token.span) source.utf8ByteSize,
    ∃ text after, Covers source.toList gap text after ∧ Gap after text
  alone : ∀ t ∈ tokens, ∃ text : String, ∃ after, Covers source.toList t.span text.toList after ∧
    lex text = .ok [⟨t.kind, ⟨0, text.utf8ByteSize⟩⟩] ∧
    endSpan text = ⟨text.utf8ByteSize, text.utf8ByteSize⟩

theorem endSpan_eq (h : source.utf8ByteSize ≤ Span.limit) :
    endSpan source = ⟨source.utf8ByteSize, source.utf8ByteSize⟩ := by
  simp [endSpan, Span.ofRange, h]

theorem lexFrom_of_lex (h : lex source = .ok tokens) : lexFrom 0 source.toList = .ok tokens := by
  unfold lex at h
  split at h
  · next hlex =>
    cases h
    exact hlex
  · cases h

theorem lex_tiling (hsize : source.utf8ByteSize < 2 ^ 32) (hlex : lex source = .ok tokens) :
    Tiling source tokens := by
  have hlimit : source.utf8ByteSize ≤ Span.limit := Nat.le_of_lt_succ hsize
  have hbytes : byteSize ([] ++ source.toList) = source.utf8ByteSize := byteSize_toList source
  have htiles : Tiles [] source.toList tokens :=
    tiles_of_lexFrom (lexFrom_of_lex hlex) (hbytes.symm ▸ hlimit)
  refine ⟨htiles.ordered, fun t ht => ?_, endSpan_eq hlimit, ?_, fun t ht => ?_⟩
  · have hbounds := htiles.bounds t ht
    rw [hbytes] at hbounds
    exact hbounds.2
  · have hgap := htiles.gap
    rwa [hbytes] at hgap
  · obtain ⟨text, after, ⟨before, hsource, hspan⟩, halone⟩ := htiles.alone t ht
    have htext : byteSize text = (String.ofList text).utf8ByteSize := by
      simpa using byteSize_toList (String.ofList text)
    have hle : byteSize text ≤ source.utf8ByteSize := by
      rw [← hbytes, hsource, byteSize_append, byteSize_append]
      omega
    have hcovers : Covers source.toList t.span (String.ofList text).toList after :=
      ⟨before, by simpa using hsource, by simpa using hspan⟩
    refine ⟨String.ofList text, after, hcovers, ?_, ?_⟩
    · rw [halone, ← htext]
      rfl
    · exact endSpan_eq (htext ▸ hle.trans hlimit)

/-- The star comment closes at its second star, and the number ends before the word. -/
theorem lex_tiling_comments :
    let source := "x:='it''s'(*)*)<>12ab// b"
    let tokens : List Token := [⟨.ident "x", ⟨0, 1⟩⟩, ⟨.sign .assign, ⟨1, 3⟩⟩,
      ⟨.str "it's", ⟨3, 10⟩⟩, ⟨.sign .ne, ⟨15, 17⟩⟩, ⟨.int 12, ⟨17, 19⟩⟩, ⟨.ident "ab", ⟨19, 21⟩⟩]
    source.utf8ByteSize < 2 ^ 32 ∧ lex source = .ok tokens ∧ Tiling source tokens := by
  intro source tokens
  have hsize : source.utf8ByteSize < 2 ^ 32 := by decide
  have hlex : lex source = .ok tokens := by decide +kernel
  exact ⟨hsize, hlex, lex_tiling hsize hlex⟩

end Cartridge.Pascal
