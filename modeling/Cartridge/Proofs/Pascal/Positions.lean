import Cartridge.Compiler.Stages
import Cartridge.Partial
import Cartridge.Proofs.Pascal.Faults
import Cartridge.Proofs.Pascal.Tiling
import Mathlib.Data.List.DropRight
import Mathlib.Data.List.Induction

/-!
# The positions of errors

Offsets count bytes and columns count characters. Both are told by the text in
front of a place: its size, the newlines in it, and how many characters stand
behind the last of them. An error covers a piece of its source, a lexeme, a token
or nothing at the end, and its line and column are those of where the piece begins.
The two are counted in 32 bits, and there is one length of source below 4 GiB at
which a counter can reach its end.
-/

namespace Cartridge.Pascal

-- ---------------------------------------------------------------------------
-- Line and column
-- ---------------------------------------------------------------------------

/-- Line and column behind one more character. -/
def advance (p : Position) (c : Char) : Position :=
  if c = '\n' then ⟨p.line + 1, 1⟩ else ⟨p.line, p.column + 1⟩

/-- How many lines end in `before`. -/
def newlines (before : List Char) : Nat :=
  before.count '\n'

/-- How many characters stand on the last line of `before`. -/
def lastLine (before : List Char) : Nat :=
  (before.rtakeWhile (· != '\n')).length

/-- Line and column behind `before`, as they are counted. -/
def positionAfter (before : List Char) : Position :=
  ⟨UInt32.ofNat (newlines before + 1), UInt32.ofNat (lastLine before + 1)⟩

theorem positionAfter_concat (before : List Char) (c : Char) :
    positionAfter (before ++ [c]) = advance (positionAfter before) c := by
  by_cases hc : c = '\n'
  · simp [positionAfter, newlines, lastLine, advance, hc, UInt32.ofNat_add]
  · simp [positionAfter, newlines, lastLine, advance, hc, UInt32.ofNat_add]

theorem foldl_advance (before : List Char) :
    before.foldl advance ⟨1, 1⟩ = positionAfter before := by
  induction before using List.reverseRecOn with
  | nil => rfl
  | append_singleton before c ih =>
    rw [List.foldl_concat, ih, positionAfter_concat]

theorem ofList_cons (c : Char) (cs : List Char) :
    String.ofList (c :: cs) = String.singleton c ++ String.ofList cs := by
  rw [← String.toList_inj]
  simp

/-- The walk stops where its offset is, if a character begins or the text ends there. -/
theorem walk_splits {p : source.Pos} (h : p.Splits front (String.ofList (text ++ after))) :
    Position.walk source (front.utf8ByteSize + byteSize text) p line column =
      text.foldl advance ⟨line, column⟩ := by
  induction text generalizing p front line column with
  | nil =>
    rw [Position.walk]
    split
    · rfl
    · rw [if_pos (by simp [h.offset_eq_rawEndPos, byteSize])]
      rfl
  | cons c text ih =>
    rw [List.cons_append, ofList_cons] at h
    have hmore : p ≠ source.endPos := fun hend => by simpa using h.eq_endPos_iff.mp hend
    have hnext := h.next
    have hget : p.get hmore = c := hnext.get_eq_of_singleton
    have hsize : front.utf8ByteSize + byteSize (c :: text) =
        (front ++ String.singleton c).utf8ByteSize + byteSize text := by
      simp only [byteSize_eq_utf8Len, String.utf8Len_cons, String.utf8ByteSize_append,
        String.utf8ByteSize_singleton]
      omega
    have hahead : ¬ front.utf8ByteSize + byteSize (c :: text) ≤ p.offset.byteIdx := by
      have hpos := c.utf8Size_pos
      simp only [hsize, h.offset_eq_rawEndPos, String.utf8ByteSize_append, String.rawEndPos]
      simp
      omega
    rw [Position.walk, dif_neg hmore, if_neg hahead, hget, hsize, ih hnext, ih hnext,
      List.foldl_cons, advance]
    split <;> rfl

theorem position_spanOf (h : source.toList = before ++ text ++ after) :
    (spanOf before text).position source = positionAfter before := by
  have hsource : source = String.ofList (before ++ (text ++ after)) := by
    rw [← List.append_assoc, ← h, String.ofList_toList]
  have hsplits : source.startPos.Splits "" (String.ofList (before ++ (text ++ after))) := by
    rw [← hsource]
    exact source.splits_startPos
  have hwalk : _ = List.foldl advance ⟨1, 1⟩ before := walk_splits hsplits
  rw [String.utf8ByteSize_empty, Nat.zero_add, foldl_advance] at hwalk
  exact hwalk

theorem length_le_byteSize (cs : List Char) : cs.length ≤ byteSize cs := by
  induction cs with
  | nil => exact Nat.zero_le _
  | cons c cs ih =>
    have hpos := c.utf8Size_pos
    rw [byteSize_eq_utf8Len] at ih ⊢
    rw [List.length_cons, String.utf8Len_cons]
    omega

theorem newlines_le (before : List Char) : newlines before ≤ byteSize before :=
  List.count_le_length.trans (length_le_byteSize before)

theorem lastLine_le (before : List Char) : lastLine before ≤ byteSize before := by
  have hsuffix : before.rtakeWhile (· != '\n') <:+ before := List.rtakeWhile_suffix _ _
  exact hsuffix.length_le.trans (length_le_byteSize before)

/-- A line does not become longer without a character more. -/
theorem eq_nil_of_lastLine (hline : newlines (before ++ more) = newlines before)
    (hcolumn : lastLine (before ++ more) = lastLine before) : more = [] := by
  rw [newlines, newlines, List.count_append] at hline
  have hmore : ∀ c ∈ more.reverse, (c != '\n') = true := by
    have hnone : '\n' ∉ more := List.count_eq_zero.mp (by omega)
    exact bne_of_notMem (by rwa [List.mem_reverse])
  simp only [lastLine, List.rtakeWhile, List.reverse_append, List.takeWhile_append_of_pos hmore,
    List.length_append, List.length_reverse] at hcolumn
  exact List.length_eq_zero_iff.mp (by omega)

/-- Line and column tell one place of a source from all others. -/
theorem eq_of_lastLine (h : before ++ after = before' ++ after')
    (hline : newlines before' = newlines before) (hcolumn : lastLine before' = lastLine before) :
    before' = before := by
  obtain ⟨more, rfl, -⟩ | ⟨more, rfl, -⟩ := List.append_eq_append_iff.mp h
  · rw [eq_nil_of_lastLine hline hcolumn, List.append_nil]
  · rw [eq_nil_of_lastLine hline.symm hcolumn.symm, List.append_nil]

-- ---------------------------------------------------------------------------
-- What errors cover
-- ---------------------------------------------------------------------------

/-- A fault of a text behind `before` covers the lexeme that it is. -/
theorem covers_of_lexFrom (hlex : lexFrom (byteSize before) cs = .error fault)
    (hsize : byteSize (before ++ cs) ≤ Span.limit) :
    ∃ text after, Covers (before ++ cs) fault.span text after := by
  generalize hoffset : byteSize before = offset at hlex
  fun_induction lexFrom offset cs generalizing before with
  | case1 => cases hlex
  | case2 offset c cs n stop hclassify =>
    rename_i ih
    obtain ⟨u, rest, rfl, rfl⟩ := taken_of_classify hclassify
    rw [List.drop_left] at ih hlex
    have hcovers : ∃ text after, Covers (before ++ c :: u ++ rest) fault.span text after :=
      ih (by simpa using hsize) (by simp [stop, hoffset]) hlex
    simpa using hcovers
  | case3 offset c cs n stop cause =>
    rename_i hclassify
    obtain ⟨u, rest, rfl, rfl⟩ := taken_of_classify hclassify
    cases hlex
    refine ⟨c :: u, rest, before, by simp, ?_⟩
    rw [← ofRange_head before u rest c hsize, hoffset]
    simp [stop]
  | case4 => cases hlex
  | case5 offset c cs n stop kind _ hrest hclassify =>
    rename_i ih
    obtain ⟨u, rest, rfl, rfl⟩ := taken_of_classify hclassify
    rw [List.drop_left] at ih hrest
    cases hlex
    have hcovers : ∃ text after, Covers (before ++ c :: u ++ rest) fault.span text after :=
      ih (by simpa using hsize) (by simp [stop, hoffset]) hrest
    simpa using hcovers

theorem parse_eq_error_iff :
    parse source = .error e ↔
      (∃ fault, lexFrom 0 source.toList = .error fault ∧
        e = .locate source fault.cause fault.span) ∨
      ∃ tokens fault, lexFrom 0 source.toList = .ok tokens ∧
        parseTokens tokens = .error fault ∧ e = fault.toError source := by
  unfold parse lex
  cases lexFrom 0 source.toList with
  | error fault => simp [bind, Except.bind, eq_comm]
  | ok tokens =>
    cases hp : parseTokens tokens with
    | error fault => simp [bind, Except.bind, hp, eq_comm]
    | ok q => simp [bind, Except.bind, pure, Except.pure, hp]

/-- The end of a source is a piece of it without characters. -/
theorem covers_endSpan (hsize : source.utf8ByteSize ≤ Span.limit) :
    Covers source.toList (endSpan source) [] [] := by
  refine ⟨source.toList, by simp, ?_⟩
  rw [endSpan_eq hsize, spanOf, List.append_nil, byteSize_toList]

/-- A syntax error covers one of the tokens, or it stands at the end. -/
theorem covers_of_parseTokens (hlex : lexFrom 0 source.toList = .ok tokens)
    (hsize : source.utf8ByteSize ≤ Span.limit) (h : parseTokens tokens = .error fault) :
    ∃ cause span, fault.toError source = .locate source cause span ∧
      ∃ text after, Covers source.toList span text after := by
  have htiles : Tiles [] source.toList tokens :=
    tiles_of_lexFrom hlex (by rwa [List.nil_append, byteSize_toList])
  have htoken : ∀ t ∈ tokens, ∃ text after, Covers source.toList t.span text after := by
    intro t ht
    obtain ⟨text, after, hcovers, -⟩ := htiles.alone t ht
    exact ⟨text, after, hcovers⟩
  have hsub := tokens_subset_of_parseTokens h
  cases fault with
  | expected what rest =>
    cases rest with
    | nil => exact ⟨_, _, rfl, [], [], covers_endSpan hsize⟩
    | cons t rest => exact ⟨_, _, rfl, htoken t (hsub List.mem_cons_self)⟩
  | unknownTier path start => exact ⟨_, _, rfl, htoken start (hsub List.mem_cons_self)⟩

theorem covers_of_parse (hsize : source.utf8ByteSize ≤ Span.limit) (h : parse source = .error e) :
    ∃ cause span, e = .locate source cause span ∧
      ∃ text after, Covers source.toList span text after := by
  obtain ⟨fault, hlex, rfl⟩ | ⟨tokens, fault, hlex, hfault, rfl⟩ := parse_eq_error_iff.mp h
  · have hcovers : ∃ text after, Covers ([] ++ source.toList) fault.span text after :=
      covers_of_lexFrom hlex (by rwa [List.nil_append, byteSize_toList])
    exact ⟨_, _, rfl, hcovers⟩
  · exact covers_of_parseTokens hlex hsize hfault

-- ---------------------------------------------------------------------------
-- What is reported
-- ---------------------------------------------------------------------------

/-- The error covers the piece `text` of its source, and names the place where the piece begins,
as far as 32 bits can. -/
structure Located (source : String) (e : ParseError) (before text after : List Char) : Prop where
  split : source.toList = before ++ text ++ after
  span : e.span = ⟨byteSize before, byteSize (before ++ text)⟩
  within : e.span.start ≤ e.span.stop ∧ e.span.stop ≤ source.utf8ByteSize
  line : e.position.line.toNat = (newlines before + 1) % 2 ^ 32
  column : e.position.column.toNat = (lastLine before + 1) % 2 ^ 32

/-- The line and the column of an error behind `before` are exact. -/
structure Pinned (source : String) (e : ParseError) (before : List Char) : Prop where
  line : e.position.line.toNat = newlines before + 1
  column : e.position.column.toNat = lastLine before + 1
  /-- No other place of the source has the same line and column. -/
  alone : ∀ before' after', source.toList = before' ++ after' →
    newlines before' + 1 = e.position.line.toNat →
    lastLine before' + 1 = e.position.column.toNat → byteSize before' = e.span.start

theorem located_of_covers (h : Covers source.toList span text after) :
    ∃ before, Located source (.locate source cause span) before text after := by
  obtain ⟨before, hsource, rfl⟩ := h
  have hpos : (spanOf before text).position source = positionAfter before :=
    position_spanOf hsource
  have hsize : source.utf8ByteSize = byteSize before + byteSize text + byteSize after := by
    rw [← byteSize_toList, hsource, byteSize_append, byteSize_append]
  refine ⟨before, hsource, rfl, ?_, ?_, ?_⟩
  · simp only [ParseError.locate, spanOf, byteSize_append]
    omega
  · rw [ParseError.locate, hpos, positionAfter, UInt32.toNat_ofNat']
  · rw [ParseError.locate, hpos, positionAfter, UInt32.toNat_ofNat']

/-- A source has to be one byte longer than 32 bits can count for a counter to reach its end. -/
theorem Located.pinned (h : Located source e before text after)
    (hsize : source.utf8ByteSize < 2 ^ 32 - 1) : Pinned source e before := by
  have hbefore : byteSize before < 2 ^ 32 - 1 := by
    have hspan := h.within
    rw [h.span] at hspan
    simp only [byteSize_append] at hspan
    omega
  have hline : e.position.line.toNat = newlines before + 1 := by
    have hle := newlines_le before
    rw [h.line, Nat.mod_eq_of_lt (by omega)]
  have hcolumn : e.position.column.toNat = lastLine before + 1 := by
    have hle := lastLine_le before
    rw [h.column, Nat.mod_eq_of_lt (by omega)]
  refine ⟨hline, hcolumn, fun before' after' hsplit hline' hcolumn' => ?_⟩
  have hsource := h.split
  rw [hsplit, List.append_assoc] at hsource
  rw [eq_of_lastLine hsource.symm (by omega) (by omega), h.span]

/-- Every error stands where it says, and is passed on with its code, its span and its place. Line
and column are exact in all sources but the longest; there they wrap around. -/
theorem parse_error_located (hsize : source.utf8ByteSize < 2 ^ 32)
    (h : parse source = .error e) :
    (∃ before text after, Located source e before text after ∧
      (source.utf8ByteSize < 2 ^ 32 - 1 → Pinned source e before)) ∧
      frontend.parse source = .error (.error e.toCompileError) ∧
      e.toCompileError.diagnostics =
        [{ code := e.code
           severity := .error
           message := "Parse error at line " ++ toString e.position.line ++ ", column " ++
             toString e.position.column ++ ": " ++ e.message
           span := e.span
           notes := [] }] := by
  obtain ⟨cause, span, rfl, text, after, hcovers⟩ := covers_of_parse (Nat.le_of_lt_succ hsize) h
  obtain ⟨before, hlocated⟩ := located_of_covers hcovers
  refine ⟨⟨before, text, after, hlocated, hlocated.pinned⟩, ?_, rfl⟩
  simp only [frontend, h, Except.mapError]

/-- An unknown tier is reported where its path begins, here behind letters of two bytes. -/
theorem parse_error_located_requires :
    let source := "\x7bü\x7d\nprocedure p; \x7böö\x7d requires Ext.Net"
    let e : ParseError := ⟨.unknownTier "Ext.Net", ⟨34, 37⟩, ⟨2, 28⟩⟩
    source.utf8ByteSize < 2 ^ 32 ∧ parse source = .error e ∧
      (∃ before text after, Located source e before text after ∧ Pinned source e before) ∧
      e.toCompileError.diagnostics.map Diagnostic.message =
        ["Parse error at line 2, column 28: unknown capability tier `Ext.Net`"] := by
  intro source e
  let tokens : List Token := [⟨.keyword .procedure, ⟨5, 14⟩⟩, ⟨.ident "p", ⟨15, 16⟩⟩,
    ⟨.sign .semicolon, ⟨16, 17⟩⟩, ⟨.keyword .requires, ⟨25, 33⟩⟩, ⟨.ident "Ext", ⟨34, 37⟩⟩,
    ⟨.sign .dot, ⟨37, 38⟩⟩, ⟨.ident "Net", ⟨38, 41⟩⟩]
  have hsize : source.utf8ByteSize < 2 ^ 32 := by decide
  have hlex : lexFrom 0 source.toList = .ok tokens := by decide +kernel
  have hfault : parseTokens tokens = .error (.unknownTier "Ext.Net" ⟨.ident "Ext", ⟨34, 37⟩⟩) := by
    cbv
  have hsplit : source.toList = source.toList.take 31 ++ "Ext".toList ++ ".Net".toList := by
    decide +kernel
  have hspan : spanOf (source.toList.take 31) "Ext".toList = ⟨34, 37⟩ := by decide +kernel
  have hposition : Span.position ⟨34, 37⟩ source = ⟨2, 28⟩ := by
    rw [← hspan, position_spanOf hsplit]
    decide +kernel
  have hparse : parse source = .error e :=
    parse_eq_error_iff.mpr (.inr ⟨tokens, _, hlex, hfault, by
      simp only [Fault.toError, ParseError.locate, hposition, e]⟩)
  obtain ⟨⟨before, text, after, hlocated, hpinned⟩, -, hreport⟩ := parse_error_located hsize hparse
  refine ⟨hsize, hparse, ⟨before, text, after, hlocated, hpinned (by decide)⟩, ?_⟩
  rw [hreport]
  decide +kernel

-- ---------------------------------------------------------------------------
-- A counter at its end
-- ---------------------------------------------------------------------------

theorem lexFrom_blanks (n offset : Nat) : lexFrom offset (List.replicate n ' ') = .ok [] := by
  induction n generalizing offset with
  | zero => rw [List.replicate_zero, lexFrom]
  | succ n ih =>
    rw [List.replicate_succ, lexFrom_blank (by decide), ih]

theorem byteSize_blanks (n : Nat) : byteSize (List.replicate n ' ') = n := by
  induction n with
  | zero => rfl
  | succ n ih =>
    rw [List.replicate_succ', byteSize_append, ih]
    rfl

theorem lastLine_blanks (n : Nat) : lastLine (List.replicate n ' ') = n := by
  simp [lastLine, List.rtakeWhile]

theorem newlines_blanks (n : Nat) : newlines (List.replicate n ' ') = 0 := by
  simp [newlines, List.count_replicate]

/-- Blanks alone are no program, which is told at their end. -/
theorem parse_blanks (hn : n ≤ Span.limit) :
    let source := String.ofList (List.replicate n ' ')
    parse source = .error ⟨.expected (.token (.keyword .begin)) none, ⟨n, n⟩,
      ⟨1, UInt32.ofNat (n + 1)⟩⟩ := by
  intro source
  have hchars : source.toList = List.replicate n ' ' := String.toList_ofList
  have hsize : source.utf8ByteSize = n := by
    rw [← byteSize_toList, hchars, byteSize_blanks]
  have hspan : endSpan source = spanOf source.toList [] := by
    rw [endSpan_eq (hsize.trans_le hn), spanOf, List.append_nil, byteSize_toList]
  have hwhole : source.toList = source.toList ++ [] ++ [] := by simp
  have hposition : (endSpan source).position source = ⟨1, UInt32.ofNat (n + 1)⟩ := by
    rw [hspan, position_spanOf hwhole, hchars, positionAfter, newlines_blanks, lastLine_blanks]
    rfl
  have hfault : parseTokens [] = .error (.expected (.token (.keyword .begin)) []) := by cbv
  refine parse_eq_error_iff.mpr (.inr ⟨[], _, ?_, hfault, ?_⟩)
  · rw [hchars, lexFrom_blanks]
  · rw [Fault.toError, ParseError.locate, hposition, endSpan_eq (hsize.trans_le hn), hsize]

/-- Behind as many blanks as 32 bits can count, the column is zero. -/
theorem parse_error_column_wraps :
    let source := String.ofList (List.replicate (2 ^ 32 - 1) ' ')
    source.utf8ByteSize < 2 ^ 32 ∧
      ∃ e, parse source = .error e ∧ e.span = ⟨source.utf8ByteSize, source.utf8ByteSize⟩ ∧
        e.position.column.toNat = 0 ∧ lastLine source.toList + 1 = 2 ^ 32 := by
  intro source
  have hchars : source.toList = List.replicate (2 ^ 32 - 1) ' ' := String.toList_ofList
  have hsize : source.utf8ByteSize = 2 ^ 32 - 1 := by
    rw [← byteSize_toList, hchars, byteSize_blanks]
  refine ⟨hsize.trans_lt (by decide), _, parse_blanks (Nat.le_refl _), ?_, rfl, ?_⟩
  · rw [hsize]
  · rw [hchars, lastLine_blanks]
    decide

end Cartridge.Pascal
