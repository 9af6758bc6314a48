import Cartridge.Proofs.Pascal.Lexemes

/-!
# Quotation

A text without newlines is written as a string literal by doubling its quotes,
and is read back from there, wherever its quotes stand. A string that its line
does not close is a fault, at the quote that opens it.
-/

namespace Cartridge.Pascal

/-- The characters with every quote written twice. -/
def doubleQuotes (cs : List Char) : List Char :=
  cs.flatMap fun c => if c = '\'' then ['\'', '\''] else [c]

/-- A text as a string literal. -/
def quotation (s : String) : String :=
  String.ofList ('\'' :: (doubleQuotes s.toList ++ ['\'']))

/-- Whether a line closes the string that is open in front of it: from left to
right, two quotes in a row stand for one, and any other quote closes. -/
def closes : List Char → Bool
  | [] => false
  | '\'' :: '\'' :: cs => closes cs
  | '\'' :: _ => true
  | _ :: cs => closes cs

theorem quoted_doubleQuotes (h : '\n' ∉ cs) : Quoted (doubleQuotes cs) cs := by
  induction cs with
  | nil => exact .nil
  | cons c cs ih =>
    obtain ⟨hc, hcs⟩ := not_or.mp (mt List.mem_cons.mpr h)
    by_cases hquote : c = '\''
    · subst hquote
      exact (ih hcs).pair
    · simpa [doubleQuotes, hquote] using (ih hcs).char hquote (Ne.symm hc)

/-- A line that does not close the string is made of pairs and other characters. -/
theorem quoted_of_closes (hline : '\n' ∉ line) (h : closes line = false) :
    ∃ content, Quoted line content := by
  fun_induction closes line with
  | case1 => exact ⟨[], .nil⟩
  | case2 cs ih =>
    obtain ⟨content, hquoted⟩ := ih (by simp_all) h
    exact ⟨_, hquoted.pair⟩
  | case3 => cases h
  | case4 c cs _ hquote ih =>
    obtain ⟨hc, hcs⟩ := not_or.mp (mt List.mem_cons.mpr hline)
    obtain ⟨content, hquoted⟩ := ih hcs h
    exact ⟨_, hquoted.char hquote (Ne.symm hc)⟩

theorem lexFrom_quotation (h : '\n' ∉ s.toList) (offset : Nat) :
    lexFrom offset (quotation s).toList =
      .ok [⟨.str s, .ofRange offset (offset + (quotation s).utf8ByteSize)⟩] := by
  have hshape := Shape.string (quoted_doubleQuotes h)
  rw [String.ofList_toList] at hshape
  rw [← byteSize_toList, quotation, String.toList_ofList]
  exact hshape.lexFrom_eq offset

theorem lexFrom_unclosed (h : closes (cs.takeWhile (· != '\n')) = false) (offset : Nat) :
    lexFrom offset ('\'' :: cs) = .error ⟨.unterminatedString,
      .ofRange offset (offset + byteSize ('\'' :: cs.takeWhile (· != '\n')))⟩ := by
  have hline : '\n' ∉ cs.takeWhile (· != '\n') := by
    intro hmem
    simpa using List.mem_takeWhile_imp hmem
  obtain ⟨content, hquoted⟩ := quoted_of_closes hline h
  -- What follows the line is the newline that ends it, or nothing.
  have hrest : ∀ c ∈ (cs.dropWhile (· != '\n')).head?, c = '\n' := by
    intro c hc
    have hstop := List.head?_dropWhile_not (· != '\n') cs
    rw [Option.mem_def.mp hc] at hstop
    simpa using hstop
  have hclassify := (classify_quote _).trans (stringLexeme_open hquoted hrest)
  rw [← lexFrom_fault hclassify, List.takeWhile_append_dropWhile]

/-- A text is read back from its quotation, and a string that its line leaves open is reported
where it opens. -/
theorem lex_quotation (s source : String) :
    ('\n' ∉ s.toList →
      lex (quotation s) = .ok [⟨.str s, .ofRange 0 (quotation s).utf8ByteSize⟩]) ∧
    (∀ cs, source.toList = '\'' :: cs → closes (cs.takeWhile (· != '\n')) = false →
      ∃ e, lex source = .error e ∧ e.cause = .unterminatedString ∧ e.code.text = "E0002" ∧
        e.span.start = 0) := by
  constructor
  · intro h
    simp [lex, lexFrom_quotation h]
  · intro cs hsource hopen
    have hlex := lexFrom_unclosed hopen 0
    rw [← hsource] at hlex
    exact ⟨_, by rw [lex, hlex], rfl, rfl, Nat.zero_min _⟩

/-- Runs of quotes at both ends and in the middle; an open string whose last quotes are a pair. -/
theorem lex_quotation_runs :
    lex "'''a''''b'''''" = .ok [⟨.str "'a''b''", ⟨0, 14⟩⟩] ∧
      ∃ e, lex "'it''s ''\n' 'x'" = .error e ∧ e.cause = .unterminatedString ∧
        e.code.text = "E0002" ∧ e.span.start = 0 := by
  have htext : quotation "'a''b''" = "'''a''''b'''''" := by decide +kernel
  have hread := (lex_quotation "'a''b''" "").1 (by decide)
  rw [htext] at hread
  exact ⟨hread, (lex_quotation "" "'it''s ''\n' 'x'").2 _ rfl (by decide +kernel)⟩

end Cartridge.Pascal
