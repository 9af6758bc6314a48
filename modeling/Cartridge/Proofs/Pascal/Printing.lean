import Cartridge.Proofs.Pascal.Lexemes
import Cartridge.Proofs.Pascal.Names

/-!
# Printed expressions

The text of an expression is read back as the expression, up to its truth
values, which are printed as numbers. The text lexes to the kinds of a factor,
whatever stands behind it that does not run on from a name, a number or a
string.
-/

namespace Cartridge.Pascal

open Grammar

/-- Literals whose text is one of a source: the lowest number has no positive
counterpart, and a string is printed without doubling its quotes. -/
def Literal.isPrintable : Literal → Bool
  | .int v => Int64.minValue < v
  | .bool _ => true
  | .str s => s.toList.all fun c => c != '\'' && c != '\n'

def Expr.isPrintable (e : Expr) : Bool :=
  e.all Literal.isPrintable isName

-- ---------------------------------------------------------------------------
-- Lexing by kinds
-- ---------------------------------------------------------------------------

/-- Wherever `cs` stands in a source, its tokens are of the kinds `ks`. -/
def Lexes (cs : List Char) (ks : List Kind) : Prop :=
  ∀ offset, (lexFrom offset cs).map kinds = .ok ks

theorem lexes_nil : Lexes [] [] := by
  intro offset
  simp [lexFrom, Except.map, kinds]

theorem Lexes.token (h : Lexes rest ks)
    (hclassify : classify c (u ++ rest) = (.token k, u.length)) :
    Lexes (c :: (u ++ rest)) (k :: ks) := by
  intro offset
  have hrest := h (offset + byteSize (c :: u))
  rw [lexFrom_token hclassify]
  cases hlex : lexFrom (offset + byteSize (c :: u)) rest with
  | error fault => simp [hlex, Except.map] at hrest
  | ok tokens => simpa [hlex, Except.map, kinds] using hrest

/-- Whether the second character makes more of a sign than the sign. -/
def joins (c d : Char) : Bool :=
  (Sign.ofPair? c d).isSome || (c == '(' && d == '*') || (c == '/' && d == '/')

theorem classify_of_not_joins (hs : Sign.ofChar? c = some s)
    (hnext : ∀ d ∈ cs.head?, joins c d = false) : classify c cs = (.token (.sign s), 0) := by
  rw [classify_of_sign hs]
  cases cs with
  | nil => simp [signLexeme, hs]
  | cons d cs =>
    have hd := hnext d rfl
    simp only [joins, Bool.or_eq_false_iff, Option.isSome_eq_false_iff, Option.isNone_iff_eq_none]
      at hd
    simp [hd, signLexeme, hs]

theorem Lexes.sign (h : Lexes rest ks) (c : Char) (hs : Sign.ofChar? c = some s)
    (hnext : ∀ d ∈ rest.head?, joins c d = false) : Lexes (c :: rest) (.sign s :: ks) :=
  Lexes.token (u := []) h (classify_of_not_joins hs hnext)

theorem Lexes.layout (h : Lexes rest ks) (hc : isLayout c) : Lexes (c :: rest) ks := by
  intro offset
  rw [lexFrom_blank hc]
  exact h (offset + c.utf8Size)

theorem Lexes.blank (h : Lexes rest ks) : Lexes (' ' :: rest) ks :=
  h.layout rfl

/-- The text does not go on with a name, a number or a string that stands before it. -/
def Stops (rest : List Char) : Prop :=
  ∀ c ∈ rest.head?, isWordPart c = false ∧ c ≠ '\''

theorem stops_cons (hc : isWordPart c = false) (hquote : c ≠ '\'') (rest : List Char) :
    Stops (c :: rest) := by
  simp [Stops, hc, hquote]

theorem Lexes.word (h : Lexes rest ks) (hx : isWord x) (hrest : Stops rest) :
    Lexes (x.toList ++ rest) (wordKind x :: ks) := by
  obtain ⟨c, u, hword, hstart, hall⟩ := isWord_cons hx
  have htake : (u ++ rest).takeWhile isWordPart = u := by
    refine takeWhile_stop (fun d hd => hall d ?_) fun d hd => (hrest d hd).1
    simp [hword, hd]
  rw [hword]
  refine h.token ?_
  rw [classify_word hstart, htake, ← hword, String.ofList_toList]

theorem wordKind_text (k : Keyword) : wordKind k.text = .keyword k := by
  cases k <;> decide +kernel

theorem Lexes.keyword (h : Lexes rest ks) (k : Keyword) (hrest : Stops rest) :
    Lexes (k.text.toList ++ rest) (.keyword k :: ks) := by
  have hword : isWord k.text := by cases k <;> rfl
  rw [← wordKind_text k]
  exact h.word hword hrest

theorem Lexes.decimal {v : Int64} {n : Nat} (h : Lexes rest ks) (hv : v.toInt = n)
    (hrest : Stops rest) : Lexes (Nat.toDigits 10 n ++ rest) (.int v :: ks) := by
  obtain ⟨c, u, hdigits⟩ := List.exists_cons_of_ne_nil (Nat.toDigits_ne_nil (n := n) (b := 10))
  have hall : ∀ d ∈ c :: u, d.isDigit := hdigits ▸ fun d hd => Text.isDigit_of_mem_decimal hd
  obtain ⟨hc, hu⟩ := List.forall_mem_cons.mp hall
  have htake : (u ++ rest).takeWhile Char.isDigit = u := by
    refine takeWhile_stop hu fun d hd => Bool.eq_false_iff.mpr fun hdigit => ?_
    exact Bool.eq_false_iff.mp (hrest d hd).1 (isWordPart_of_isDigit hdigit)
  have hfit : Text.fit n = some v := Text.fit_eq_some_iff.mpr hv
  rw [hdigits]
  refine h.token ?_
  rw [classify_digit hc, htake, ← hdigits]
  simp [numberLexeme, Text.digitsValue_toDigits, hfit]

theorem Lexes.string (h : Lexes rest ks) (hs : ∀ c ∈ s, c ≠ '\'' ∧ c ≠ '\n')
    (hrest : Stops rest) : Lexes ('\'' :: (s ++ '\'' :: rest)) (.str (String.ofList s) :: ks) := by
  have hquoted : Quoted s s := by
    induction s with
    | nil => exact .nil
    | cons c s ih =>
      obtain ⟨hc, hs⟩ := List.forall_mem_cons.mp hs
      exact .char hc.1 hc.2 (ih hs)
  have hnext : rest.head? ≠ some '\'' := fun hquote => (hrest _ hquote).2 rfl
  have hclassify : classify '\'' (s ++ ['\''] ++ rest) =
      (.token (.str (String.ofList s)), (s ++ ['\'']).length) := by
    simp [classify_quote, stringLexeme_closed hquoted hnext]
  simpa using h.token hclassify

-- ---------------------------------------------------------------------------
-- Operators
-- ---------------------------------------------------------------------------

def Operator.kind : Operator → Kind
  | .add => .sign .plus
  | .sub => .sign .minus
  | .mul => .sign .star
  | .slash => .sign .slash
  | .div => .keyword .div
  | .mod => .keyword .mod
  | .eq => .sign .eq
  | .ne => .sign .ne
  | .lt => .sign .lt
  | .le => .sign .le
  | .gt => .sign .gt
  | .ge => .sign .ge
  | .and => .keyword .and
  | .or => .keyword .or

/-- The blank behind an operator keeps its sign from being part of a longer one. -/
theorem Lexes.symbol (h : Lexes rest ks) (op : Operator) :
    Lexes (op.symbol.toList ++ ' ' :: rest) (op.kind :: ks) := by
  have hrest := h.blank
  have hstops : Stops (' ' :: rest) := stops_cons rfl (by decide) rest
  cases op with
  | div => exact hrest.keyword .div hstops
  | mod => exact hrest.keyword .mod hstops
  | and => exact hrest.keyword .and hstops
  | or => exact hrest.keyword .or hstops
  | ne => exact hrest.token (u := ['>']) rfl
  | le => exact hrest.token (u := ['=']) rfl
  | ge => exact hrest.token (u := ['=']) rfl
  | _ => exact hrest.token (u := []) rfl

theorem isFactor_binary (hl : IsFactor ls l) (hr : IsFactor rs r) (op : Operator) :
    IsFactor (.sign .openParen :: (ls ++ op.kind :: rs ++ [.sign .closeParen]))
      (.binary op l r) := by
  have hl' := IsMultiplicative.factor hl
  have hr' := IsMultiplicative.factor hr
  refine .parens ?_
  cases op with
  | eq | ne | lt | le | gt | ge =>
    exact .relation (.multiplicative hl') (by constructor) (.multiplicative hr')
  | add | sub | or => exact .additive (.more (.multiplicative hl') (by constructor) hr')
  | mul | slash | div | mod | and =>
    exact .additive (.multiplicative (.more hl' (by constructor) hr))

theorem isExpr_of_isFactor (h : IsFactor ks e) : IsExpr ks e :=
  .additive (.multiplicative (.factor h))

-- ---------------------------------------------------------------------------
-- Expressions
-- ---------------------------------------------------------------------------

/-- The text of a phrase: it lexes to the kinds wherever it stops, and makes no
comment of a parenthesis in front of it. -/
structure Prints (text : List Char) (ks : List Kind) : Prop where
  starts : ∃ c u, text = c :: u ∧ c ≠ '*'
  lexes : Stops rest → Lexes rest ls → Lexes (text ++ rest) (ks ++ ls)

theorem Prints.starts_append (h : Prints text ks) (more : List Char) :
    ∃ c u, text ++ more = c :: u ∧ c ≠ '*' := by
  obtain ⟨c, u, rfl, hc⟩ := h.starts
  exact ⟨c, u ++ more, rfl, hc⟩

theorem prints_word (hx : isWord x) : Prints x.toList [wordKind x] where
  starts := by
    obtain ⟨c, u, hword, hstart, -⟩ := isWord_cons hx
    refine ⟨c, u, hword, ?_⟩
    rintro rfl
    cases hstart
  lexes hrest h := h.word hx hrest

theorem prints_decimal {v : Int64} {n : Nat} (hv : v.toInt = n) :
    Prints (Nat.toDigits 10 n) [.int v] where
  starts := by
    obtain ⟨c, u, hdigits⟩ := List.exists_cons_of_ne_nil (Nat.toDigits_ne_nil (n := n) (b := 10))
    refine ⟨c, u, hdigits, ?_⟩
    rintro rfl
    have hstar : '*' ∈ Nat.toDigits 10 n := by simp [hdigits]
    cases Text.isDigit_of_mem_decimal hstar
  lexes hrest h := h.decimal hv hrest

theorem prints_string (hs : ∀ c ∈ s, c ≠ '\'' ∧ c ≠ '\n') :
    Prints ('\'' :: (s ++ ['\''])) [.str (String.ofList s)] where
  starts := ⟨_, _, rfl, by decide⟩
  lexes hrest h := by simpa using h.string hs hrest

theorem Prints.minus (h : Prints text ks) : Prints ('-' :: text) (.sign .minus :: ks) where
  starts := ⟨_, _, rfl, by decide⟩
  lexes hrest h' := (h.lexes hrest h').sign '-' rfl fun _ _ => rfl

theorem Prints.binary (hl : Prints l ls) (hr : Prints r rs) (op : Operator) :
    Prints (l ++ ' ' :: (op.symbol.toList ++ ' ' :: r)) (ls ++ op.kind :: rs) where
  starts := hl.starts_append _
  lexes hrest h := by
    simpa using hl.lexes (stops_cons rfl (by decide) _) ((hr.lexes hrest h).symbol op).blank

theorem Prints.comma (hl : Prints l ls) (hr : Prints r rs) :
    Prints (l ++ ',' :: ' ' :: r) (ls ++ .sign .comma :: rs) where
  starts := hl.starts_append _
  lexes hrest h := by
    have hcomma := ((hr.lexes hrest h).blank).sign ',' rfl fun _ _ => rfl
    simpa using hl.lexes (stops_cons rfl (by decide) _) hcomma

theorem Prints.parens (h : Prints text ks) :
    Prints ('(' :: (text ++ [')'])) (.sign .openParen :: (ks ++ [.sign .closeParen])) where
  starts := ⟨_, _, rfl, by decide⟩
  lexes hrest h' := by
    have hclose := h'.sign ')' rfl fun _ _ => rfl
    have hinner := h.lexes (stops_cons rfl (by decide) _) hclose
    obtain ⟨c, u, rfl, hc⟩ := h.starts
    have hopen := hinner.sign '(' rfl (by simpa [joins, Sign.ofPair?] using hc)
    simpa using hopen

theorem wordKind_of_isName (h : isName x) : wordKind x = .ident x := by
  simp only [isName, Bool.and_eq_true, Option.isNone_iff_eq_none] at h
  simp [wordKind, h.2]

theorem prints_name (h : isName x) : Prints x.toList [.ident x] := by
  rw [← wordKind_of_isName h]
  exact prints_word (Bool.and_eq_true_iff.mp h).1

theorem Prints.call (hf : isName f) (h : Prints ('(' :: text) ks) :
    Prints (f.toList ++ '(' :: text) (.ident f :: ks) where
  starts := (prints_name hf).starts_append _
  lexes hrest h' := by
    have hname := (prints_name hf).lexes (stops_cons rfl (by decide) _) (h.lexes hrest h')
    simpa using hname

theorem prints_noArguments : Prints ['(', ')'] [.sign .openParen, .sign .closeParen] where
  starts := ⟨_, _, rfl, by decide⟩
  lexes _ h := (h.sign ')' rfl fun _ _ => rfl).sign '(' rfl (by simp [joins, Sign.ofPair?])

theorem prints_int {v : Int64} (hv : Int64.minValue < v) :
    ∃ ks, Prints (toString v.toInt).toList ks ∧ IsFactor ks (.int v) := by
  rw [Text.toList_toString]
  split
  · next hpos => exact ⟨_, prints_decimal (by omega), .literal .int⟩
  · next hneg =>
    have hopp : (-v).toInt = (-v.toInt).toNat := by
      rw [toInt_neg_of_lt (Int64.lt_iff_toInt_lt.mp hv)]
      omega
    have hfactor := IsFactor.negative (.literal (.int (v := -v)))
    rw [Int64.neg_neg] at hfactor
    exact ⟨_, (prints_decimal hopp).minus, hfactor⟩

theorem prints_literal {v : Literal} (h : v.isPrintable) :
    ∃ ks, Prints v.text.toList ks ∧ IsFactor ks (.lit v.counted) := by
  cases v with
  | int v => exact prints_int (by simpa [Literal.isPrintable] using h)
  | bool b =>
    cases b with
    | true => exact ⟨_, prints_decimal (v := 1) (n := 1) rfl, .literal .int⟩
    | false => exact ⟨_, prints_decimal (v := 0) (n := 0) rfl, .literal .int⟩
  | str s =>
    have hs : ∀ c ∈ s.toList, c ≠ '\'' ∧ c ≠ '\n' := by simpa [Literal.isPrintable] using h
    refine ⟨_, ?_, .literal .str⟩
    simpa [Literal.text, toString] using prints_string hs

theorem text_binary : (Expr.binary op l r).text.toList = '(' :: (l.text.toList ++
    ' ' :: (op.symbol.toList ++ ' ' :: r.text.toList) ++ [')']) := by
  simp [Expr.text, Expr.write]

/-- The text of arguments, a comma and a blank between them. -/
def argumentText (es : List Expr) : List Char :=
  [',', ' '].intercalate (es.map fun e => e.text.toList)

theorem argumentText_cons (e : Expr) (h : es ≠ []) :
    argumentText (e :: es) = e.text.toList ++ ',' :: ' ' :: argumentText es := by
  obtain ⟨e', es, rfl⟩ := List.exists_cons_of_ne_nil h
  simp [argumentText, List.intercalate_cons_cons]

theorem text_call : (Expr.call f args).text.toList =
    f.toList ++ '(' :: (argumentText args ++ [')']) := by
  simp only [Expr.text, Expr.write, Expr.writeAll_eq_map, argumentText]
  simp [Function.comp_def]

mutual

/-- Every operator stands in parentheses, so the text of an expression is that of a factor. -/
theorem exists_prints (e : Expr) (he : e.isPrintable) :
    ∃ ks, Prints e.text.toList ks ∧ IsFactor ks (e.substitute []) := by
  cases e with
  | lit v => exact prints_literal he
  | ident x => exact ⟨_, prints_name he, .name⟩
  | binary op l r =>
    obtain ⟨hl, hr⟩ := Bool.and_eq_true_iff.mp he
    obtain ⟨ls, hprintl, hfactorl⟩ := exists_prints l hl
    obtain ⟨rs, hprintr, hfactorr⟩ := exists_prints r hr
    rw [text_binary]
    exact ⟨_, (hprintl.binary hprintr op).parens, isFactor_binary hfactorl hfactorr op⟩
  | call f args =>
    obtain ⟨hf, hargs⟩ := Bool.and_eq_true_iff.mp he
    rw [text_call]
    by_cases hnil : args = []
    · subst hnil
      exact ⟨_, prints_noArguments.call hf, .call .none⟩
    · obtain ⟨ks, hprint, hexprs⟩ := exists_prints_all args hargs hnil
      exact ⟨_, hprint.parens.call hf, .call (.some hexprs)⟩

theorem exists_prints_all (es : List Expr) (hes : Expr.allOf Literal.isPrintable isName es)
    (hne : es ≠ []) :
    ∃ ks, Prints (argumentText es) ks ∧ IsExprs ks (Expr.substituteAll [] es) := by
  cases es with
  | nil => exact absurd rfl hne
  | cons e es =>
    obtain ⟨he, hes⟩ := Bool.and_eq_true_iff.mp hes
    obtain ⟨ks, hprint, hfactor⟩ := exists_prints e he
    have hexpr := isExpr_of_isFactor hfactor
    by_cases hnil : es = []
    · subst hnil
      exact ⟨ks, by simpa [argumentText] using hprint, .one hexpr⟩
    · obtain ⟨ls, hprint', hexprs⟩ := exists_prints_all es hes hnil
      refine ⟨_, ?_, .more hexpr hexprs⟩
      rw [argumentText_cons e hnil]
      exact hprint.comma hprint'

end

-- ---------------------------------------------------------------------------
-- Reading a printed expression
-- ---------------------------------------------------------------------------

/-- An assignment of a printed expression as a whole program. -/
theorem Prints.assignment (h : Prints text ks) :
    Lexes ("begin x := ".toList ++ text ++ " end.".toList) (.keyword .begin ::
      .ident "x" :: .sign .assign :: (ks ++ [.keyword .end_, .sign .dot])) := by
  have hstops (rest : List Char) : Stops (' ' :: rest) := stops_cons rfl (by decide) rest
  have hdot : Lexes ['.'] [.sign .dot] := lexes_nil.sign '.' rfl fun _ _ => rfl
  have hend := (hdot.keyword .end_ (stops_cons rfl (by decide) [])).blank
  have hvalue := (h.lexes (hstops _) hend).blank
  have hassign := (hvalue.token (c := ':') (u := ['=']) (classify_pair rfl _)).blank
  have htarget := ((prints_name (x := "x") (by decide +kernel)).lexes (hstops _) hassign).blank
  simpa [Keyword.text] using htarget.keyword .begin (hstops _)

/-- An expression that is printed into an assignment is read back from there. -/
theorem parse_text {e : Expr} (he : e.isPrintable) :
    parse ("begin x := " ++ e.text ++ " end.") = .ok { modules := [⟨"main",
      [{ name := "main", body := [.assign "x" (e.substitute [])] }]⟩] } := by
  obtain ⟨ks, hprint, hfactor⟩ := exists_prints e he
  have hassign := IsStatement.assign (x := "x") (isExpr_of_isFactor hfactor)
  have hprogram := IsProgram.intro .none .none (.intro (.one hassign))
  refine parse_of_isProgram ?_ hprogram
  simpa using hprint.assignment 0

/-- A negative number behind a minus, a relation as an operand, and comment openers in a string. -/
theorem parse_text_nested :
    let e (yes : Literal) : Expr := .binary .sub (.binary .lt (.ident "a")
      (.call "f" [.lit (.str "(*//"), .lit yes, .binary .mod (.call "g" []) (.int 2)])) (.int (-5))
    (e (.bool true)).isPrintable ∧
      (e (.bool true)).text = "((a < f('(*//', 1, (g() mod 2))) - -5)" ∧
      parse "begin x := ((a < f('(*//', 1, (g() mod 2))) - -5) end." = .ok { modules := [⟨"main",
        [{ name := "main", body := [.assign "x" (e (.int 1))] }]⟩] } := by
  intro e
  have he : (e (.bool true)).isPrintable := by decide +kernel
  have htext : (e (.bool true)).text = "((a < f('(*//', 1, (g() mod 2))) - -5)" := by
    decide +kernel
  refine ⟨he, htext, ?_⟩
  have hparse := parse_text he
  rw [htext] at hparse
  exact hparse

end Cartridge.Pascal
