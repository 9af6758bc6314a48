import Cartridge.Proofs.Flat.Operand

/-!
# Folding text is folding trees

Scanning the text of a tree leaves the text of the folded tree, behind whatever
was read before. A group that closes stands behind a text that opens no
arguments, and it has the shape that folds exactly if its two operands are
numbers: any other operand is a name, which is not read as a number, or ends
with a parenthesis, which the scanner finds first.
-/

namespace Cartridge.Flat

open Pascal

theorem evaluate_eq_checked? (op : Operator) (a b : Int64) : evaluate op a b = op.checked? a b := by
  have hzero : b = 0 ↔ b.toInt = 0 := by
    rw [← Int64.toInt_inj, Int64.toInt_zero]
  cases op with
  | slash =>
    by_cases hb : b = 0
    · simp [evaluate, Operator.checked?, Operator.result?, hb]
    · simp [evaluate, Operator.checked?, Operator.result?, hb, mt hzero.mpr hb]
  | div =>
    by_cases hb : b = 0
    · simp [evaluate, Operator.checked?, Operator.result?, hb]
    · simp [evaluate, Operator.checked?, Operator.result?, hb, mt hzero.mpr hb]
  | mod =>
    by_cases hb : b = 0
    · simp [evaluate, Operator.checked?, Operator.result?, hb]
    · simp [evaluate, Operator.checked?, Operator.result?, hb, mt hzero.mpr hb]
  | _ => rfl

-- ---------------------------------------------------------------------------
-- Groups
-- ---------------------------------------------------------------------------

theorem foldable?_binary (op : Operator) (l r : Expr) :
    (Expr.binary op l r).foldable? = (do op.checked? (← l.int?) (← r.int?)) := by
  unfold Expr.foldable?
  split
  · next h =>
    cases h
    rfl
  · next hne =>
    rcases l with (_ | _ | _) | _ | _ | _ <;> try rfl
    rcases r with (_ | _ | _) | _ | _ | _ <;> try rfl
    exact absurd rfl (hne _ _ _)

theorem foldNode_of_some (h : (Expr.binary op l r).foldable? = some v) :
    foldNode op l r = .int v := by
  unfold Expr.foldable? at h
  split at h
  · next hnode =>
    cases hnode
    simp [foldNode, h]
  · cases h

theorem foldNode_of_none (h : (Expr.binary op l r).foldable? = none) :
    foldNode op l r = .binary op l r := by
  obtain ⟨a, b, v, rfl, rfl, hv, -⟩ | ⟨hkeep, -⟩ := foldNode_cases op l r
  · rw [Expr.foldable?, hv] at h
    cases h
  · exact hkeep

/-- The text of a group, up to its closing parenthesis. -/
theorem groupValue?_atoms {l r : Expr} (hl : l.isNumeric) (hr : r.isNumeric) (hal : l.isAtom)
    (har : r.isAtom) :
    groupValue? (l.chars ++ ' ' :: (op.symbol.toList ++ ' ' :: r.chars)) =
      (Expr.binary op l r).foldable? := by
  have hblank {cs : List Char} (h : ∀ c ∈ cs, isBreak c = false) : ' ' ∉ cs :=
    fun hmem => absurd (h ' ' hmem) (by decide)
  have hsplit : splitBlanks (l.chars ++ ' ' :: (op.symbol.toList ++ ' ' :: r.chars)) =
      [l.chars, op.symbol.toList, r.chars] := by
    rw [splitBlanks, List.splitOn_append_cons_self, List.splitOn_append_cons_self,
      List.splitOn_eq_singleton (hblank (isBreak_atom hl hal)),
      List.splitOn_eq_singleton (hblank (isBreak_symbol op)),
      List.splitOn_eq_singleton (hblank (isBreak_atom hr har))]
    rfl
  rw [foldable?_binary, groupValue?, hsplit]
  simp only [String.ofList_toList, Operator.ofSymbol?_symbol, readInt_atom hl hal,
    readInt_atom hr har, evaluate_eq_checked?]
  rfl

theorem isParenthesis_of_isBreak {cs : List Char} (h : ∀ c ∈ cs, isBreak c = false) :
    ∀ c ∈ cs, isParenthesis c = false :=
  fun c hc => (Bool.or_eq_false_iff.mp (h c hc)).2

theorem closingValue?_open (h : ∀ c ∈ text, isParenthesis c = false) :
    closingValue? (text ++ '(' :: before) = groupValue? text.reverse := by
  have hpos : ∀ c ∈ text, (!isParenthesis c) = true := fun c hc => by simp [h c hc]
  have hparen : isParenthesis '(' = true := rfl
  simp [closingValue?, List.dropWhile_append_of_pos hpos, List.takeWhile_append_of_pos hpos, hparen]

theorem closingValue?_close (h : ∀ c ∈ text, isParenthesis c = false) :
    closingValue? (text ++ ')' :: before) = none := by
  have hpos : ∀ c ∈ text, (!isParenthesis c) = true := fun c hc => by simp [h c hc]
  have hparen : isParenthesis ')' = true := rfl
  simp [closingValue?, List.dropWhile_append_of_pos hpos, hparen]

theorem closingValue?_group {l r : Expr} (hl : l.isNumeric) (hr : r.isNumeric) :
    closingValue? (r.chars.reverse ++ ' ' :: (op.symbol.toList.reverse ++ ' ' ::
      (l.chars.reverse ++ '(' :: before))) = (Expr.binary op l r).foldable? := by
  have hsymbol := isParenthesis_of_isBreak (isBreak_symbol op)
  have hblank : isParenthesis ' ' = false := rfl
  cases har : r.isAtom with
  | false =>
    -- a compound operand ends in a parenthesis of its own, and that is no group of two numbers
    obtain ⟨hint, cs, hcs⟩ := chars_compound har
    have htext (rest : List Char) :
        r.chars.reverse ++ rest = [] ++ ')' :: (cs.reverse ++ rest) := by
      simp [hcs]
    rw [foldable?_binary, hint, htext, closingValue?_close (by simp)]
    simp
  | true =>
    have hright := isParenthesis_of_isBreak (isBreak_atom hr har)
    cases hal : l.isAtom with
    | false =>
      obtain ⟨hint, cs, hcs⟩ := chars_compound hal
      have htext (rest : List Char) :
          r.chars.reverse ++ ' ' :: (op.symbol.toList.reverse ++ ' ' :: (l.chars.reverse ++ rest)) =
            (r.chars.reverse ++ ' ' :: (op.symbol.toList.reverse ++ [' '])) ++
              ')' :: (cs.reverse ++ rest) := by
        simp [hcs]
      rw [foldable?_binary, hint, htext, closingValue?_close (by grind)]
      rfl
    | true =>
      have hleft := isParenthesis_of_isBreak (isBreak_atom hl hal)
      have htext :
          r.chars.reverse ++ ' ' :: (op.symbol.toList.reverse ++ ' ' ::
            (l.chars.reverse ++ '(' :: before)) =
          (l.chars ++ ' ' :: (op.symbol.toList ++ ' ' :: r.chars)).reverse ++ '(' :: before := by
        simp
      rw [htext, closingValue?_open (by grind), List.reverse_reverse,
        groupValue?_atoms hl hr hal har]

-- ---------------------------------------------------------------------------
-- Scanning
-- ---------------------------------------------------------------------------

theorem scan_of_noParens {cs text : List Char} (h : ∀ c ∈ cs, isParenthesis c = false) :
    cs.foldl Scan.step ⟨text, opened⟩ = ⟨cs.reverse ++ text, opened⟩ := by
  induction cs generalizing text with
  | nil => rfl
  | cons c cs ih =>
    have hc : isParenthesis c = false := h c List.mem_cons_self
    have hstep : Scan.step ⟨text, opened⟩ c = ⟨c :: text, opened⟩ := by
      unfold Scan.step
      split
      · cases hc
      · cases hc
      · rfl
    rw [List.foldl_cons, hstep, ih fun d hd => h d (List.mem_cons_of_mem _ hd)]
    simp

theorem step_open : Scan.step ⟨text, opened⟩ '(' = ⟨'(' :: text, text :: opened⟩ :=
  rfl

theorem step_blank : Scan.step ⟨text, opened⟩ ' ' = ⟨' ' :: text, opened⟩ :=
  rfl

theorem step_comma : Scan.step ⟨text, opened⟩ ',' = ⟨',' :: text, opened⟩ :=
  rfl

theorem step_close_group (h : opensArguments before = false) (hl : l.isNumeric)
    (hr : r.isNumeric) :
    Scan.step ⟨r.chars.reverse ++ ' ' :: (op.symbol.toList.reverse ++ ' ' ::
      (l.chars.reverse ++ '(' :: before)), before :: opened⟩ ')' =
    ⟨(foldNode op l r).chars.reverse ++ before, opened⟩ := by
  simp only [Scan.step, Scan.close, h, Bool.false_eq_true, if_false, closingValue?_group hl hr]
  split
  · next hv => rw [foldNode_of_some hv, chars_int]
  · next hv =>
    rw [foldNode_of_none hv, chars_binary]
    simp

theorem step_close_arguments (h : opensArguments before = true) :
    Scan.step ⟨text, before :: opened⟩ ')' = ⟨')' :: text, opened⟩ := by
  simp [Scan.step, Scan.close, h]

theorem argumentChars_cons_cons (e e' : Expr) (es : List Expr) :
    argumentChars (e :: e' :: es) = e.chars ++ ',' :: ' ' :: argumentChars (e' :: es) := by
  simp [argumentChars, List.intercalate_cons_cons]

mutual

theorem scan_chars (e : Expr) (he : e.isNumeric) (htext : opensArguments text = false) :
    e.chars.foldl Scan.step ⟨text, opened⟩ = ⟨e.fold.chars.reverse ++ text, opened⟩ := by
  cases e with
  | lit v => exact scan_of_noParens (isParenthesis_of_isBreak (isBreak_atom he rfl))
  | ident x => exact scan_of_noParens (isParenthesis_of_isBreak (isBreak_atom he rfl))
  | binary op l r =>
    obtain ⟨hl, hr⟩ := Bool.and_eq_true_iff.mp he
    rw [chars_binary, Expr.fold]
    simp only [List.foldl_cons, List.foldl_append, List.foldl_nil]
    -- the closing parenthesis meets the text of the folded operands
    rw [step_open, scan_chars l hl rfl, step_blank,
      scan_of_noParens (isParenthesis_of_isBreak (isBreak_symbol op)), step_blank,
      scan_chars r hr rfl]
    exact step_close_group htext (isNumeric_fold l hl) (isNumeric_fold r hr)
  | call f args =>
    obtain ⟨hf, hargs⟩ := Bool.and_eq_true_iff.mp he
    obtain ⟨_, _, -, -, hpart⟩ := isWord_cons hf
    rw [chars_call, Expr.fold, chars_call]
    simp only [List.foldl_cons, List.foldl_append, List.foldl_nil]
    rw [scan_of_noParens (isParenthesis_of_isBreak fun c hc => isBreak_of_isWordPart (hpart c hc)),
      step_open, scan_argumentChars args hargs rfl,
      step_close_arguments (opensArguments_of_isWord hf)]
    simp

theorem scan_argumentChars (es : List Expr) (hes : Expr.allOf Literal.isInt isWord es)
    (htext : opensArguments text = false) :
    (argumentChars es).foldl Scan.step ⟨text, opened⟩ =
      ⟨(argumentChars (Expr.foldAll es)).reverse ++ text, opened⟩ := by
  match es, hes with
  | [], _ => rfl
  | [e], hes =>
    obtain ⟨he, -⟩ := Bool.and_eq_true_iff.mp hes
    simpa [argumentChars, Expr.foldAll] using scan_chars e he htext
  | e :: e' :: es, hes =>
    obtain ⟨he, hes⟩ := Bool.and_eq_true_iff.mp hes
    have hfold : Expr.foldAll (e :: e' :: es) = e.fold :: e'.fold :: Expr.foldAll es := rfl
    rw [argumentChars_cons_cons, hfold, argumentChars_cons_cons]
    simp only [List.foldl_append, List.foldl_cons]
    rw [scan_chars e he htext, step_comma, step_blank, scan_argumentChars (e' :: es) hes rfl]
    simp [Expr.foldAll]

end

theorem foldConstants_of_isNumeric {e : Expr} (he : e.isNumeric) :
    foldConstants (e.operand []) = e.fold.operand [] := by
  change String.ofList (e.chars.foldl Scan.step ⟨[], []⟩).text.reverse = _
  rw [scan_chars e he rfl]
  simp [Expr.chars]

/-- Folding the text of an expression gives the text of the folded tree. In it nothing is left
that folds, calls and operators that are no arithmetic are those of the expression, and its value
is that of the expression. -/
theorem foldConstants_operand (cs : Constants) (hcs : cs.isPlain) (e : Expr) (he : e.isPlain) :
    foldConstants (e.operand cs) = (e.substitute cs).fold.operand [] ∧
    (∀ p ∈ (e.substitute cs).fold.parts, p.foldable? = none) ∧
    (e.substitute cs).fold.parts.filterMap Expr.fixed? = e.parts.filterMap Expr.fixed? ∧
    ∀ m, (e.substitute cs).fold.value [] m = e.value cs m := by
  refine ⟨?_, foldable?_fold _, ?_, fun m => ?_⟩
  · rw [← operand_substitute, foldConstants_of_isNumeric (isNumeric_substitute hcs e he)]
  · rw [fixed?_fold, fixed?_substitute]
  · rw [value_fold, value_substitute]

theorem foldConstants_operand_call :
    let cs : Constants := [("n", .int 4), ("ok", .bool true)]
    let e : Expr := .call "f"
      [.binary .lt (.binary .sub (.ident "n") (.int 7)) (.ident "x"),
        .binary .mod (.int Int64.minValue) (.binary .sub (.int 0) (.ident "ok"))]
    cs.isPlain ∧ e.isPlain ∧
    foldConstants (e.operand cs) = (e.substitute cs).fold.operand [] ∧
    (∀ p ∈ (e.substitute cs).fold.parts, p.foldable? = none) ∧
    (e.substitute cs).fold.parts.filterMap Expr.fixed? = e.parts.filterMap Expr.fixed? ∧
    ∀ m, (e.substitute cs).fold.value [] m = e.value cs m := by
  intro cs e
  have hcs : cs.isPlain := by decide
  have he : e.isPlain := by decide
  exact ⟨hcs, he, foldConstants_operand cs hcs e he⟩

end Cartridge.Flat
