import Cartridge.Flat.Fold
import Cartridge.Flat.Lowering
import Cartridge.Pascal.Lexer
import Cartridge.Proofs.Pascal.Folding
import Cartridge.Proofs.Text.Decimal

/-!
# Operand text

The characters of an operand, part by part. A number or a name holds neither a
blank nor a parenthesis, and a number never reads as a name; every other
operand ends with a parenthesis.
-/

namespace Cartridge.Pascal

open Flat (isParenthesis)

-- ---------------------------------------------------------------------------
-- Words
-- ---------------------------------------------------------------------------

/-- A letter or an underscore, and then also digits. -/
def isWord (name : String) : Bool :=
  match name.toList with
  | [] => false
  | c :: cs => isWordStart c && cs.all isWordPart

theorem isWordPart_of_isWordStart (h : isWordStart c) : isWordPart c := by
  simp only [isWordStart, isWordPart, Char.isAlphanum, Bool.or_eq_true] at h ⊢
  exact h.imp_left .inl

theorem isWord_cons (h : isWord name) :
    ∃ c cs, name.toList = c :: cs ∧ isWordStart c ∧ ∀ d ∈ name.toList, isWordPart d := by
  unfold isWord at h
  split at h
  · cases h
  · next c cs hname =>
    obtain ⟨hc, hcs⟩ := Bool.and_eq_true_iff.mp h
    refine ⟨c, cs, hname, hc, ?_⟩
    rw [hname]
    intro d hd
    obtain rfl | hd := List.mem_cons.mp hd
    · exact isWordPart_of_isWordStart hc
    · exact List.all_eq_true.mp hcs d hd

theorem toNat_of_isAlpha (h : Char.isAlpha c) : 65 ≤ c.toNat ∧ c.toNat < 128 := by
  change (decide (c.val ≥ 65 ∧ c.val ≤ 90) || (c.val ≥ 97 && c.val ≤ 122)) = true at h
  simp only [Bool.or_eq_true, Bool.and_eq_true, decide_eq_true_eq, ge_iff_le,
    UInt32.le_iff_toNat_le] at h
  have hc : c.toNat = c.val.toNat := rfl
  simp at h
  omega

theorem toNat_of_isAlphanum (h : Char.isAlphanum c) : c.toNat < 128 := by
  obtain h | h := (Bool.or_eq_true _ _).mp h
  · exact (toNat_of_isAlpha h).2
  · obtain ⟨-, hle⟩ := Char.isDigit_iff_toNat.mp h
    exact Nat.lt_of_le_of_lt hle (by decide)

/-- A parenthesis behind a word opens its arguments. -/
theorem opensArguments_of_isWord (h : isWord name) :
    Flat.opensArguments (name.toList.reverse ++ before) = true := by
  obtain ⟨c, cs, hname, -, hpart⟩ := isWord_cons h
  obtain ⟨d, ds, hd⟩ : ∃ d ds, name.toList.reverse = d :: ds := by
    apply List.exists_cons_of_ne_nil
    simp [hname]
  have hmem : d ∈ name.toList := by
    rw [← List.mem_reverse, hd]
    exact List.mem_cons_self
  have hpart' := hpart d hmem
  rw [hd, List.cons_append]
  simp only [Flat.opensArguments, isWordPart, Bool.or_eq_true] at hpart' ⊢
  refine hpart'.imp_left fun hd => ?_
  rw [Text.isAlphanumeric_of_ascii (toNat_of_isAlphanum hd)]
  exact hd

theorem isDigit_of_isWordStart (h : isWordStart c) : c.isDigit = false := by
  simp only [isWordStart, Bool.or_eq_true, beq_iff_eq] at h
  obtain h | rfl := h
  · rw [Bool.eq_false_iff]
    intro hdigit
    have hle : c.toNat ≤ 57 := (Char.isDigit_iff_toNat.mp hdigit).2
    have hge := (toNat_of_isAlpha h).1
    omega
  · rfl

theorem isDigitOf_of_isWordStart (h : isWordStart c) : Text.isDigitOf 10 c = false := by
  simp only [Text.isDigitOf, Text.digitValue, isDigit_of_isWordStart h, Bool.false_eq_true,
    if_false, decide_eq_false_iff_not]
  split
  · omega
  · split <;> omega

theorem readInt_of_isWord (h : isWord name) : Text.readInt 10 name.toList = none := by
  obtain ⟨c, cs, hname, hc, -⟩ := isWord_cons h
  have hnat : Text.readNat 10 (c :: cs) = none := by
    simp [Text.readNat, isDigitOf_of_isWordStart hc]
  rw [hname]
  unfold Text.readInt
  split
  · next h =>
    cases h
    exact absurd hc (by decide)
  · next h =>
    cases h
    exact absurd hc (by decide)
  · rw [hnat]
    rfl

-- ---------------------------------------------------------------------------
-- Parts of operands
-- ---------------------------------------------------------------------------

mutual

/-- Whether all literals and all names, those of calls too, are as told. -/
def Expr.all (lit : Literal → Bool) (name : String → Bool) : Expr → Bool
  | .lit v => lit v
  | .ident x => name x
  | .binary _ l r => l.all lit name && r.all lit name
  | .call f args => name f && Expr.allOf lit name args

def Expr.allOf (lit : Literal → Bool) (name : String → Bool) : List Expr → Bool
  | [] => true
  | e :: es => e.all lit name && Expr.allOf lit name es

end

def Literal.isInt : Literal → Bool
  | .int _ => true
  | _ => false

def Literal.isStr : Literal → Bool
  | .str _ => true
  | _ => false

/-- No strings, and words for names. -/
def Expr.isPlain (e : Expr) : Bool :=
  e.all (!·.isStr) isWord

/-- Nothing but numbers for literals, and words for names. -/
def Expr.isNumeric (e : Expr) : Bool :=
  e.all Literal.isInt isWord

def Constants.isPlain (cs : Constants) : Bool :=
  cs.all fun c => !c.2.isStr

/-- The characters of an expression in which all constants are in place. -/
def Expr.chars (e : Expr) : List Char :=
  (e.operand []).toList

/-- The characters of arguments, a comma and a blank between them. -/
def argumentChars (args : List Expr) : List Char :=
  [',', ' '].intercalate (args.map Expr.chars)

theorem chars_int : (Expr.int v).chars = (toString v.toInt).toList :=
  rfl

theorem chars_ident : (Expr.ident x).chars = x.toList :=
  rfl

theorem chars_binary : (Expr.binary op l r).chars =
    '(' :: (l.chars ++ ' ' :: (op.symbol.toList ++ ' ' :: (r.chars ++ [')']))) := by
  simp [Expr.chars, Expr.operand, Expr.write]

theorem chars_call : (Expr.call f args).chars =
    f.toList ++ '(' :: (argumentChars args ++ [')']) := by
  simp only [Expr.chars, Expr.operand, Expr.write, Expr.writeAll_eq_map, argumentChars]
  simp [Function.comp_def]
  rfl

mutual

theorem operand_substitute (cs : Constants) (e : Expr) :
    (e.substitute cs).operand [] = e.operand cs := by
  cases e with
  | lit v => rcases v with _ | (_ | _) | _ <;> rfl
  | ident x =>
    cases hx : cs.last? x with
    | some v =>
      simp only [Expr.substitute, Expr.operand, Expr.write, Constants.operand, hx]
      rcases v with _ | (_ | _) | _ <;> rfl
    | none =>
      simp only [Expr.substitute, Expr.operand, Expr.write, Constants.operand, hx]
      rfl
  | binary op l r =>
    have hl := operand_substitute cs l
    have hr := operand_substitute cs r
    simp only [Expr.operand] at hl hr
    simp only [Expr.substitute, Expr.operand, Expr.write, hl, hr]
  | call f args =>
    have hargs := operand_substituteAll cs args
    simp only [Expr.substitute, Expr.operand, Expr.write, hargs]

theorem operand_substituteAll (cs : Constants) (es : List Expr) :
    Expr.writeAll Literal.operand (Constants.operand []) (Expr.substituteAll cs es) =
      Expr.writeAll Literal.operand cs.operand es := by
  cases es with
  | nil => rfl
  | cons e es =>
    have he := operand_substitute cs e
    simp only [Expr.operand] at he
    simp only [Expr.substituteAll, Expr.writeAll, he, operand_substituteAll cs es]

end

-- ---------------------------------------------------------------------------
-- Numeric expressions
-- ---------------------------------------------------------------------------

theorem mem_of_foldl {cs : Constants}
    (h : cs.foldl (fun found c => if c.1 == x then some c.2 else found) found = some v) :
    found = some v ∨ ∃ c ∈ cs, c.2 = v := by
  induction cs generalizing found with
  | nil => exact .inl h
  | cons c cs ih =>
    rw [List.foldl_cons] at h
    obtain hfound | ⟨d, hd, hv⟩ := ih h
    · split at hfound
      · exact .inr ⟨c, List.mem_cons_self, Option.some.inj hfound⟩
      · exact .inl hfound
    · exact .inr ⟨d, List.mem_cons_of_mem _ hd, hv⟩

theorem mem_of_last? {cs : Constants} (h : cs.last? x = some v) : ∃ c ∈ cs, c.2 = v := by
  obtain h | h := mem_of_foldl h
  · cases h
  · exact h

theorem isInt_counted {v : Literal} (h : !v.isStr) : v.counted.isInt := by
  rcases v with _ | (_ | _) | _
  · rfl
  · rfl
  · rfl
  · cases h

mutual

theorem isNumeric_substitute {cs : Constants} (hcs : cs.isPlain) (e : Expr) (he : e.isPlain) :
    (e.substitute cs).isNumeric := by
  cases e with
  | lit v => exact isInt_counted he
  | ident x =>
    rw [Expr.substitute]
    split
    · next v hv =>
      obtain ⟨c, hc, rfl⟩ := mem_of_last? hv
      exact isInt_counted (List.all_eq_true.mp hcs c hc)
    · exact he
  | binary op l r =>
    obtain ⟨hl, hr⟩ := Bool.and_eq_true_iff.mp he
    exact Bool.and_eq_true_iff.mpr
      ⟨isNumeric_substitute hcs l hl, isNumeric_substitute hcs r hr⟩
  | call f args =>
    obtain ⟨hf, hargs⟩ := Bool.and_eq_true_iff.mp he
    exact Bool.and_eq_true_iff.mpr ⟨hf, isNumeric_substituteAll hcs args hargs⟩

theorem isNumeric_substituteAll {cs : Constants} (hcs : cs.isPlain) (es : List Expr)
    (hes : Expr.allOf (!·.isStr) isWord es) :
    Expr.allOf Literal.isInt isWord (Expr.substituteAll cs es) := by
  cases es with
  | nil => rfl
  | cons e es =>
    obtain ⟨he, hes⟩ := Bool.and_eq_true_iff.mp hes
    exact Bool.and_eq_true_iff.mpr
      ⟨isNumeric_substitute hcs e he, isNumeric_substituteAll hcs es hes⟩

end

mutual

theorem isNumeric_fold (e : Expr) (he : e.isNumeric) : e.fold.isNumeric := by
  cases e with
  | lit v => exact he
  | ident x => exact he
  | binary op l r =>
    obtain ⟨hl, hr⟩ := Bool.and_eq_true_iff.mp he
    rw [Expr.fold]
    obtain ⟨_, _, v, _, _, _, hv⟩ | ⟨hkeep, -⟩ := foldNode_cases op l.fold r.fold
    · rw [hv]
      rfl
    · rw [hkeep]
      exact Bool.and_eq_true_iff.mpr ⟨isNumeric_fold l hl, isNumeric_fold r hr⟩
  | call f args =>
    obtain ⟨hf, hargs⟩ := Bool.and_eq_true_iff.mp he
    exact Bool.and_eq_true_iff.mpr ⟨hf, isNumeric_foldAll args hargs⟩

theorem isNumeric_foldAll (es : List Expr) (hes : Expr.allOf Literal.isInt isWord es) :
    Expr.allOf Literal.isInt isWord (Expr.foldAll es) := by
  cases es with
  | nil => rfl
  | cons e es =>
    obtain ⟨he, hes⟩ := Bool.and_eq_true_iff.mp hes
    exact Bool.and_eq_true_iff.mpr ⟨isNumeric_fold e he, isNumeric_foldAll es hes⟩

end

/-- A literal or a name. -/
def Expr.isAtom : Expr → Bool
  | .lit _ | .ident _ => true
  | _ => false

def Expr.int? : Expr → Option Int64
  | .lit (.int v) => some v
  | _ => none

/-- A character that ends a number or a name. -/
def isBreak (c : Char) : Bool :=
  c == ' ' || Flat.isParenthesis c

theorem isBreak_of_isWordPart (h : isWordPart c) : isBreak c = false := by
  simp only [isBreak, Flat.isParenthesis, Bool.or_eq_false_iff, beq_eq_false_iff_ne]
  refine ⟨?_, ?_, ?_⟩ <;>
  · rintro rfl
    exact absurd h (by decide)

theorem isBreak_of_mem_toString (h : c ∈ (toString (n : Int)).toList) : isBreak c = false := by
  simp only [isBreak, Flat.isParenthesis, Bool.or_eq_false_iff, beq_eq_false_iff_ne]
  have hc := Text.isDigit_or_minus_of_mem_toString h
  refine ⟨?_, ?_, ?_⟩ <;>
  · rintro rfl
    exact absurd hc (by decide)

theorem isBreak_symbol (op : Operator) : ∀ c ∈ op.symbol.toList, isBreak c = false := by
  have hall : op.symbol.toList.all (!isBreak ·) := by cases op <;> rfl
  intro c hc
  simpa using List.all_eq_true.mp hall c hc

theorem isBreak_atom {e : Expr} (he : e.isNumeric) (ha : e.isAtom) :
    ∀ c ∈ e.chars, isBreak c = false := by
  intro c hc
  rcases e with (v | _ | _) | x | _ | _
  · exact isBreak_of_mem_toString hc
  · cases he
  · cases he
  · obtain ⟨_, _, -, -, hpart⟩ := isWord_cons he
    exact isBreak_of_isWordPart (hpart c hc)
  · cases ha
  · cases ha

theorem readInt_atom {e : Expr} (he : e.isNumeric) (ha : e.isAtom) :
    Text.readInt 10 e.chars = e.int? := by
  rcases e with (v | _ | _) | x | _ | _
  · exact Text.readInt_toString v
  · cases he
  · cases he
  · exact readInt_of_isWord he
  · cases ha
  · cases ha

theorem chars_compound {e : Expr} (ha : e.isAtom = false) :
    e.int? = none ∧ ∃ cs, e.chars = cs ++ [')'] := by
  rcases e with _ | _ | ⟨op, l, r⟩ | ⟨f, args⟩
  · cases ha
  · cases ha
  · refine ⟨rfl, '(' :: (l.chars ++ ' ' :: (op.symbol.toList ++ ' ' :: r.chars)), ?_⟩
    simp [chars_binary]
  · refine ⟨rfl, f.toList ++ '(' :: argumentChars args, ?_⟩
    simp [chars_call]

end Cartridge.Pascal
