import Cartridge.Proofs.Flat.Operand
import Cartridge.Proofs.Listing.Encoding

/-!
# Which operands are numbers

An address of the zero page is written so that it is read back. The operand of
an expression without strings is a number exactly if the expression needs no
computation: it is a literal or the name of a constant. All other operands are
names or end with a parenthesis, and neither is a number. No operand without
strings ends in a colon.
-/

namespace Cartridge

namespace Listing

open Register (addressText)

-- ---------------------------------------------------------------------------
-- Addresses
-- ---------------------------------------------------------------------------

def hexDigit (k : Nat) : Char :=
  (Nat.digitChar k).toUpper

theorem digitValue_hexDigit : ∀ k < 16, Text.digitValue (hexDigit k) = k := by
  decide

theorem isBlank_hexDigit : ∀ k < 16, Text.isBlank (hexDigit k) = false := by
  decide

theorem hexDigit_ne : ∀ k < 16, hexDigit k ≠ '-' ∧ hexDigit k ≠ '+' ∧ hexDigit k ≠ ':' := by
  decide

theorem trim_addressText (n : Nat) :
    Text.trim (addressText n).toList = ['$', hexDigit (n / 16 % 16), hexDigit (n % 16)] := by
  have htext : (addressText n).toList = ['$', hexDigit (n / 16 % 16), hexDigit (n % 16)] := by
    simp [addressText, Text.hexByte, hexDigit]
  have hdollar : Text.isBlank '$' = false := rfl
  have hhigh := isBlank_hexDigit (n / 16 % 16) (Nat.mod_lt _ (by decide))
  have hlow := isBlank_hexDigit (n % 16) (Nat.mod_lt _ (by decide))
  rw [htext, Text.trim_eq_self]
  simp [hdollar, hhigh, hlow]

theorem readNat_hexDigits (h : n < 0x100) :
    Text.readNat 16 [hexDigit (n / 16 % 16), hexDigit (n % 16)] = some n := by
  have hhigh := digitValue_hexDigit (n / 16 % 16) (Nat.mod_lt _ (by decide))
  have hlow := digitValue_hexDigit (n % 16) (Nat.mod_lt _ (by decide))
  have hvalue : 16 * (n / 16 % 16) + n % 16 = n := by omega
  have hdigits : n / 16 % 16 < 16 ∧ n % 16 < 16 := by omega
  simp [Text.readNat, Text.isDigitOf, Text.digitsValue, hhigh, hlow, hvalue, hdigits]

/-- An address of the zero page is read back. -/
theorem readAddress_addressText (h : n < 0x100) :
    readAddress (Text.trim (addressText n).toList) = some n := by
  obtain ⟨hminus, hplus, -⟩ := hexDigit_ne (n / 16 % 16) (Nat.mod_lt _ (by decide))
  have hword : (Int64.ofNat n).toInt = n := Int64.toInt_ofNat_of_lt (by omega)
  have hint : Text.readInt 16 [hexDigit (n / 16 % 16), hexDigit (n % 16)] =
      some (Int64.ofNat n) := by
    unfold Text.readInt
    split
    · next heq => exact absurd (List.cons.inj heq).1 hminus
    · next heq => exact absurd (List.cons.inj heq).1 hplus
    · rw [readNat_hexDigits h, Option.bind_some, Text.fit_eq_some_iff, hword]
  rw [trim_addressText, readAddress, readOperand, hint]
  simp only [hword]
  rw [if_pos (by omega), Int.toNat_natCast]

theorem endsInColon_addressText (n : Nat) : endsInColon (addressText n) = false := by
  obtain ⟨-, -, hcolon⟩ := hexDigit_ne (n % 16) (Nat.mod_lt _ (by decide))
  simp [endsInColon, trim_addressText, hcolon]

end Listing

-- ---------------------------------------------------------------------------
-- Operands of expressions
-- ---------------------------------------------------------------------------

namespace Pascal

/-- The number of a literal that is no string. -/
def Literal.number? (v : Literal) : Option Int :=
  if v.isStr then none else some v.number

/-- The number that an expression stands for without being computed: it is a literal, or the name
of a constant, whose last declaration counts. -/
def Expr.constant? (cs : Constants) : Expr → Option Int
  | .lit v => v.number?
  | .ident x => (cs.reverse.lookup x).bind Literal.number?
  | _ => none

theorem last?_eq_lookup_reverse (cs : Constants) (x : String) :
    cs.last? x = cs.reverse.lookup x := by
  have hfold (found : Option Literal) :
      cs.foldl (fun found c => if c.1 == x then some c.2 else found) found =
        (cs.reverse.lookup x).or found := by
    induction cs generalizing found with
    | nil => rfl
    | cons c cs ih =>
      rw [List.foldl_cons, ih, List.reverse_cons, List.lookup_append, Option.or_assoc]
      congr 1
      obtain ⟨name, value⟩ := c
      rw [List.lookup_cons]
      by_cases hname : name = x
      · simp [hname]
      · have hne : (x == name) = false := beq_eq_false_iff_ne.mpr (Ne.symm hname)
        simp [hname, hne]
  rw [Constants.last?, hfold, Option.or_none]

theorem int?_counted (v : Literal) : (Expr.lit v.counted).int?.map Int64.toInt = v.number? := by
  rcases v with _ | (_ | _) | _ <;> rfl

theorem int?_substitute (cs : Constants) (e : Expr) :
    (e.substitute cs).int?.map Int64.toInt = e.constant? cs := by
  cases e with
  | lit v => exact int?_counted v
  | ident x =>
    rw [Expr.substitute, Expr.constant?, ← last?_eq_lookup_reverse]
    cases cs.last? x with
    | none => rfl
    | some v => exact int?_counted v
  | binary op l r => rfl
  | call f args => rfl

theorem isWordPart_atom {e : Expr} (he : e.isNumeric) (ha : e.isAtom) :
    ∀ c ∈ e.chars, isWordPart c ∨ c = '-' := by
  intro c hc
  rcases e with (v | _ | _) | x | _ | _
  · obtain hdigit | hminus := Text.isDigit_or_minus_of_mem_toString hc
    · exact .inl (by simp [isWordPart, Char.isAlphanum, hdigit])
    · exact .inr hminus
  · cases he
  · cases he
  · obtain ⟨_, _, -, -, hpart⟩ := isWord_cons he
    exact .inl (hpart c hc)
  · cases ha
  · cases ha

theorem toNat_of_isWordPart (h : isWordPart c) : 48 ≤ c.toNat ∧ c.toNat < 128 := by
  simp only [isWordPart, Char.isAlphanum, Bool.or_eq_true, beq_iff_eq] at h
  obtain (halpha | hdigit) | rfl := h
  · have := toNat_of_isAlpha halpha
    omega
  · obtain ⟨hge, hle⟩ := Char.isDigit_iff_toNat.mp hdigit
    exact ⟨hge, Nat.lt_of_le_of_lt hle (by decide)⟩
  · decide

theorem isBlank_of_isWordPart (h : isWordPart c) : Text.isBlank c = false := by
  obtain ⟨hge, hlt⟩ := toNat_of_isWordPart h
  simp only [Text.isBlank, Bool.or_eq_false_iff, Bool.and_eq_false_iff, decide_eq_false_iff_not,
    beq_eq_false_iff_ne]
  omega

theorem isBlank_of_mem_label (h : isWord name) :
    ∀ c ∈ (name ++ ":").toList, Text.isBlank c = false := by
  obtain ⟨_, _, -, -, hpart⟩ := isWord_cons h
  intro c hc
  rw [String.toList_append] at hc
  obtain hc | hc := List.mem_append.mp hc
  · exact isBlank_of_isWordPart (hpart c hc)
  · obtain rfl := List.mem_singleton.mp hc
    rfl

end Pascal

namespace Listing

open Pascal

theorem readNat_eq_none (h : c ∈ cs) (hc : Text.isDigitOf base c = false) :
    Text.readNat base cs = none := by
  have hall : cs.all (Text.isDigitOf base) = false :=
    List.all_eq_false.mpr ⟨c, h, by simp [hc]⟩
  simp [Text.readNat, hall]

theorem getLast?_of_cons (h : (d :: ds).getLast? = some c) (hne : c ≠ d) :
    ds.getLast? = some c := by
  cases ds with
  | nil => exact absurd (Option.some.inj h).symm hne
  | cons d' ds => exact h

/-- Text that ends in neither a digit nor a sign is no number. -/
theorem readInt_eq_none_of_getLast? (h : cs.getLast? = some c)
    (hc : Text.isDigitOf base c = false) (hminus : c ≠ '-') (hplus : c ≠ '+') :
    Text.readInt base cs = none := by
  unfold Text.readInt
  split
  · have hmem := List.mem_of_getLast? (getLast?_of_cons h hminus)
    rw [readNat_eq_none hmem hc, Option.bind_none]
  · have hmem := List.mem_of_getLast? (getLast?_of_cons h hplus)
    rw [readNat_eq_none hmem hc, Option.bind_none]
  · rw [readNat_eq_none (List.mem_of_getLast? h) hc, Option.bind_none]

theorem readOperand_atom {e : Expr} (he : e.isNumeric) (ha : e.isAtom) :
    readOperand e.chars = e.int? := by
  have hpart := isWordPart_atom he ha
  unfold readOperand
  split
  · next heq =>
    have hdollar := hpart '$' (by simp [heq])
    exact absurd hdollar (by decide)
  · exact readInt_atom he ha

theorem trim_atom {e : Expr} (he : e.isNumeric) (ha : e.isAtom) :
    Text.trim e.chars = e.chars := by
  apply Text.trim_eq_self
  intro c hc
  obtain hpart | rfl := isWordPart_atom he ha c hc
  · exact isBlank_of_isWordPart hpart
  · rfl

theorem getLast?_trim_compound {e : Expr} (ha : e.isAtom = false) :
    (Text.trim e.chars).getLast? = some ')' := by
  obtain ⟨-, cs, hchars⟩ := chars_compound ha
  rw [hchars]
  exact Text.getLast?_trim_append_singleton rfl

theorem readOperand_compound {e : Expr} (ha : e.isAtom = false) :
    readOperand (Text.trim e.chars) = none := by
  have hlast := getLast?_trim_compound ha
  unfold readOperand
  split
  · next digits heq =>
    rw [heq] at hlast
    have hdigits := getLast?_of_cons hlast (by decide)
    exact readInt_eq_none_of_getLast? hdigits (by decide) (by decide) (by decide)
  · exact readInt_eq_none_of_getLast? hlast (by decide) (by decide) (by decide)

theorem readOperand_chars {e : Expr} (he : e.isNumeric) :
    readOperand (Text.trim e.chars) = e.int? := by
  cases ha : e.isAtom with
  | true => rw [trim_atom he ha, readOperand_atom he ha]
  | false => rw [readOperand_compound ha, (chars_compound ha).1]

theorem getLast?_trim_chars {e : Expr} (he : e.isNumeric) :
    (Text.trim e.chars).getLast? ≠ some ':' := by
  intro hcolon
  cases ha : e.isAtom with
  | true =>
    rw [trim_atom he ha] at hcolon
    have := isWordPart_atom he ha ':' (List.mem_of_getLast? hcolon)
    exact absurd this (by decide)
  | false =>
    rw [getLast?_trim_compound ha] at hcolon
    cases hcolon

/-- The operand of an expression without strings is a number exactly if the expression needs no
computation, and it is that number. -/
theorem readOperand_operand {e : Expr} {cs : Constants} (he : e.isPlain) (hcs : cs.isPlain) :
    (readOperand (Text.trim (e.operand cs).toList)).map Int64.toInt = e.constant? cs := by
  have hchars : (e.operand cs).toList = (e.substitute cs).chars := by
    rw [Expr.chars, operand_substitute]
  rw [hchars, readOperand_chars (isNumeric_substitute hcs e he), int?_substitute]

theorem endsInColon_operand {e : Expr} {cs : Constants} (he : e.isPlain) (hcs : cs.isPlain) :
    endsInColon (e.operand cs) = false := by
  have hlast := getLast?_trim_chars (isNumeric_substitute hcs e he)
  rw [Expr.chars, operand_substitute] at hlast
  simpa [endsInColon] using hlast

end Listing

end Cartridge
