import Cartridge.Text.Number

/-!
# Decimal text

Reading a number undoes writing it in decimal, for every number and for every
word. Decimal text holds digits and at most a leading minus.
-/

namespace Cartridge.Text

theorem digitsValue_toDigits (n : Nat) : digitsValue 10 (Nat.toDigits 10 n) = n := by
  have hdigit (acc : Nat) (cs : List Char) (h : ∀ c ∈ cs, c.isDigit) :
      cs.foldl (fun n c => 10 * n + digitValue c) acc = Nat.ofDigitChars 10 cs acc := by
    induction cs generalizing acc with
    | nil => rfl
    | cons c cs ih =>
      have hc : c.isDigit = true := h c (by simp)
      simp only [List.foldl_cons, Nat.ofDigitChars_cons, digitValue, hc, if_true]
      exact ih _ fun d hd => h d (by simp [hd])
  rw [digitsValue, hdigit 0 _ fun c hc => Nat.isDigit_of_mem_toDigits (by omega) (by omega) hc]
  exact Nat.ofDigitChars_toDigits (by omega) (by omega)

theorem isDigit_of_mem_decimal (h : c ∈ Nat.toDigits 10 n) : c.isDigit = true :=
  Nat.isDigit_of_mem_toDigits (by omega) (by omega) h

theorem isDigitOf_ten_of_isDigit (h : c.isDigit = true) : isDigitOf 10 c = true := by
  simp only [isDigitOf, digitValue, h, if_true, decide_eq_true_eq]
  simp only [Char.isDigit, Bool.and_eq_true, decide_eq_true_eq] at h
  have hle : c.toNat ≤ '9'.toNat := by exact UInt32.le_iff_toNat_le.mp h.2
  have h9 : '9'.toNat = 57 := rfl
  have h0 : '0'.toNat = 48 := rfl
  omega

theorem readNat_toDigits (n : Nat) : readNat 10 (Nat.toDigits 10 n) = some n := by
  have hall : (Nat.toDigits 10 n).all (isDigitOf 10) = true := by
    rw [List.all_eq_true]
    intro c hc
    exact isDigitOf_ten_of_isDigit (isDigit_of_mem_decimal hc)
  simp [readNat, hall, digitsValue_toDigits, Nat.toDigits_ne_nil]

theorem readInt_of_isDigit (h : ∀ c ∈ cs, c.isDigit) :
    readInt 10 cs = (readNat 10 cs).bind fun n => fit n := by
  unfold readInt
  split
  · exact absurd (h '-' (by simp)) (by decide)
  · exact absurd (h '+' (by simp)) (by decide)
  · rfl

theorem toList_toString (n : Int) : (toString n).toList =
    if 0 ≤ n then Nat.toDigits 10 n.toNat else '-' :: Nat.toDigits 10 (-n).toNat := by
  rw [Int.toString_eq_repr, Int.repr_eq_if]
  split <;> simp

/-- Every word is read back from its decimal text. -/
theorem readInt_toString (v : Int64) : readInt 10 (toString v.toInt).toList = some v := by
  rw [toList_toString]
  split
  · next h =>
    rw [readInt_of_isDigit fun c hc => isDigit_of_mem_decimal hc, readNat_toDigits,
      Option.bind_some, fit_eq_some_iff]
    omega
  · next h =>
    rw [readInt, readNat_toDigits, Option.bind_some, fit_eq_some_iff]
    omega

theorem isDigit_or_minus_of_mem_toString (h : c ∈ (toString (n : Int)).toList) :
    c.isDigit ∨ c = '-' := by
  rw [toList_toString] at h
  split at h
  · exact .inl (isDigit_of_mem_decimal h)
  · obtain rfl | h := List.mem_cons.mp h
    · exact .inr rfl
    · exact .inl (isDigit_of_mem_decimal h)

end Cartridge.Text
