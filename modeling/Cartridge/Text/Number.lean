/-!
# Numbers in text

Signed 64-bit numbers written in some base: an optional single sign, then one
or more ASCII digits, nothing else, and a value that fits. Reading is total;
`none` covers a missing digit, a foreign character and a value out of range.
-/

namespace Cartridge.Text

/-- The value of an ASCII digit; letters of either case count from ten. -/
def digitValue (c : Char) : Nat :=
  if c.isDigit then c.toNat - '0'.toNat
  else if c.isLower then c.toNat - 'a'.toNat + 10
  else if c.isUpper then c.toNat - 'A'.toNat + 10
  else 36

/-- Whether `c` is a digit of `base` (at most 36). -/
def isDigitOf (base : Nat) (c : Char) : Bool :=
  digitValue c < base

/-- The number whose digits are `cs`, most significant first. -/
def digitsValue (base : Nat) (cs : List Char) : Nat :=
  cs.foldl (fun n c => base * n + digitValue c) 0

/-- An unsigned number: at least one digit and nothing but digits. -/
def readNat (base : Nat) (cs : List Char) : Option Nat :=
  if cs.isEmpty || !cs.all (isDigitOf base) then none else some (digitsValue base cs)

/-- The word that holds `n`, if one does. -/
def fit (n : Int) : Option Int64 :=
  if -0x8000000000000000 ≤ n ∧ n < 0x8000000000000000 then some (Int64.ofInt n) else none

/-- A number with an optional single sign, if it fits in a word. -/
def readInt (base : Nat) (cs : List Char) : Option Int64 :=
  match cs with
  | '-' :: digits => (readNat base digits).bind fun n => fit (-n)
  | '+' :: digits => (readNat base digits).bind fun n => fit n
  | digits => (readNat base digits).bind fun n => fit n

/-- The low byte of `n` as two upper-case hexadecimal digits. -/
def hexByte (n : Nat) : String :=
  String.ofList [(Nat.digitChar (n / 16 % 16)).toUpper, (Nat.digitChar (n % 16)).toUpper]

theorem fit_eq_some_iff {n : Int} {w : Int64} : fit n = some w ↔ w.toInt = n := by
  unfold fit
  have hlo := w.le_toInt
  have hhi := w.toInt_lt
  constructor
  · intro h
    split at h
    · rename_i hn
      cases h
      exact Int64.toInt_ofInt_of_le hn.1 hn.2
    · cases h
  · intro h
    subst h
    rw [if_pos ⟨hlo, hhi⟩, Int64.ofInt_toInt]

theorem fit_eq_none_iff {n : Int} :
    fit n = none ↔ n < -0x8000000000000000 ∨ 0x8000000000000000 ≤ n := by
  unfold fit
  split <;> simp <;> omega

end Cartridge.Text
