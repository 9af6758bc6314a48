import Cartridge.Text.Blank

/-!
# Capability tiers

Hardware is graded into seven tiers, `L1` (bare metal) to `L7`. A tier is
written `L3` or `l3`, optionally qualified as in `GV.Spec.L3`, with blanks
allowed around it.
-/

namespace Cartridge

inductive Tier where
  | l1 | l2 | l3 | l4 | l5 | l6 | l7
deriving DecidableEq, Repr, Inhabited

/-- A text that names no tier. -/
structure UnknownTier where
  given : String
deriving DecidableEq, Repr

def UnknownTier.message (e : UnknownTier) : String :=
  s!"unknown capability tier '{e.given}' (expected L1..L7)"

namespace Tier

/-- All tiers, ascending. -/
def all : List Tier := [l1, l2, l3, l4, l5, l6, l7]

/-- One-based rank. -/
def number : Tier → Nat
  | l1 => 1
  | l2 => 2
  | l3 => 3
  | l4 => 4
  | l5 => 5
  | l6 => 6
  | l7 => 7

def text (t : Tier) : String :=
  s!"L{t.number}"

instance : LE Tier := ⟨fun a b => a.number ≤ b.number⟩
instance : LT Tier := ⟨fun a b => a.number < b.number⟩
instance (a b : Tier) : Decidable (a ≤ b) := inferInstanceAs (Decidable (a.number ≤ b.number))
instance (a b : Tier) : Decidable (a < b) := inferInstanceAs (Decidable (a.number < b.number))

theorem le_def {a b : Tier} : a ≤ b ↔ a.number ≤ b.number := Iff.rfl
theorem lt_def {a b : Tier} : a < b ↔ a.number < b.number := Iff.rfl

theorem le_trans {a b c : Tier} (hab : a ≤ b) (hbc : b ≤ c) : a ≤ c :=
  Nat.le_trans hab hbc

theorem not_le {a b : Tier} : ¬ a ≤ b ↔ b < a := Nat.not_le

/-- The qualifier that may stand before a tier. -/
def qualifier : List Char := "GV.Spec.".toList

/-- The tier with the given one-digit rank. -/
def ofDigits? : List Char → Option Tier
  | ['1'] => some l1
  | ['2'] => some l2
  | ['3'] => some l3
  | ['4'] => some l4
  | ['5'] => some l5
  | ['6'] => some l6
  | ['7'] => some l7
  | _ => none

/-- The tier that `L` or `l` and a rank name. -/
def ofShort? : List Char → Option Tier
  | 'L' :: digits => ofDigits? digits
  | 'l' :: digits => ofDigits? digits
  | _ => none

/-- The tier that a text names, if it names one. -/
def ofText? (s : String) : Option Tier :=
  let cs := Text.trim s.toList
  ofShort? ((qualifier.isPrefixOf? cs).getD cs)

/-- Reads a tier; the error keeps the text as it was given. -/
def read (s : String) : Except UnknownTier Tier :=
  match ofText? s with
  | some t => .ok t
  | none => .error ⟨s⟩

end Tier

end Cartridge
