/-!
# Partial operations

Operations on lists, arrays, texts and machine words that are not defined everywhere.
Where one is not, it breaks down with a reason instead of giving a result.
-/

namespace Cartridge

/-- How a partial operation breaks down. -/
inductive Crash where
  /-- A place beyond the end of an array. -/
  | index (place length : Nat)
  /-- A slice beyond the end of a list. -/
  | slice (bound length : Nat)
  /-- A text cut at a byte at which no character begins, or beyond its end. -/
  | cut (offset size : Nat)
  /-- A copy between slices of different lengths. -/
  | copy (source target : Nat)
  /-- A sum that does not fit in its word. -/
  | sum
  /-- A difference below zero. -/
  | difference
deriving DecidableEq, Repr

def Crash.reason : Crash → String
  | index place length =>
    s!"index out of bounds: the len is {length} but the index is {place}"
  | slice bound length => s!"index {bound} out of range for slice of length {length}"
  | cut offset size => s!"byte index {offset} is not a char boundary of a text of {size} bytes"
  | copy source target =>
    s!"copy_from_slice: source slice length ({source}) does not match destination slice " ++
      s!"length ({target})"
  | sum => "attempt to add with overflow"
  | difference => "attempt to subtract with overflow"

namespace Partial

variable {α : Type}

/-- The array with `a` at place `i`. -/
def set (xs : Array α) (i : Nat) (a : α) : Except Crash (Array α) :=
  if h : i < xs.size then .ok (xs.set i a h) else .error (.index i xs.size)

/-- The first `n` entries of a list. -/
def upTo (xs : List α) (n : Nat) : Except Crash (List α) :=
  if n ≤ xs.length then .ok (xs.take n) else .error (.slice n xs.length)

/-- The entries of a list from place `n` on. -/
def startingAt (xs : List α) (n : Nat) : Except Crash (List α) :=
  if n ≤ xs.length then .ok (xs.drop n) else .error (.slice n xs.length)

/-- `source` copied onto all of `target`. -/
def copy (target source : List α) : Except Crash (List α) :=
  if source.length = target.length then .ok source
  else .error (.copy source.length target.length)

/-- The difference of two lengths. -/
def difference (a b : Nat) : Except Crash Nat :=
  if b ≤ a then .ok (a - b) else .error .difference

/-- The next 16-bit number. -/
def next (n : UInt16) : Except Crash UInt16 :=
  if n.toNat + 1 < UInt16.size then .ok (n + 1) else .error .sum

/-- A text cut in two at byte `offset`. -/
def cut (s : String) (offset : Nat) : Except Crash (String × String) :=
  if h : String.Pos.Raw.IsValid s ⟨offset⟩ then
    let p := s.pos ⟨offset⟩ h
    .ok ((s.sliceTo p).copy, (s.sliceFrom p).copy)
  else .error (.cut offset s.utf8ByteSize)

/-- A text can be cut behind each part of it. -/
theorem cut_append (front rest : String) :
    cut (front ++ rest) front.utf8ByteSize = .ok (front, rest) := by
  have hsplits := @String.Pos.splits_append_rawEndPos front rest
  have hvalid : String.Pos.Raw.IsValid (front ++ rest) ⟨front.utf8ByteSize⟩ :=
    String.Pos.Raw.isValid_rawEndPos.append_right rest
  rw [cut, dif_pos hvalid]
  exact congrArg Except.ok (Prod.ext hsplits.copy_sliceTo_eq hsplits.copy_sliceFrom_eq)

end Partial

end Cartridge
