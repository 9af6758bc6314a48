import Cartridge.Flat.Fold
import Cartridge.Partial

/-!
# Folding in a buffer

An operand is folded while it is copied to a buffer. For every open parenthesis
the byte at which it stands there is kept; when its group closes, the buffer is
cut at that byte, and cut off there if the group has a value.
-/

namespace Cartridge.Flat

/-- What is copied so far, and the bytes at which open parentheses stand in it, the innermost
first. -/
structure Buffer where
  out : String := ""
  opened : List Nat := []
deriving DecidableEq, Repr

/-- The value of a group with its parentheses, if it has the shape that folds. -/
def foldGroup? : List Char → Option Int64
  | '(' :: inner => if inner.getLast? = some ')' then groupValue? inner.dropLast else none
  | _ => none

namespace Buffer

/-- Closes the group that begins at byte `start`. -/
def close (out : String) (start : Nat) (outer : List Nat) : Except Crash Buffer := do
  let (before, group) ← Partial.cut out start
  if opensArguments before.back?.toList then return ⟨out, outer⟩
  match foldGroup? group.toList with
  | some v => return ⟨before ++ toString v.toInt, outer⟩
  | none => return ⟨out, outer⟩

/-- Copies one more character. -/
def step (b : Buffer) (c : Char) : Except Crash Buffer :=
  match c with
  | '(' => .ok ⟨b.out.push '(', b.out.utf8ByteSize :: b.opened⟩
  | ')' =>
    match b.opened with
    | [] => .ok ⟨b.out.push ')', []⟩
    | start :: outer => close (b.out.push ')') start outer
  | c => .ok ⟨b.out.push c, b.opened⟩

end Buffer

/-- An operand folded in a buffer; one without parentheses has nothing to fold. -/
def tryFold (source : String) : Except Crash String :=
  if '(' ∈ source.toList then do
    let b ← source.toList.foldlM Buffer.step {}
    return b.out
  else .ok source

end Cartridge.Flat
