/-!
# Parsing results

A parsing rule answers with a value and the rest of its input. That the rest
is shorter than a bound is part of the answer, so rules that call each other
end without a counter. A rule that reads something from `xs` is bounded by
`xs.length`, one that may also read nothing by `xs.length + 1`; the operations
below combine the two kinds, so that rules need no arithmetic of their own.
-/

namespace Cartridge

/-- What a rule read and what it left: fewer than `bound` items of input. -/
structure Parsed (ι α : Type) (bound : Nat) where
  value : α
  rest : List ι
  fewer : rest.length < bound

namespace Parsed

variable {ι α β : Type} {bound : Nat}

/-- Reads the first item and stands for `value`. -/
def one {x : ι} {xs : List ι} (value : α) : Parsed ι α (x :: xs).length :=
  ⟨value, xs, Nat.lt_succ_self _⟩

/-- Reads nothing and stands for `value`. -/
def nothing {xs : List ι} (value : α) : Parsed ι α (xs.length + 1) :=
  ⟨value, xs, Nat.lt_succ_self _⟩

/-- Another value for the same input. -/
def map (f : α → β) (p : Parsed ι α bound) : Parsed ι β bound :=
  ⟨f p.value, p.rest, p.fewer⟩

/-- The answer of a rule, after an item that was read before it. -/
def behind {x : ι} {xs : List ι} (p : Parsed ι α xs.length) : Parsed ι α (x :: xs).length :=
  ⟨p.value, p.rest, Nat.lt_succ_of_lt p.fewer⟩

/-- The answer of a rule that need not have read anything. -/
def relax {xs : List ι} (p : Parsed ι α xs.length) : Parsed ι α (xs.length + 1) :=
  ⟨p.value, p.rest, Nat.lt_succ_of_lt p.fewer⟩

/-- The answer of a rule that read on where `p` stopped. -/
def next (p : Parsed ι α bound) (q : Parsed ι β p.rest.length) : Parsed ι β bound :=
  ⟨q.value, q.rest, Nat.lt_trans q.fewer p.fewer⟩

/-- The answer of a rule that may have read on where `p` stopped. -/
def nextMay (p : Parsed ι α bound) (q : Parsed ι β (p.rest.length + 1)) : Parsed ι β bound :=
  ⟨q.value, q.rest, Nat.lt_of_le_of_lt (Nat.le_of_lt_succ q.fewer) p.fewer⟩

/-- The first item of the rest, and the answer with that item read too. -/
def uncons? (p : Parsed ι α bound) : Option (ι × Parsed ι α bound) :=
  match p with
  | ⟨_, [], _⟩ => none
  | ⟨value, x :: xs, h⟩ => some (x, ⟨value, xs, Nat.lt_of_succ_lt h⟩)

end Parsed

end Cartridge
