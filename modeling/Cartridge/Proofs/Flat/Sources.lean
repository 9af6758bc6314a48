import Cartridge.Proofs.Flat.Folding
import Cartridge.Proofs.Flat.Machine

/-!
# Assigned operands as expressions

An operand over numbers, names and arithmetic is fully parenthesized, so its
text can be read back as the one expression that it renders. That gives operand
text a value in a store, and the names that this value depends on.
-/

namespace Cartridge.Pascal

/-- Numbers, words and arithmetic only. -/
def Expr.isArithmetic : Expr → Bool
  | .lit v => v.isInt
  | .ident x => isWord x
  | .binary op l r => op.isArithmetic && l.isArithmetic && r.isArithmetic
  | .call _ _ => false

theorem isArithmetic_binary :
    (Expr.binary op l r).isArithmetic ↔ op.isArithmetic ∧ l.isArithmetic ∧ r.isArithmetic := by
  simp [Expr.isArithmetic, and_assoc]

theorem isNumeric_of_isArithmetic (e : Expr) (h : e.isArithmetic) : e.isNumeric := by
  match e, h with
  | .lit v, h => exact h
  | .ident x, h => exact h
  | .binary op l r, h =>
    obtain ⟨-, hl, hr⟩ := isArithmetic_binary.mp h
    exact Bool.and_eq_true_iff.mpr
      ⟨isNumeric_of_isArithmetic l hl, isNumeric_of_isArithmetic r hr⟩

theorem isArithmetic_fold (e : Expr) (h : e.isArithmetic) : e.fold.isArithmetic := by
  match e, h with
  | .lit v, h => exact h
  | .ident x, h => exact h
  | .binary op l r, h =>
    obtain ⟨hop, hl, hr⟩ := isArithmetic_binary.mp h
    rw [Expr.fold]
    obtain ⟨_, _, v, _, _, _, hv⟩ | ⟨hkeep, -⟩ := foldNode_cases op l.fold r.fold
    · rw [hv]
      rfl
    · rw [hkeep]
      exact isArithmetic_binary.mpr ⟨hop, isArithmetic_fold l hl, isArithmetic_fold r hr⟩

end Cartridge.Pascal

namespace Cartridge.Flat

open Pascal

-- ---------------------------------------------------------------------------
-- Reading an operand
-- ---------------------------------------------------------------------------

/-- Reads exactly this character. -/
def expect? (c : Char) : List Char → Option (List Char)
  | [] => none
  | d :: cs => if d = c then some cs else none

/-- A number if the text is one, else a name. -/
def atomOf (cs : List Char) : Expr :=
  match Text.readInt 10 cs with
  | some v => .int v
  | none => .ident (String.ofList cs)

/-- Reads an operand of at most the given depth, and leaves what follows it. -/
def readOperand : Nat → List Char → Option (Expr × List Char)
  | 0, _ => none
  | depth + 1, '(' :: cs => do
    let (l, cs) ← readOperand depth cs
    let cs ← expect? ' ' cs
    let op ← Operator.ofSymbol? (String.ofList (cs.takeWhile (!isBreak ·)))
    let cs ← expect? ' ' (cs.dropWhile (!isBreak ·))
    let (r, cs) ← readOperand depth cs
    let cs ← expect? ')' cs
    return (.binary op l r, cs)
  | _ + 1, cs => some (atomOf (cs.takeWhile (!isBreak ·)), cs.dropWhile (!isBreak ·))

/-- The expression that a text renders. -/
def readSource? (source : String) : Option Expr :=
  match readOperand (source.toList.length + 1) source.toList with
  | some (e, []) => some e
  | _ => none

/-- An atom ends in front of these characters. -/
def Boundary (cs : List Char) : Prop :=
  ∀ c ∈ cs.head?, isBreak c

theorem boundary_nil : Boundary [] :=
  nofun

theorem boundary_cons (h : isBreak c) : Boundary (c :: cs) := by
  rintro _ ⟨⟩
  exact h

theorem takeWhile_atom {cs rest : List Char} (h : ∀ c ∈ cs, isBreak c = false)
    (hrest : Boundary rest) :
    (cs ++ rest).takeWhile (!isBreak ·) = cs ∧ (cs ++ rest).dropWhile (!isBreak ·) = rest := by
  have hpos : ∀ c ∈ cs, (!isBreak c) = true := fun c hc => by simp [h c hc]
  rw [List.takeWhile_append_of_pos hpos, List.dropWhile_append_of_pos hpos]
  cases rest with
  | nil => simp
  | cons c rest =>
    have hc : isBreak c = true := hrest c rfl
    simp [hc]

theorem atomOf_chars {e : Expr} (he : e.isNumeric) (ha : e.isAtom) : atomOf e.chars = e := by
  rw [atomOf, readInt_atom he ha]
  rcases e with (v | _ | _) | x | _ | _
  · rfl
  · cases he
  · cases he
  · simp [Expr.int?, chars_ident]
  · cases ha
  · cases ha

theorem chars_atom_ne_nil {e : Expr} (he : e.isNumeric) (ha : e.isAtom) : e.chars ≠ [] := by
  intro hnil
  have hread := readInt_atom he ha
  rcases e with (v | _ | _) | x | _ | _
  · rw [hnil] at hread
    cases hread
  · cases he
  · cases he
  · obtain ⟨c, cs, hx, -⟩ := isWord_cons he
    rw [chars_ident, hx] at hnil
    cases hnil
  · cases ha
  · cases ha

theorem readOperand_atom {e : Expr} (he : e.isNumeric) (ha : e.isAtom) (hrest : Boundary rest) :
    readOperand (depth + 1) (e.chars ++ rest) = some (e, rest) := by
  obtain ⟨c, cs, hcs⟩ := List.exists_cons_of_ne_nil (chars_atom_ne_nil he ha)
  have hbreak := isBreak_atom he ha
  have hc : isBreak c = false := hbreak c (by simp [hcs])
  obtain ⟨htake, hdrop⟩ := takeWhile_atom hbreak hrest
  rw [readOperand, htake, hdrop, atomOf_chars he ha]
  -- an atom does not start with a parenthesis
  rintro rest' heq
  rw [hcs] at heq
  cases heq
  cases hc

theorem readOperand_chars (e : Expr) (he : e.isArithmetic) (hdepth : e.chars.length < depth)
    (hrest : Boundary rest) : readOperand depth (e.chars ++ rest) = some (e, rest) := by
  cases depth with
  | zero => omega
  | succ depth =>
    match e, he with
    | .lit v, he => exact readOperand_atom he rfl hrest
    | .ident x, he => exact readOperand_atom he rfl hrest
    | .binary op l r, he =>
      obtain ⟨-, hl, hr⟩ := isArithmetic_binary.mp he
      have hlen : l.chars.length < depth ∧ r.chars.length < depth := by
        simp only [chars_binary, List.length_cons, List.length_append] at hdepth
        omega
      have hleft (tail : List Char) :
          readOperand depth (l.chars ++ ' ' :: tail) = some (l, ' ' :: tail) :=
        readOperand_chars l hl hlen.1 (boundary_cons rfl)
      have hright : readOperand depth (r.chars ++ ')' :: rest) = some (r, ')' :: rest) :=
        readOperand_chars r hr hlen.2 (boundary_cons rfl)
      have hblank : Boundary (' ' :: (r.chars ++ ')' :: rest)) := boundary_cons rfl
      obtain ⟨htake, hdrop⟩ := takeWhile_atom (isBreak_symbol op) hblank
      simp only [chars_binary, List.cons_append, List.append_assoc, List.nil_append, readOperand,
        hleft]
      simp [expect?, htake, hdrop, Operator.ofSymbol?_symbol, hright]

theorem readSource?_operand {e : Expr} (he : e.isArithmetic) :
    readSource? (e.operand []) = some e := by
  have hread := readOperand_chars e he (Nat.lt_succ_self _) boundary_nil
  rw [List.append_nil] at hread
  change (match readOperand (e.chars.length + 1) e.chars with
    | some (e, []) => some e
    | _ => none) = some e
  rw [hread]

-- ---------------------------------------------------------------------------
-- The value of an operand
-- ---------------------------------------------------------------------------

/-- The text renders an expression over numbers, words and arithmetic. -/
def IsSource (source : String) : Prop :=
  ∃ e : Expr, e.isArithmetic ∧ source = e.operand []

abbrev Store := String → Int

/-- What running on a store leaves open: calls, conditions, and division by zero. -/
structure Runtime where
  call : String → List String → Store → Store
  holds : String → Store → Bool
  other : Operator → Int → Int → Int

def Runtime.meaning (rt : Runtime) (ρ : Store) : Meaning :=
  ⟨ρ, fun _ _ => 0, rt.other⟩

/-- The value of an operand in a store; text that renders no expression counts as zero. -/
def Runtime.value (rt : Runtime) (source : String) (ρ : Store) : Int :=
  match readSource? source with
  | some e => e.value [] (rt.meaning ρ)
  | none => 0

/-- The names that an operand reads. -/
def sourceNames (source : String) : List String :=
  match readSource? source with
  | some e => e.names
  | none => []

/-- An assignment writes the value that its operand has in the store before it. -/
def Runtime.machine (rt : Runtime) : Machine Store where
  apply
    | .assign target source, ρ => fun x => if x = target then rt.value source ρ else ρ x
    | .call callee args, ρ => rt.call callee args ρ
  holds := rt.holds

theorem Runtime.value_congr (rt : Runtime) (h : ∀ x ∈ sourceNames source, ρ x = ρ' x) :
    rt.value source ρ = rt.value source ρ' := by
  unfold value
  unfold sourceNames at h
  cases hread : readSource? source with
  | none => rfl
  | some e =>
    rw [hread] at h
    exact (Pascal.value_congr (rt.meaning ρ) e h).symm

theorem readSource?_foldConstants {e : Expr} (he : e.isArithmetic) :
    readSource? (foldConstants (e.operand [])) = some e.fold := by
  rw [foldConstants_of_isNumeric (isNumeric_of_isArithmetic e he),
    readSource?_operand (isArithmetic_fold e he)]

theorem Runtime.value_foldConstants (rt : Runtime) (h : IsSource source) (ρ : Store) :
    rt.value (foldConstants source) ρ = rt.value source ρ := by
  obtain ⟨e, he, rfl⟩ := h
  simp only [value, readSource?_foldConstants he, readSource?_operand he, value_fold]

theorem sourceNames_foldConstants (h : IsSource source) :
    sourceNames (foldConstants source) = sourceNames source := by
  obtain ⟨e, he, rfl⟩ := h
  simp only [sourceNames, readSource?_foldConstants he, readSource?_operand he, names_fold]

end Cartridge.Flat
