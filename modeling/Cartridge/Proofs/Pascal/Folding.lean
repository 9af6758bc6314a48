import Cartridge.Pascal.Program
import Cartridge.Text.Number

/-!
# Constant folding on trees

Folding replaces, from the leaves up, an arithmetic operator on two numbers by
its value, if that value exists in 64 bits. It leaves nothing behind that
folds, keeps calls and the operators that are no arithmetic, and keeps the
value of the expression under every meaning of names and calls.
-/

namespace Cartridge.Pascal

-- ---------------------------------------------------------------------------
-- Arithmetic
-- ---------------------------------------------------------------------------

/-- The value of an arithmetic operator on integers; division goes toward zero, and there is none
by zero. -/
def Operator.result? (op : Operator) (a b : Int) : Option Int :=
  match op with
  | .add => some (a + b)
  | .sub => some (a - b)
  | .mul => some (a * b)
  | .slash | .div => if b = 0 then none else some (a.tdiv b)
  | .mod => if b = 0 then none else some (a.tmod b)
  | _ => none

/-- The value on words, if it is a word. The remainder of the lowest word by `-1` counts as an
overflow, like the quotient. -/
def Operator.checked? (op : Operator) (a b : Int64) : Option Int64 :=
  if op = .mod ∧ a = Int64.minValue ∧ b = -1 then none
  else (op.result? a.toInt b.toInt).bind Text.fit

theorem result?_of_checked? {op : Operator} (h : op.checked? a b = some v) :
    op.result? a.toInt b.toInt = some v.toInt := by
  unfold Operator.checked? at h
  split at h
  · cases h
  · obtain ⟨n, hn, hfit⟩ := Option.bind_eq_some_iff.mp h
    rw [hn, Text.fit_eq_some_iff.mp hfit]

theorem isArithmetic_of_result? {op : Operator} (h : op.result? a b = some n) :
    op.isArithmetic = true := by
  cases op <;> first | rfl | cases h

-- ---------------------------------------------------------------------------
-- Folding
-- ---------------------------------------------------------------------------

/-- An operator on folded operands. -/
def foldNode (op : Operator) (l r : Expr) : Expr :=
  match l, r with
  | .lit (.int a), .lit (.int b) =>
    match op.checked? a b with
    | some v => .int v
    | none => .binary op l r
  | _, _ => .binary op l r

mutual

def Expr.fold : Expr → Expr
  | .lit v => .lit v
  | .ident x => .ident x
  | .binary op l r => foldNode op l.fold r.fold
  | .call f args => .call f (Expr.foldAll args)

def Expr.foldAll : List Expr → List Expr
  | [] => []
  | e :: es => e.fold :: Expr.foldAll es

end

theorem foldNode_cases (op : Operator) (l r : Expr) :
    (∃ a b v, l = .int a ∧ r = .int b ∧ op.checked? a b = some v ∧ foldNode op l r = .int v) ∨
    (foldNode op l r = .binary op l r ∧
      ∀ a b, l = .int a → r = .int b → op.checked? a b = none) := by
  unfold foldNode
  split
  · next a b =>
    cases hv : op.checked? a b with
    | some v => exact .inl ⟨a, b, v, rfl, rfl, hv, rfl⟩
    | none =>
      refine .inr ⟨rfl, ?_⟩
      rintro _ _ ⟨⟩ ⟨⟩
      exact hv
  · next hne => exact .inr ⟨rfl, fun a b hl hr => absurd hr (hne a b hl)⟩

theorem length_foldAll (es : List Expr) : (Expr.foldAll es).length = es.length := by
  induction es with
  | nil => rfl
  | cons e es ih => simp [Expr.foldAll, ih]

-- ---------------------------------------------------------------------------
-- What is left, and what stays
-- ---------------------------------------------------------------------------

mutual

/-- An expression and everything inside it, from left to right. -/
def Expr.parts : Expr → List Expr
  | .lit v => [.lit v]
  | .ident x => [.ident x]
  | .binary op l r => .binary op l r :: (l.parts ++ r.parts)
  | .call f args => .call f args :: Expr.partsAll args

def Expr.partsAll : List Expr → List Expr
  | [] => []
  | e :: es => e.parts ++ Expr.partsAll es

end

/-- The value that the root of an expression folds to. -/
def Expr.foldable? : Expr → Option Int64
  | .binary op (.lit (.int a)) (.lit (.int b)) => op.checked? a b
  | _ => none

/-- What must stay of an expression's root: an operator that is no arithmetic, or a call with the
number of its arguments. -/
def Expr.fixed? : Expr → Option (Operator ⊕ String × Nat)
  | .binary op _ _ => if op.isArithmetic then none else some (.inl op)
  | .call f args => some (.inr (f, args.length))
  | _ => none

mutual

theorem foldable?_fold (e : Expr) : ∀ p ∈ e.fold.parts, p.foldable? = none := by
  cases e with
  | lit v => simp [Expr.fold, Expr.parts, Expr.foldable?]
  | ident x => simp [Expr.fold, Expr.parts, Expr.foldable?]
  | binary op l r =>
    rw [Expr.fold]
    obtain ⟨_, _, v, _, _, _, hv⟩ | ⟨hkeep, hnone⟩ := foldNode_cases op l.fold r.fold
    · simp [hv, Expr.parts, Expr.foldable?]
    · rw [hkeep, Expr.parts]
      simp only [List.mem_cons, List.mem_append]
      rintro p (rfl | hp | hp)
      · unfold Expr.foldable?
        split
        · next h =>
          injection h with hop hl hr
          rw [← hop]
          exact hnone _ _ hl hr
        · rfl
      · exact foldable?_fold l p hp
      · exact foldable?_fold r p hp
  | call f args =>
    rw [Expr.fold, Expr.parts]
    simp only [List.mem_cons]
    rintro p (rfl | hp)
    · rfl
    · exact foldable?_foldAll args p hp

theorem foldable?_foldAll (es : List Expr) :
    ∀ p ∈ Expr.partsAll (Expr.foldAll es), p.foldable? = none := by
  cases es with
  | nil => simp [Expr.foldAll, Expr.partsAll]
  | cons e es =>
    simp only [Expr.foldAll, Expr.partsAll, List.mem_append]
    rintro p (hp | hp)
    · exact foldable?_fold e p hp
    · exact foldable?_foldAll es p hp

end

/-- Picks neither numbers nor arithmetic, and the rest whatever folding does inside. -/
structure Stays (pick : Expr → Option α) : Prop where
  int : ∀ v, pick (.int v) = none
  arithmetic : ∀ op l r, op.isArithmetic → pick (.binary op l r) = none
  binary : ∀ op l r, pick (.binary op l.fold r.fold) = pick (.binary op l r)
  call : ∀ f args, pick (.call f (Expr.foldAll args)) = pick (.call f args)

mutual

theorem filterMap_parts_fold (h : Stays pick) (e : Expr) :
    e.fold.parts.filterMap pick = e.parts.filterMap pick := by
  cases e with
  | lit v => rfl
  | ident x => rfl
  | binary op l r =>
    have hl := filterMap_parts_fold h l
    have hr := filterMap_parts_fold h r
    rw [Expr.fold]
    obtain ⟨a, b, v, hla, hrb, hv, hnode⟩ | ⟨hkeep, -⟩ := foldNode_cases op l.fold r.fold
    · -- Both operands folded to numbers, so nothing is picked from them.
      rw [hla] at hl
      rw [hrb] at hr
      have hop := isArithmetic_of_result? (result?_of_checked? hv)
      simp only [Expr.parts, List.filterMap_cons, List.filterMap_nil, h.int] at hl hr
      simp only [hnode, Expr.parts, List.filterMap_cons, List.filterMap_append,
        List.filterMap_nil, h.int, h.arithmetic op l r hop, ← hl, ← hr, List.append_nil]
    · simp only [hkeep, Expr.parts, List.filterMap_cons, List.filterMap_append, hl, hr, h.binary]
  | call f args =>
    simp only [Expr.fold, Expr.parts, List.filterMap_cons, h.call, filterMap_partsAll_fold h args]

theorem filterMap_partsAll_fold (h : Stays pick) (es : List Expr) :
    (Expr.partsAll (Expr.foldAll es)).filterMap pick = (Expr.partsAll es).filterMap pick := by
  cases es with
  | nil => rfl
  | cons e es =>
    simp only [Expr.foldAll, Expr.partsAll, List.filterMap_append, filterMap_parts_fold h e,
      filterMap_partsAll_fold h es]

end

theorem stays_fixed? : Stays Expr.fixed? where
  int _ := rfl
  arithmetic op l r hop := by simp [Expr.fixed?, hop]
  binary _ _ _ := rfl
  call f args := by simp [Expr.fixed?, length_foldAll]

theorem fixed?_fold (e : Expr) :
    e.fold.parts.filterMap Expr.fixed? = e.parts.filterMap Expr.fixed? :=
  filterMap_parts_fold stays_fixed? e

def Expr.name? : Expr → Option String
  | .ident x => some x
  | _ => none

/-- The names that an expression reads, from left to right. -/
def Expr.names (e : Expr) : List String :=
  e.parts.filterMap Expr.name?

theorem names_binary (op : Operator) (l r : Expr) :
    (Expr.binary op l r).names = l.names ++ r.names :=
  List.filterMap_append

theorem stays_name? : Stays Expr.name? where
  int _ := rfl
  arithmetic _ _ _ _ := rfl
  binary _ _ _ := rfl
  call _ _ := rfl

theorem names_fold (e : Expr) : e.fold.names = e.names :=
  filterMap_parts_fold stays_name? e

-- ---------------------------------------------------------------------------
-- Values
-- ---------------------------------------------------------------------------

/-- What names and calls stand for, and every operator where arithmetic gives no value. -/
structure Meaning where
  name : String → Int
  call : String → List Int → Int
  other : Operator → Int → Int → Int

def Meaning.operate (m : Meaning) (op : Operator) (a b : Int) : Int :=
  (op.result? a b).getD (m.other op a b)

/-- The number a literal stands for; a string stands for none and counts as zero. -/
def Literal.number : Literal → Int
  | .int v => v.toInt
  | .bool true => 1
  | .bool false => 0
  | .str _ => 0

mutual

/-- The value of an expression in which the names of constants are taken. -/
def Expr.value (cs : Constants) (m : Meaning) : Expr → Int
  | .lit v => v.number
  | .ident x =>
    match cs.last? x with
    | some v => v.number
    | none => m.name x
  | .binary op l r => m.operate op (l.value cs m) (r.value cs m)
  | .call f args => m.call f (Expr.values cs m args)

def Expr.values (cs : Constants) (m : Meaning) : List Expr → List Int
  | [] => []
  | e :: es => e.value cs m :: Expr.values cs m es

end

mutual

theorem value_fold (cs : Constants) (m : Meaning) (e : Expr) :
    e.fold.value cs m = e.value cs m := by
  cases e with
  | lit v => rfl
  | ident x => rfl
  | binary op l r =>
    have hl := value_fold cs m l
    have hr := value_fold cs m r
    rw [Expr.fold]
    obtain ⟨a, b, v, hla, hrb, hv, hnode⟩ | ⟨hkeep, -⟩ := foldNode_cases op l.fold r.fold
    · rw [hla] at hl
      rw [hrb] at hr
      rw [hnode, Expr.value, Expr.value, ← hl, ← hr]
      simp [Meaning.operate, Expr.value, Literal.number, result?_of_checked? hv]
    · rw [hkeep, Expr.value, Expr.value, hl, hr]
  | call f args => rw [Expr.fold, Expr.value, Expr.value, values_foldAll cs m args]

theorem values_foldAll (cs : Constants) (m : Meaning) (es : List Expr) :
    Expr.values cs m (Expr.foldAll es) = Expr.values cs m es := by
  cases es with
  | nil => rfl
  | cons e es => rw [Expr.foldAll, Expr.values, Expr.values, value_fold cs m e,
      values_foldAll cs m es]

end

mutual

/-- The value depends on the names that are read. -/
theorem value_congr (m : Meaning) (e : Expr) (h : ∀ x ∈ e.names, m.name x = ρ x) :
    e.value [] { m with name := ρ } = e.value [] m := by
  cases e with
  | lit v => rfl
  | ident x => exact (h x List.mem_cons_self).symm
  | binary op l r =>
    rw [names_binary] at h
    have hl := value_congr m l fun x hx => h x (List.mem_append_left _ hx)
    have hr := value_congr m r fun x hx => h x (List.mem_append_right _ hx)
    rw [Expr.value, Expr.value, hl, hr]
    rfl
  | call f args => rw [Expr.value, Expr.value, values_congr m args h]

theorem values_congr (m : Meaning) (es : List Expr)
    (h : ∀ x ∈ (Expr.partsAll es).filterMap Expr.name?, m.name x = ρ x) :
    Expr.values [] { m with name := ρ } es = Expr.values [] m es := by
  cases es with
  | nil => rfl
  | cons e es =>
    rw [Expr.partsAll, List.filterMap_append] at h
    have he := value_congr m e fun x hx => h x (List.mem_append_left _ hx)
    have hes := values_congr m es fun x hx => h x (List.mem_append_right _ hx)
    rw [Expr.values, Expr.values, he, hes]

end

-- ---------------------------------------------------------------------------
-- Constants
-- ---------------------------------------------------------------------------

/-- A literal with truth values read as numbers. -/
def Literal.counted : Literal → Literal
  | .bool true => .int 1
  | .bool false => .int 0
  | v => v

mutual

/-- An expression with its constants in place and its truth values read as numbers. -/
def Expr.substitute (cs : Constants) : Expr → Expr
  | .lit v => .lit v.counted
  | .ident x =>
    match cs.last? x with
    | some v => .lit v.counted
    | none => .ident x
  | .binary op l r => .binary op (l.substitute cs) (r.substitute cs)
  | .call f args => .call f (Expr.substituteAll cs args)

def Expr.substituteAll (cs : Constants) : List Expr → List Expr
  | [] => []
  | e :: es => e.substitute cs :: Expr.substituteAll cs es

end

@[simp] theorem number_counted (v : Literal) : v.counted.number = v.number := by
  rcases v with _ | (_ | _) | _ <;> rfl

mutual

theorem value_substitute (cs : Constants) (m : Meaning) (e : Expr) :
    (e.substitute cs).value [] m = e.value cs m := by
  cases e with
  | lit v => simp [Expr.substitute, Expr.value]
  | ident x =>
    rw [Expr.substitute, Expr.value]
    split <;> simp [Expr.value, Constants.last?]
  | binary op l r =>
    rw [Expr.substitute, Expr.value, Expr.value, value_substitute cs m l,
      value_substitute cs m r]
  | call f args => rw [Expr.substitute, Expr.value, Expr.value, values_substituteAll cs m args]

theorem values_substituteAll (cs : Constants) (m : Meaning) (es : List Expr) :
    Expr.values [] m (Expr.substituteAll cs es) = Expr.values cs m es := by
  cases es with
  | nil => rfl
  | cons e es =>
    rw [Expr.substituteAll, Expr.values, Expr.values, value_substitute cs m e,
      values_substituteAll cs m es]

end

theorem length_substituteAll (cs : Constants) (es : List Expr) :
    (Expr.substituteAll cs es).length = es.length := by
  induction es with
  | nil => rfl
  | cons e es ih => simp [Expr.substituteAll, ih]

mutual

theorem fixed?_substitute (cs : Constants) (e : Expr) :
    (e.substitute cs).parts.filterMap Expr.fixed? = e.parts.filterMap Expr.fixed? := by
  cases e with
  | lit v => rfl
  | ident x =>
    rw [Expr.substitute]
    split <;> rfl
  | binary op l r =>
    simp only [Expr.substitute, Expr.parts, List.filterMap_cons, List.filterMap_append,
      Expr.fixed?, fixed?_substitute cs l, fixed?_substitute cs r]
  | call f args =>
    simp only [Expr.substitute, Expr.parts, List.filterMap_cons, Expr.fixed?,
      length_substituteAll, fixed?_substituteAll cs args]

theorem fixed?_substituteAll (cs : Constants) (es : List Expr) :
    (Expr.partsAll (Expr.substituteAll cs es)).filterMap Expr.fixed? =
      (Expr.partsAll es).filterMap Expr.fixed? := by
  cases es with
  | nil => rfl
  | cons e es =>
    simp only [Expr.substituteAll, Expr.partsAll, List.filterMap_append,
      fixed?_substitute cs e, fixed?_substituteAll cs es]

end

end Cartridge.Pascal
