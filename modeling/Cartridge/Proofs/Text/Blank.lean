import Cartridge.Text.Blank

/-!
# Trimming

Trimming at the right end follows a text from its left end, one character at a
time; everything else about blanks at the ends comes from that.
-/

namespace Cartridge.Text

@[simp] theorem trimRight_nil : trimRight [] = [] := rfl

@[simp] theorem trim_nil : trim [] = [] := rfl

/-- A character stays unless it is blank and nothing behind it stays. -/
theorem trimRight_cons (c : Char) (cs : List Char) :
    trimRight (c :: cs) = if isBlank c ∧ trimRight cs = [] then [] else c :: trimRight cs := by
  simp only [trimRight, List.reverse_cons, List.dropWhile_append, List.reverse_eq_nil_iff,
    List.isEmpty_iff]
  by_cases hrest : cs.reverse.dropWhile isBlank = []
  · by_cases hc : isBlank c <;> simp [hrest, hc]
  · simp [hrest]

@[simp] theorem trimRight_cons_of_not_blank (h : isBlank c = false) :
    trimRight (c :: cs) = c :: trimRight cs := by
  simp [trimRight_cons, h]

@[simp] theorem trim_cons_of_not_blank (h : isBlank c = false) :
    trim (c :: cs) = c :: trimRight cs := by
  simp [trim, trimLeft, h]

@[simp] theorem trim_cons_of_blank (h : isBlank c = true) : trim (c :: cs) = trim cs := by
  simp [trim, trimLeft, h]

theorem trimRight_append_singleton (h : isBlank c = false) :
    trimRight (cs ++ [c]) = cs ++ [c] := by
  simp [trimRight, h]

theorem trim_eq_self_of_ends (hfirst : isBlank c = false) (hlast : isBlank d = false) :
    trim (c :: (cs ++ [d])) = c :: (cs ++ [d]) := by
  rw [trim_cons_of_not_blank hfirst, trimRight_append_singleton hlast]

theorem trimRight_trimRight (cs : List Char) : trimRight (trimRight cs) = trimRight cs := by
  induction cs with
  | nil => rfl
  | cons c cs ih =>
    rw [trimRight_cons]
    split
    · rfl
    · next hkeep => rw [trimRight_cons, ih, if_neg hkeep]

theorem trim_trimRight (cs : List Char) : trim (trimRight cs) = trim cs := by
  induction cs with
  | nil => rfl
  | cons c cs ih =>
    cases hc : isBlank c with
    | false => simp [hc, trimRight_trimRight]
    | true =>
      rw [trimRight_cons, trim_cons_of_blank hc, ← ih]
      split
      · next hempty => rw [hempty.2]
      · rw [trim_cons_of_blank hc]

theorem trim_eq_self (h : ∀ c ∈ cs, isBlank c = false) : trim cs = cs := by
  have hright (ds : List Char) (hds : ∀ c ∈ ds, isBlank c = false) : trimRight ds = ds := by
    induction ds with
    | nil => rfl
    | cons d ds ih =>
      obtain ⟨hd, hds⟩ := List.forall_mem_cons.mp hds
      rw [trimRight_cons_of_not_blank hd, ih hds]
  cases cs with
  | nil => rfl
  | cons c cs =>
    obtain ⟨hc, hcs⟩ := List.forall_mem_cons.mp h
    rw [trim_cons_of_not_blank hc, hright cs hcs]

/-- Both kinds of trimming leave the same last character. -/
theorem getLast?_trimRight (cs : List Char) : (trimRight cs).getLast? = (trim cs).getLast? := by
  induction cs with
  | nil => rfl
  | cons c cs ih =>
    cases hc : isBlank c with
    | false => simp [hc]
    | true =>
      rw [trim_cons_of_blank hc, trimRight_cons, ← ih]
      split
      · next hempty => rw [hempty.2]
      · next hkeep =>
        have hrest : trimRight cs ≠ [] := fun h => hkeep ⟨hc, h⟩
        rw [List.getLast?_cons_of_ne_nil hrest]

/-- A text that ends without a blank still ends with its last character. -/
theorem getLast?_trim_append_singleton (h : isBlank c = false) :
    (trim (cs ++ [c])).getLast? = some c := by
  rw [← getLast?_trimRight, trimRight_append_singleton h]
  simp

end Cartridge.Text
