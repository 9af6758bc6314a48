import Cartridge.Flat.Buffer
import Cartridge.Proofs.Flat.Folding

/-!
# The buffer holds what is scanned

Folding in a buffer never cuts where it must not and comes to what scanning comes
to. While an operand is read the buffer holds the text of the scan, and its open
bytes are the sizes of the texts before the open parentheses. Each of these texts
goes on with its parenthesis, so the buffer can be cut there. Between two open
parentheses the last parenthesis closes, if there is one; so a group with
parentheses of its own has no value, whichever way it is looked for.
-/

namespace Cartridge.Flat

variable {inner : List Char}

-- ---------------------------------------------------------------------------
-- Groups
-- ---------------------------------------------------------------------------

theorem isParenthesis_of_isDigitOf (h : Text.isDigitOf 10 c) : isParenthesis c = false := by
  cases hc : isParenthesis c with
  | false => rfl
  | true =>
    obtain rfl | rfl : c = '(' ∨ c = ')' := by simpa [isParenthesis] using hc
    · exact absurd h (by decide)
    · exact absurd h (by decide)

theorem isParenthesis_of_readNat (h : Text.readNat 10 cs = some n) :
    ∀ c ∈ cs, isParenthesis c = false := by
  unfold Text.readNat at h
  split at h
  · cases h
  · next hdigits =>
    simp only [Bool.or_eq_true, not_or, Bool.not_eq_true', Bool.not_eq_false,
      List.all_eq_true] at hdigits
    exact fun c hc => isParenthesis_of_isDigitOf (hdigits.2 c hc)

theorem isParenthesis_of_readInt (h : Text.readInt 10 cs = some v) :
    ∀ c ∈ cs, isParenthesis c = false := by
  unfold Text.readInt at h
  split at h
  · obtain ⟨n, hn, -⟩ := Option.bind_eq_some_iff.mp h
    exact List.forall_mem_cons.mpr ⟨rfl, isParenthesis_of_readNat hn⟩
  · obtain ⟨n, hn, -⟩ := Option.bind_eq_some_iff.mp h
    exact List.forall_mem_cons.mpr ⟨rfl, isParenthesis_of_readNat hn⟩
  · obtain ⟨n, hn, -⟩ := Option.bind_eq_some_iff.mp h
    exact isParenthesis_of_readNat hn

theorem eq_symbol_of_ofSymbol? (h : Pascal.Operator.ofSymbol? s = some op) : s = op.symbol := by
  have hfound := List.find?_some h
  exact (beq_iff_eq.mp hfound).symm

/-- A group with a parenthesis in it has no value. -/
theorem isParenthesis_of_groupValue? (h : groupValue? inner = some v) :
    ∀ c ∈ inner, isParenthesis c = false := by
  unfold groupValue? at h
  split at h
  · next a op b hparts =>
    have hinner : inner = a ++ ' ' :: (op ++ ' ' :: b) := by
      have hjoined : [' '].intercalate (splitBlanks inner) = inner := List.intercalate_splitOn ' '
      rw [← hjoined, hparts]
      simp [List.intercalate]
    simp only [Option.bind_eq_bind, Option.bind_eq_some_iff] at h
    obtain ⟨o, ho, x, hx, y, hy, -⟩ := h
    have hop : ∀ c ∈ op, isParenthesis c = false := by
      have hsymbol := Pascal.isBreak_symbol o
      rw [← eq_symbol_of_ofSymbol? ho, String.toList_ofList] at hsymbol
      exact isParenthesis_of_isBreak hsymbol
    have hblank : isParenthesis ' ' = false := rfl
    have ha := isParenthesis_of_readInt hx
    have hb := isParenthesis_of_readInt hy
    rw [hinner]
    grind
  · cases h

/-- The text of an open group, last character first: its last parenthesis is not an open one. -/
def IsInner (inner : List Char) : Prop :=
  inner.find? isParenthesis ≠ some '('

theorem closingValue?_inner (h : IsInner inner) :
    closingValue? (inner ++ '(' :: before) = groupValue? inner.reverse := by
  cases hfind : inner.find? isParenthesis with
  | none =>
    refine closingValue?_open fun c hc => ?_
    simpa using List.find?_eq_none.mp hfind c hc
  | some c =>
    obtain ⟨hc, front, rest, rfl, hfront⟩ := List.find?_eq_some_iff_append.mp hfind
    have hclose : c = ')' := by
      obtain hopen | hclose : c = '(' ∨ c = ')' := by simpa [isParenthesis] using hc
      · exact absurd (hopen ▸ hfind) h
      · exact hclose
    subst hclose
    have hnone : groupValue? (front ++ ')' :: rest).reverse = none := by
      refine Option.eq_none_iff_forall_ne_some.mpr fun v hv => ?_
      exact absurd (isParenthesis_of_groupValue? hv ')' (by simp)) (by decide)
    rw [hnone, List.append_assoc, List.cons_append]
    exact closingValue?_close fun d hd => by simpa using hfront d hd

theorem foldGroup?_group (inner : List Char) :
    foldGroup? ('(' :: (inner ++ [')'])) = groupValue? inner := by
  simp [foldGroup?]

-- ---------------------------------------------------------------------------
-- Scanning
-- ---------------------------------------------------------------------------

/-- Each text before an open parenthesis is followed by its group, up to the end or to the next
open parenthesis. -/
def Nested (text : List Char) : List (List Char) → Prop
  | [] => True
  | before :: outer =>
    (∃ inner, text = inner ++ '(' :: before ∧ IsInner inner) ∧ Nested before outer

theorem Nested.cons (h : Nested text opened) (hc : c ≠ '(') : Nested (c :: text) opened := by
  cases opened with
  | nil => trivial
  | cons before outer =>
    obtain ⟨⟨inner, rfl, hinner⟩, houter⟩ := h
    refine ⟨⟨c :: inner, rfl, ?_⟩, houter⟩
    unfold IsInner at hinner ⊢
    rw [List.find?_cons]
    split
    · simpa using hc
    · exact hinner

theorem Nested.append (h : Nested before outer) (hfront : '(' ∉ front) :
    Nested (front ++ before) outer := by
  induction front with
  | nil => exact h
  | cons c front ih =>
    obtain ⟨hc, hfront⟩ := not_or.mp (mt List.mem_cons.mpr hfront)
    exact (ih hfront).cons (Ne.symm hc)

/-- Behind a parenthesis that closes, what stands in the group does not matter. -/
theorem Nested.close (h : Nested before outer) (front : List Char) :
    Nested (')' :: (front ++ before)) outer := by
  cases outer with
  | nil => trivial
  | cons before' outer =>
    obtain ⟨⟨inner, rfl, -⟩, houter⟩ := h
    refine ⟨⟨')' :: (front ++ inner), by simp, ?_⟩, houter⟩
    simp [IsInner, isParenthesis]

/-- The byte at which an open parenthesis stands behind `before`, last character first. -/
def byteBehind (before : List Char) : Nat :=
  (String.ofList before.reverse).utf8ByteSize

/-- The buffer holds what was scanned, and can be cut at every open parenthesis. -/
structure Buffer.Holds (b : Buffer) (st : Scan) : Prop where
  out : b.out = String.ofList st.text.reverse
  opened : b.opened = st.opened.map byteBehind
  nested : Nested st.text st.opened

theorem push_ofList (cs : List Char) (c : Char) :
    (String.ofList cs.reverse).push c = String.ofList (c :: cs).reverse := by
  rw [← String.toList_inj]
  simp

theorem notMem_toString (n : Int) : '(' ∉ (toString n).toList.reverse := by
  intro hmem
  exact absurd (Pascal.isBreak_of_mem_toString (List.mem_reverse.mp hmem)) (by decide)

/-- Closing a group cuts the buffer in front of its parenthesis and finds the value that the scan
finds. -/
theorem Buffer.close_ok (hinner : IsInner inner) (hnested : Nested before outer) :
    let st : Scan := ⟨inner ++ '(' :: before, before :: outer⟩
    ∃ b, close (String.ofList (')' :: st.text).reverse) (byteBehind before)
        (outer.map byteBehind) = .ok b ∧ b.Holds (st.close before outer) := by
  intro st
  have hcut : Partial.cut (String.ofList (')' :: st.text).reverse) (byteBehind before) =
      .ok (String.ofList before.reverse, String.ofList ('(' :: (inner.reverse ++ [')']))) := by
    have htext : (')' :: st.text).reverse =
        before.reverse ++ '(' :: (inner.reverse ++ [')']) := by simp [st]
    rw [htext, byteBehind, String.ofList_append, Partial.cut_append]
  have hcall : opensArguments (String.ofList before.reverse).back?.toList =
      opensArguments before := by
    rw [String.back?_eq, String.toList_ofList, List.getLast?_reverse]
    cases before <;> rfl
  have hclosed : Nested (')' :: st.text) outer := by
    have hclosed := hnested.close (inner ++ ['('])
    rwa [List.append_assoc] at hclosed
  simp only [close, hcut, hcall, bind, Except.bind, String.toList_ofList, foldGroup?_group,
    Scan.close, st, closingValue?_inner hinner]
  cases opensArguments before with
  | true => exact ⟨_, rfl, rfl, rfl, hclosed⟩
  | false =>
    cases groupValue? inner.reverse with
    | none => exact ⟨_, rfl, rfl, rfl, hclosed⟩
    | some v =>
      refine ⟨_, rfl, ?_, rfl, hnested.append (notMem_toString v.toInt)⟩
      rw [← String.toList_inj]
      simp

theorem Buffer.step_ok {b : Buffer} (h : b.Holds st) (c : Char) :
    ∃ b', b.step c = .ok b' ∧ b'.Holds (st.step c) := by
  obtain ⟨out, opened⟩ := b
  obtain ⟨rfl, rfl, hnested⟩ := h
  obtain rfl | hopen := Decidable.em (c = '(')
  · exact ⟨_, rfl, push_ofList _ _, rfl, ⟨[], rfl, nofun⟩, hnested⟩
  obtain rfl | hclose := Decidable.em (c = ')')
  · obtain ⟨text, opened⟩ := st
    cases opened with
    | nil => exact ⟨_, rfl, push_ofList _ _, rfl, trivial⟩
    | cons before outer =>
      obtain ⟨⟨inner, rfl, hinner⟩, houter⟩ := hnested
      simp only [Buffer.step, List.map_cons, push_ofList]
      exact close_ok hinner houter
  · have hscan : st.step c = ⟨c :: st.text, st.opened⟩ := by simp [Scan.step]
    refine ⟨⟨(String.ofList st.text.reverse).push c, st.opened.map byteBehind⟩, ?_, ?_⟩
    · simp [Buffer.step]
    · rw [hscan]
      exact ⟨push_ofList _ _, rfl, hnested.cons hopen⟩

theorem Buffer.run_ok {b : Buffer} (h : b.Holds st) (cs : List Char) :
    ∃ b', cs.foldlM Buffer.step b = .ok b' ∧ b'.Holds (cs.foldl Scan.step st) := by
  induction cs generalizing b st with
  | nil => exact ⟨b, rfl, h⟩
  | cons c cs ih =>
    obtain ⟨b', hstep, hholds⟩ := Buffer.step_ok h c
    obtain ⟨b'', hrun, hholds'⟩ := ih hholds
    exact ⟨b'', by rw [List.foldlM_cons, hstep]; exact hrun, hholds'⟩

/-- A text without an open parenthesis has no group. -/
theorem scan_of_notMem {cs : List Char} (h : '(' ∉ cs) :
    cs.foldl Scan.step ⟨text, []⟩ = ⟨cs.reverse ++ text, []⟩ := by
  induction cs generalizing text with
  | nil => rfl
  | cons c cs ih =>
    obtain ⟨hc, hcs⟩ := not_or.mp (mt List.mem_cons.mpr h)
    have hstep : Scan.step ⟨text, []⟩ c = ⟨c :: text, []⟩ := by
      unfold Scan.step
      split
      · exact absurd rfl hc
      · rfl
      · rfl
    rw [List.foldl_cons, hstep, ih hcs]
    simp

/-- Folding in a buffer does not crash, and folds. -/
theorem tryFold_eq (source : String) : tryFold source = .ok (foldConstants source) := by
  unfold tryFold foldConstants
  split
  · have hholds : Buffer.Holds {} {} := ⟨rfl, rfl, trivial⟩
    obtain ⟨b, hrun, hout, -, -⟩ := Buffer.run_ok hholds source.toList
    rw [hrun, ← hout]
    rfl
  · next hnone => simp [scan_of_notMem hnone]

end Cartridge.Flat
