import Mathlib.Data.List.Forall2
import Cartridge.Proofs.Listing.Decoding

/-!
# What lines say

A line says one thing only: nothing, a load of a number, a store at an address,
or it is malformed because its operand is no such number. The relation `Reads`
says which, from the trimmed text and from what numbers look like. Assembling
stops at the first malformed line; if there is none, the machine code is read
back as the loads and stores of the lines.
-/

namespace Cartridge

-- ---------------------------------------------------------------------------
-- Numbers
-- ---------------------------------------------------------------------------

namespace Text

/-- One or more digits of `base`. -/
def IsDigits (base : Nat) (cs : List Char) : Prop :=
  cs ≠ [] ∧ ∀ c ∈ cs, isDigitOf base c

/-- A number in `base` behind an optional sign, of any size. -/
inductive Numeral (base : Nat) : List Char → Int → Prop
  | bare : IsDigits base digits → Numeral base digits (digitsValue base digits)
  | plus : IsDigits base digits → Numeral base ('+' :: digits) (digitsValue base digits)
  | minus : IsDigits base digits → Numeral base ('-' :: digits) (-digitsValue base digits)

theorem readNat_eq_some_iff :
    readNat base cs = some n ↔ IsDigits base cs ∧ n = digitsValue base cs := by
  have hdigits : (cs.isEmpty || !cs.all (isDigitOf base)) = true ↔ ¬ IsDigits base cs := by
    simp [IsDigits, or_iff_not_imp_left]
  unfold readNat
  split
  · next h => simp [hdigits.mp h]
  · next h =>
    have hcs : IsDigits base cs := by simpa [hdigits] using h
    simp only [hcs, true_and, Option.some.injEq, eq_comm]

theorem isDigitOf_sign (hbase : base ≤ 36) :
    isDigitOf base '-' = false ∧ isDigitOf base '+' = false := by
  have hminus : digitValue '-' = 36 := rfl
  have hplus : digitValue '+' = 36 := rfl
  simp [isDigitOf, hminus, hplus, hbase]

/-- What is read is what is written as a number, if it fits in a word. -/
theorem readInt_eq_some_iff (hbase : base ≤ 36) {w : Int64} :
    readInt base cs = some w ↔ Numeral base cs w.toInt := by
  obtain ⟨hminus, hplus⟩ := isDigitOf_sign hbase
  have hread (digits : List Char) (f : Nat → Int) :
      ((readNat base digits).bind fun n => fit (f n)) = some w ↔
        IsDigits base digits ∧ w.toInt = f (digitsValue base digits) := by
    simp only [Option.bind_eq_some_iff, readNat_eq_some_iff, fit_eq_some_iff]
    constructor
    · rintro ⟨n, ⟨hdigits, rfl⟩, hw⟩
      exact ⟨hdigits, hw⟩
    · rintro ⟨hdigits, hw⟩
      exact ⟨_, ⟨hdigits, rfl⟩, hw⟩
  constructor
  · intro h
    unfold readInt at h
    split at h
    · obtain ⟨hdigits, hw⟩ := (hread _ fun n => -n).mp h
      exact hw ▸ .minus hdigits
    · obtain ⟨hdigits, hw⟩ := (hread _ fun n => n).mp h
      exact hw ▸ .plus hdigits
    · obtain ⟨hdigits, hw⟩ := (hread _ fun n => n).mp h
      exact hw ▸ .bare hdigits
  · generalize hn : w.toInt = n
    rintro (hdigits | hdigits | hdigits)
    · -- digits do not start with a sign
      unfold readInt
      split
      · exact absurd (hdigits.2 '-' List.mem_cons_self) (by simp [hminus])
      · exact absurd (hdigits.2 '+' List.mem_cons_self) (by simp [hplus])
      · exact (hread _ fun n => n).mpr ⟨hdigits, hn⟩
    · exact (hread _ fun n => n).mpr ⟨hdigits, hn⟩
    · exact (hread _ fun n => -n).mpr ⟨hdigits, hn⟩

end Text

namespace Listing

open Text (Numeral)

/-- The operand is `n`, in decimal or in hexadecimal behind a dollar sign, and `n` has 64 bits. -/
def Denotes (operand : List Char) (n : Int) : Prop :=
  (Numeral 10 operand n ∨ ∃ digits, operand = '$' :: digits ∧ Numeral 16 digits n) ∧
    -0x8000000000000000 ≤ n ∧ n < 0x8000000000000000

theorem not_numeral_dollar : ¬ Numeral 10 ('$' :: cs) n := by
  rintro ⟨-, hdigits⟩
  exact absurd (hdigits '$' List.mem_cons_self) (by decide)

theorem readOperand_eq_some_iff {w : Int64} : readOperand cs = some w ↔ Denotes cs w.toInt := by
  have hrange : -0x8000000000000000 ≤ w.toInt ∧ w.toInt < 0x8000000000000000 :=
    ⟨w.le_toInt, w.toInt_lt⟩
  unfold readOperand Denotes
  rw [and_iff_left hrange]
  split
  · rw [Text.readInt_eq_some_iff (by decide)]
    simp [not_numeral_dollar]
  · next hdollar =>
    rw [Text.readInt_eq_some_iff (by decide)]
    constructor
    · exact .inl
    · rintro (hdecimal | ⟨digits, rfl, -⟩)
      · exact hdecimal
      · exact (hdollar digits rfl).elim

theorem exists_readOperand (h : Denotes cs n) :
    ∃ w : Int64, readOperand cs = some w ∧ w.toInt = n := by
  have hword : (Int64.ofInt n).toInt = n := Int64.toInt_ofInt_of_le h.2.1 h.2.2
  exact ⟨Int64.ofInt n, readOperand_eq_some_iff.mpr (hword.symm ▸ h), hword⟩

theorem readOperand_eq_none_iff : readOperand cs = none ↔ ∀ n, ¬ Denotes cs n := by
  constructor
  · intro h n hdenotes
    obtain ⟨w, hw, -⟩ := exists_readOperand hdenotes
    rw [h] at hw
    cases hw
  · intro h
    cases hread : readOperand cs with
    | none => rfl
    | some w => exact absurd (readOperand_eq_some_iff.mp hread) (h _)

theorem readAddress_eq_some_iff : readAddress cs = some a ↔ Denotes cs a ∧ a < 0x10000 := by
  constructor
  · intro h
    unfold readAddress at h
    split at h
    · next w hw =>
      split at h
      · next hrange =>
        obtain rfl := Option.some.inj h
        have hdenotes := readOperand_eq_some_iff.mp hw
        rw [← Int.toNat_of_nonneg hrange.1] at hdenotes
        exact ⟨hdenotes, by omega⟩
      · cases h
    · cases h
  · rintro ⟨hdenotes, hlt⟩
    obtain ⟨w, hw, hn⟩ := exists_readOperand hdenotes
    have hrange : 0 ≤ w.toInt ∧ w.toInt < 0x10000 := by omega
    simp only [readAddress, hw, if_pos hrange]
    rw [hn, Int.toNat_natCast]

theorem readAddress_eq_none_iff :
    readAddress cs = none ↔ ∀ n, Denotes cs n → n < 0 ∨ 65535 < n := by
  constructor
  · intro h n hdenotes
    by_contra hrange
    obtain ⟨address, rfl⟩ := Int.eq_ofNat_of_zero_le (a := n) (by omega)
    have hread := readAddress_eq_some_iff.mpr ⟨hdenotes, by omega⟩
    rw [h] at hread
    cases hread
  · intro h
    cases hread : readAddress cs with
    | none => rfl
    | some address =>
      obtain ⟨hdenotes, hlt⟩ := readAddress_eq_some_iff.mp hread
      have hrange := h address hdenotes
      omega

-- ---------------------------------------------------------------------------
-- One line
-- ---------------------------------------------------------------------------

/-- What a line can say. -/
inductive Reading where
  | nothing
  | load (value : Int)
  | store (address : Nat)
  | malformed (fault : OperandFault)
deriving DecidableEq, Repr

/-- Trimmed text that is blank, a comment or a label. -/
def Skipped (text : List Char) : Prop :=
  text = [] ∨ text.head? = some ';' ∨ text.getLast? = some ':'

/-- What trimmed text says. -/
inductive Means : List Char → Reading → Prop
  | skipped : Skipped text → Means text .nothing
  | other : ¬ "LDA #".toList <+: text → ¬ "STA ".toList <+: text → Means text .nothing
  | load : ¬ Skipped ("LDA #".toList ++ rest) → Denotes (Text.trim rest) n →
      Means ("LDA #".toList ++ rest) (.load n)
  | badValue : ¬ Skipped ("LDA #".toList ++ rest) → (∀ n, ¬ Denotes (Text.trim rest) n) →
      Means ("LDA #".toList ++ rest) (.malformed ⟨.value, String.ofList (Text.trim rest)⟩)
  | store {address : Nat} : ¬ Skipped ("STA ".toList ++ rest) →
      Denotes (Text.trim rest) address → address ≤ 65535 →
      Means ("STA ".toList ++ rest) (.store address)
  | badAddress : ¬ Skipped ("STA ".toList ++ rest) →
      (∀ n, Denotes (Text.trim rest) n → n < 0 ∨ 65535 < n) →
      Means ("STA ".toList ++ rest) (.malformed ⟨.address, String.ofList (Text.trim rest)⟩)

/-- What a line says, whatever blanks are around it. -/
def Reads (line : String) (r : Reading) : Prop :=
  Means (Text.trim line.toList) r

theorem encodesNothing_iff : encodesNothing text ↔ Skipped text := by
  simp [encodesNothing, Skipped, or_assoc]

/-- The one thing that trimmed text says. -/
def reading (text : List Char) : Reading :=
  if encodesNothing text then .nothing
  else
    match loadMnemonic.isPrefixOf? text, storeMnemonic.isPrefixOf? text with
    | some rest, _ =>
      match readOperand (Text.trim rest) with
      | some w => .load w.toInt
      | none => .malformed ⟨.value, String.ofList (Text.trim rest)⟩
    | none, some rest =>
      match readAddress (Text.trim rest) with
      | some a => .store a
      | none => .malformed ⟨.address, String.ofList (Text.trim rest)⟩
    | none, none => .nothing

theorem isPrefixOf?_eq_none {pre text : List Char} (h : ¬ pre <+: text) :
    pre.isPrefixOf? text = none := by
  cases hrest : pre.isPrefixOf? text with
  | none => rfl
  | some rest => exact absurd ⟨rest, List.isPrefixOf?_eq_some_iff_append_eq.mp hrest⟩ h

theorem eq_reading_of_means (h : Means text r) : r = reading text := by
  have hload (rest : List Char) :
      loadMnemonic.isPrefixOf? ("LDA #".toList ++ rest) = some rest := rfl
  have hstore (rest : List Char) :
      storeMnemonic.isPrefixOf? ("STA ".toList ++ rest) = some rest := rfl
  have hnotLoad (rest : List Char) :
      loadMnemonic.isPrefixOf? ("STA ".toList ++ rest) = none := rfl
  cases h with
  | skipped hskip => rw [reading, if_pos (encodesNothing_iff.mpr hskip)]
  | other hnoLoad hnoStore =>
    have hload : loadMnemonic.isPrefixOf? text = none := isPrefixOf?_eq_none hnoLoad
    have hstore : storeMnemonic.isPrefixOf? text = none := isPrefixOf?_eq_none hnoStore
    simp only [reading, hload, hstore, ite_self]
  | load hkept hdenotes =>
    obtain ⟨w, hw, rfl⟩ := exists_readOperand hdenotes
    rw [reading, if_neg (encodesNothing_iff.not.mpr hkept)]
    simp only [hload, hw]
  | badValue hkept hbad =>
    rw [reading, if_neg (encodesNothing_iff.not.mpr hkept)]
    simp only [hload, readOperand_eq_none_iff.mpr hbad]
  | store hkept hdenotes hle =>
    have hread := readAddress_eq_some_iff.mpr ⟨hdenotes, Nat.lt_succ_of_le hle⟩
    rw [reading, if_neg (encodesNothing_iff.not.mpr hkept)]
    simp only [hnotLoad, hstore, hread]
  | badAddress hkept hbad =>
    rw [reading, if_neg (encodesNothing_iff.not.mpr hkept)]
    simp only [hnotLoad, hstore, readAddress_eq_none_iff.mpr hbad]

theorem means_reading (text : List Char) : Means text (reading text) := by
  unfold reading
  split
  · next hskip => exact .skipped (encodesNothing_iff.mp hskip)
  · next hkept =>
    rw [encodesNothing_iff] at hkept
    split
    · next rest _ hload =>
      obtain rfl := List.isPrefixOf?_eq_some_iff_append_eq.mp hload
      split
      · next w hw => exact .load hkept (readOperand_eq_some_iff.mp hw)
      · next hnone => exact .badValue hkept (readOperand_eq_none_iff.mp hnone)
    · next rest hload hstore =>
      obtain rfl := List.isPrefixOf?_eq_some_iff_append_eq.mp hstore
      split
      · next address haddress =>
        obtain ⟨hdenotes, hlt⟩ := readAddress_eq_some_iff.mp haddress
        exact .store hkept hdenotes (Nat.le_of_lt_succ hlt)
      · next hnone => exact .badAddress hkept (readAddress_eq_none_iff.mp hnone)
    · next hload hstore =>
      refine .other ?_ ?_
      · rintro ⟨rest, rfl⟩
        cases hload
      · rintro ⟨rest, rfl⟩
        cases hstore

theorem reads_iff : Reads line r ↔ r = reading (Text.trim line.toList) :=
  ⟨eq_reading_of_means, fun h => h ▸ means_reading _⟩

-- ---------------------------------------------------------------------------
-- What is encoded
-- ---------------------------------------------------------------------------

namespace Reading

/-- The operation of a load or store. -/
def operation? : Reading → Option Operation
  | load value => some (.load (lowByte value))
  | store address => some (.store address)
  | nothing => none
  | malformed _ => none

def encoded : Reading → Except OperandFault (List UInt8)
  | load value => .ok (encodeLoad value)
  | store address => .ok (encodeStore address)
  | nothing => .ok []
  | malformed fault => .error fault

theorem encoded_eq_error_iff {r : Reading} : r.encoded = .error fault ↔ r = .malformed fault := by
  cases r <;> simp [encoded]

end Reading

/-- A line is encoded as what it says. -/
theorem encodeLine_of_reads (h : Reads line r) : encodeLine line = r.encoded := by
  obtain rfl := reads_iff.mp h
  simp only [encodeLine, reading]
  generalize Text.trim line.toList = text
  cases encodesNothing text with
  | true => rfl
  | false =>
    cases loadMnemonic.isPrefixOf? text with
    | some rest => cases hread : readOperand (Text.trim rest) <;> simp [hread, Reading.encoded]
    | none =>
      cases storeMnemonic.isPrefixOf? text with
      | some rest => cases hread : readAddress (Text.trim rest) <;> simp [hread, Reading.encoded]
      | none => rfl

theorem reads_malformed_iff : Reads line (.malformed fault) ↔ encodeLine line = .error fault := by
  constructor
  · exact encodeLine_of_reads
  · intro h
    have hreads : Reads line (reading (Text.trim line.toList)) := means_reading _
    rw [encodeLine_of_reads hreads, Reading.encoded_eq_error_iff] at h
    rwa [h] at hreads

theorem lineBytes_of_reads (h : Reads line r) :
    lineBytes line = (r.operation?.toList).flatMap Operation.bytes := by
  rw [lineBytes, encodeLine_of_reads h]
  cases r <;> simp [Reading.encoded, Reading.operation?, Operation.bytes, encodeLoad]

theorem fits_of_means (h : Means text r) (hop : r.operation? = some op) : op.Fits := by
  cases h with
  | load _ _ =>
    cases hop
    trivial
  | store _ _ hle =>
    cases hop
    exact Nat.lt_succ_of_le hle
  | _ => cases hop

/-- Assembling fails at the first line that does. -/
theorem assembleFrom_eq_error_iff {lines : List String} :
    assembleFrom n lines = .error e ↔
      ∃ before line after, lines = before ++ line :: after ∧
        (∀ l ∈ before, ∀ fault, encodeLine l ≠ .error fault) ∧
        encodeLine line = .error e.fault ∧ e.line = n + before.length := by
  constructor
  · intro h
    induction lines generalizing n with
    | nil => cases h
    | cons first rest ih =>
      rw [assembleFrom] at h
      cases hfirst : encodeLine first with
      | error fault =>
        rw [hfirst] at h
        cases h
        exact ⟨[], first, rest, rfl, by simp, hfirst, rfl⟩
      | ok bytes =>
        have hrest : assembleFrom (n + 1) rest = .error e := by
          cases hcode : assembleFrom (n + 1) rest with
          | error e' => simpa [hfirst, hcode] using h
          | ok code => simp [hfirst, hcode] at h
        obtain ⟨before, line, after, rfl, hbefore, hline, hnumber⟩ := ih hrest
        refine ⟨first :: before, line, after, rfl, by simpa [hfirst] using hbefore, hline, ?_⟩
        rw [hnumber, List.length_cons]
        omega
  · rintro ⟨before, line, after, rfl, hbefore, hline, hnumber⟩
    have hok : assembleFrom n before = .ok (before.flatMap lineBytes) := by
      refine assembleFrom_eq_ok_iff.mpr ⟨fun l hl => ?_, rfl⟩
      cases hcode : encodeLine l with
      | ok code => rw [lineBytes_eq hcode]
      | error fault => exact absurd hcode (hbefore l hl fault)
    rw [assembleFrom_append, hok]
    simp only [assembleFrom, hline, Except.map, ← hnumber]

theorem exists_assembleFrom_error_iff {lines : List String} :
    (∃ e, assembleFrom n lines = .error e) ↔
      ∃ line ∈ lines, ∃ fault, encodeLine line = .error fault := by
  constructor
  · rintro ⟨e, he⟩
    obtain ⟨before, line, after, rfl, -, hline, -⟩ := assembleFrom_eq_error_iff.mp he
    exact ⟨line, by simp, e.fault, hline⟩
  · rintro ⟨line, hline, fault, hfault⟩
    cases hcode : assembleFrom n lines with
    | error e => exact ⟨e, rfl⟩
    | ok code =>
      have hok := (assembleFrom_eq_ok_iff.mp hcode).1 line hline
      rw [hfault] at hok
      cases hok

theorem flatMap_lineBytes_of_reads {lines : List String} (h : List.Forall₂ Reads lines rs) :
    lines.flatMap lineBytes = (rs.filterMap Reading.operation?).flatMap Operation.bytes := by
  induction h with
  | nil => rfl
  | @cons line r _ _ hline _ ih =>
    rw [List.flatMap_cons, lineBytes_of_reads hline, ih]
    cases hop : r.operation? with
    | none =>
      rw [List.filterMap_cons_none hop]
      rfl
    | some op =>
      rw [List.filterMap_cons_some hop, List.flatMap_cons, Option.toList_some,
        List.flatMap_singleton]

/-- Every line says one thing. Assembling fails exactly if some line is malformed, and reports the
first one that is, by its number and its fault. Else the machine code is read back as the loads and
stores that the lines say, in order; a load has the low byte of its number, and a store has its
whole address, in one byte exactly if that is enough. -/
theorem assemble_reads (lines : List String) :
    (∀ line, ∃! r, Reads line r) ∧
    ((∃ e, assemble lines = .error e) ↔ ∃ line ∈ lines, ∃ fault, Reads line (.malformed fault)) ∧
    (∀ e, assemble lines = .error e ↔
      ∃ before line after, lines = before ++ line :: after ∧
        (∀ l ∈ before, ∀ fault, ¬ Reads l (.malformed fault)) ∧
        Reads line (.malformed e.fault) ∧ e.line = before.length + 1) ∧
    ∀ code, assemble lines = .ok code →
      ∃ rs, List.Forall₂ Reads lines rs ∧
        decode code = some (rs.filterMap Reading.operation?) ∧
        code = (rs.filterMap Reading.operation?).flatMap fun
          | .load value => [0xA9, value]
          | .store address =>
            if address < 0x100 then [0x85, UInt8.ofNat address]
            else [0x8D, UInt8.ofNat (address % 0x100), UInt8.ofNat (address / 0x100)] := by
  refine ⟨fun line => ⟨_, means_reading _, fun r => eq_reading_of_means⟩, ?_, fun e => ?_,
    fun code hcode => ?_⟩
  · simp only [assemble, exists_assembleFrom_error_iff, reads_malformed_iff]
  · simp only [assemble, assembleFrom_eq_error_iff, reads_malformed_iff, Nat.add_comm 1, ne_eq]
  · obtain ⟨-, rfl⟩ := assembleFrom_eq_ok_iff.mp hcode
    have hreads : List.Forall₂ Reads lines (lines.map (reading <| Text.trim ·.toList)) :=
      List.forall₂_map_right_iff.mpr (List.forall₂_same.mpr fun line _ => means_reading _)
    refine ⟨_, hreads, ?_, ?_⟩
    · rw [flatMap_lineBytes_of_reads hreads]
      refine decode_flatMap_bytes fun op hop => ?_
      obtain ⟨r, hr, hop⟩ := List.mem_filterMap.mp hop
      obtain ⟨line, -, rfl⟩ := List.mem_map.mp hr
      exact fits_of_means (means_reading _) hop
    · exact flatMap_lineBytes_of_reads hreads

-- an operand may look like an opcode
example : decode [0xA9, 0x85, 0x85, 0xA9] = some [.load 0x85, .store 0xA9] := by
  decide

end Listing

end Cartridge
