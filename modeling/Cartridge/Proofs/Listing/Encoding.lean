import Cartridge.Listing.Encode
import Cartridge.Proofs.Text.Blank
import Cartridge.Register.ZeroPage

/-!
# What the lines of instructions encode

A line is told by its text alone. The line of a load or store encodes its
operation if its operand is a number, and is refused if it is none; but with an
operand that ends in a colon it is taken for a label and encodes nothing. The
lines of calls, labels and jumps encode nothing, whatever names they hold.

Lines are assembled one by one, so the bytes of a stream are those of its
operations, and the first line that is refused is the one that is reported.
-/

namespace Cartridge.Listing

open Register (Instr isAddress)

-- ---------------------------------------------------------------------------
-- Operations
-- ---------------------------------------------------------------------------

/-- What the processor is told to do: load a byte, or store at an address. -/
inductive Operation where
  | load (value : UInt8)
  | store (address : Nat)
deriving DecidableEq, Repr

def Operation.bytes : Operation → List UInt8
  | load value => [0xA9, value]
  | store address => encodeStore address

def operandText? : Instr → Option String
  | .load _ value => some value
  | .store _ address => some address
  | _ => none

/-- The operation that a load or store asks for, if its operand is a number of its kind. -/
def operation? : Instr → Option Operation
  | .load _ value => (readOperand (Text.trim value.toList)).map fun v => .load (lowByte v.toInt)
  | .store _ address => (readAddress (Text.trim address.toList)).map .store
  | _ => none

/-- Whether operand text ends in a colon, but for blanks. -/
def endsInColon (operand : String) : Bool :=
  (Text.trim operand.toList).getLast? == some ':'

/-- Whether the line of an instruction is read as an operation. -/
def encodes (i : Instr) : Bool :=
  (operandText? i).any (!endsInColon ·)

-- ---------------------------------------------------------------------------
-- One line
-- ---------------------------------------------------------------------------

/-- Blanks behind a mnemonic and its operand are gone before the line is read. -/
theorem trim_load (value : List Char) :
    Text.trim (loadMnemonic ++ value) = loadMnemonic ++ Text.trimRight value := by
  change Text.trim ('L' :: 'D' :: 'A' :: ' ' :: '#' :: value) = _
  rw [Text.trim_cons_of_not_blank rfl, Text.trimRight_cons_of_not_blank rfl,
    Text.trimRight_cons_of_not_blank rfl, Text.trimRight_cons,
    Text.trimRight_cons_of_not_blank rfl, if_neg (by simp)]
  rfl

theorem trim_store (digits : List Char) :
    Text.trim (storeMnemonic ++ '$' :: digits) = storeMnemonic ++ '$' :: Text.trimRight digits := by
  change Text.trim ('S' :: 'T' :: 'A' :: ' ' :: '$' :: digits) = _
  rw [Text.trim_cons_of_not_blank rfl, Text.trimRight_cons_of_not_blank rfl,
    Text.trimRight_cons_of_not_blank rfl, Text.trimRight_cons,
    Text.trimRight_cons_of_not_blank rfl, if_neg (by simp)]
  rfl

theorem encodeLine_load (value : String) :
    encodeLine ("LDA #" ++ value) =
      if endsInColon value then .ok []
      else
        match readOperand (Text.trim value.toList) with
        | some v => .ok (encodeLoad v.toInt)
        | none => .error ⟨.value, Text.trimmed value⟩ := by
  have hline : ("LDA #" ++ value).toList = loadMnemonic ++ value.toList := String.toList_append
  have hnothing : encodesNothing (loadMnemonic ++ Text.trimRight value.toList) =
      endsInColon value := by
    simp only [encodesNothing, endsInColon, ← Text.getLast?_trimRight, List.getLast?_append]
    cases (Text.trimRight value.toList).getLast? <;> rfl
  have hload : loadMnemonic.isPrefixOf? (loadMnemonic ++ Text.trimRight value.toList) =
      some (Text.trimRight value.toList) := rfl
  simp only [encodeLine, hline, trim_load, hnothing, hload, Text.trim_trimRight]
  rfl

theorem encodeLine_store (h : isAddress address) :
    encodeLine ("STA " ++ address) =
      if endsInColon address then .ok []
      else
        match readAddress (Text.trim address.toList) with
        | some a => .ok (encodeStore a)
        | none => .error ⟨.address, Text.trimmed address⟩ := by
  obtain ⟨digits, haddress⟩ : ∃ digits, address.toList = '$' :: digits := by
    simpa [isAddress, List.head?_eq_some_iff] using h
  have hline : ("STA " ++ address).toList = storeMnemonic ++ '$' :: digits := by
    rw [String.toList_append, haddress]
    rfl
  -- The dollar sign is no blank, so the operand loses blanks on its right only.
  have htrim : Text.trim address.toList = '$' :: Text.trimRight digits := by
    rw [haddress, Text.trim_cons_of_not_blank rfl]
  have hoperand : Text.trim ('$' :: Text.trimRight digits) = Text.trim address.toList := by
    rw [htrim, Text.trim_cons_of_not_blank rfl, Text.trimRight_trimRight]
  have hnothing : encodesNothing (storeMnemonic ++ '$' :: Text.trimRight digits) =
      endsInColon address := by
    simp only [encodesNothing, endsInColon, htrim, List.getLast?_append]
    rfl
  have hload : loadMnemonic.isPrefixOf? (storeMnemonic ++ '$' :: Text.trimRight digits) = none :=
    rfl
  have hstore : storeMnemonic.isPrefixOf? (storeMnemonic ++ '$' :: Text.trimRight digits) =
      some ('$' :: Text.trimRight digits) := rfl
  simp only [encodeLine, hline, trim_store, hnothing, hload, hstore, hoperand]
  rfl

/-- A call is neither a load nor a store, whatever it calls. -/
theorem encodeLine_call (callee : String) : encodeLine ("JSR " ++ callee) = .ok [] := by
  have hline : Text.trim ("JSR " ++ callee).toList =
      'J' :: Text.trimRight ('S' :: 'R' :: ' ' :: callee.toList) := by
    rw [String.toList_append]
    exact Text.trim_cons_of_not_blank rfl
  simp only [encodeLine, hline]
  split
  · rfl
  · rfl

theorem encodeLine_label (name : String) : encodeLine (name ++ ":") = .ok [] := by
  have hlast : (Text.trim (name ++ ":").toList).getLast? = some ':' := by
    rw [String.toList_append]
    exact Text.getLast?_trim_append_singleton rfl
  have hnothing : encodesNothing (Text.trim (name ++ ":").toList) = true := by
    rw [encodesNothing, hlast, beq_self_eq_true, Bool.or_true]
  simp only [encodeLine, hnothing, if_true]

theorem encodeLine_comment (text : String) : encodeLine (";" ++ text) = .ok [] := by
  have hline : Text.trim (";" ++ text).toList = ';' :: Text.trimRight text.toList := by
    rw [String.toList_append]
    exact Text.trim_cons_of_not_blank rfl
  have hnothing : encodesNothing (Text.trim (";" ++ text).toList) = true := by
    rw [hline]
    rfl
  simp only [encodeLine, hnothing, if_true]

theorem instrLine?_load : instrLine? debugInfo (.load reg value) = some ("LDA #" ++ value) := rfl

theorem instrLine?_store : instrLine? debugInfo (.store reg address) = some ("STA " ++ address) :=
  rfl

theorem instrLine?_call : instrLine? debugInfo (.call callee) = some ("JSR " ++ callee) := rfl

theorem instrLine?_label : instrLine? debugInfo (.label name) = some (name ++ ":") := rfl

/-- A jump shows as a comment or not at all. -/
theorem instrLine?_jump (h : instrLine? debugInfo (.jump target c) = some line) :
    ∃ text, line = ";" ++ text := by
  cases debugInfo with
  | false => cases c <;> cases h
  | true =>
    cases c with
    | none =>
      obtain rfl := Option.some.inj h
      exact ⟨" JMP " ++ target, rfl⟩
    | some c =>
      obtain rfl := Option.some.inj h
      exact ⟨" JMP " ++ target ++ " IF " ++ c, rfl⟩

/-- The line of an instruction comes to the operation that it asks for. -/
theorem encodeLine_instrLine {i : Instr} (haddress : ∀ reg a, i = .store reg a → isAddress a)
    (h : instrLine? debugInfo i = some line) :
    ∃ fault, encodeLine line =
      if encodes i then
        match operation? i with
        | some op => .ok op.bytes
        | none => .error fault
      else .ok [] := by
  cases i with
  | load reg value =>
    obtain rfl := Option.some.inj (instrLine?_load.symm.trans h)
    refine ⟨⟨.value, Text.trimmed value⟩, ?_⟩
    rw [encodeLine_load]
    by_cases hcolon : endsInColon value = true
    · simp [encodes, operandText?, hcolon]
    · cases hread : readOperand (Text.trim value.toList) <;>
        simp [encodes, operandText?, operation?, hcolon, hread, Operation.bytes, encodeLoad]
  | store reg address =>
    obtain rfl := Option.some.inj (instrLine?_store.symm.trans h)
    refine ⟨⟨.address, Text.trimmed address⟩, ?_⟩
    rw [encodeLine_store (haddress reg address rfl)]
    by_cases hcolon : endsInColon address = true
    · simp [encodes, operandText?, hcolon]
    · cases hread : readAddress (Text.trim address.toList) <;>
        simp [encodes, operandText?, operation?, hcolon, hread, Operation.bytes]
  | call callee =>
    obtain rfl := Option.some.inj (instrLine?_call.symm.trans h)
    exact ⟨⟨.value, callee⟩, encodeLine_call callee⟩
  | label name =>
    obtain rfl := Option.some.inj (instrLine?_label.symm.trans h)
    exact ⟨⟨.value, name⟩, encodeLine_label name⟩
  | jump target cond =>
    obtain ⟨text, rfl⟩ := instrLine?_jump h
    exact ⟨⟨.value, text⟩, encodeLine_comment text⟩

theorem encodes_of_instrLine?_eq_none {i : Instr} (h : instrLine? debugInfo i = none) :
    encodes i = false := by
  cases i with
  | load reg value => cases h
  | store reg address => cases h
  | call callee => rfl
  | label name => rfl
  | jump target c => rfl

-- ---------------------------------------------------------------------------
-- All lines
-- ---------------------------------------------------------------------------

/-- The bytes of a line; none if it is refused. -/
def lineBytes (line : String) : List UInt8 :=
  match encodeLine line with
  | .ok bytes => bytes
  | .error _ => []

theorem lineBytes_eq (h : encodeLine line = .ok code) : lineBytes line = code := by
  simp [lineBytes, h]

theorem assembleFrom_eq_ok_iff {lines : List String} :
    assembleFrom n lines = .ok code ↔
      (∀ line ∈ lines, encodeLine line = .ok (lineBytes line)) ∧
        code = lines.flatMap lineBytes := by
  induction lines generalizing n code with
  | nil => simp [assembleFrom, eq_comm]
  | cons line rest ih =>
    cases hline : encodeLine line with
    | error fault => simp [assembleFrom, hline]
    | ok first =>
      have hfirst := lineBytes_eq hline
      cases hrest : assembleFrom (n + 1) rest with
      | error e =>
        have hfail : ¬ ∀ line ∈ rest, encodeLine line = .ok (lineBytes line) := by
          intro hall
          have hok := (ih (n := n + 1)).mpr ⟨hall, rfl⟩
          rw [hrest] at hok
          cases hok
        simp [assembleFrom, hline, hrest, hfail]
      | ok more =>
        obtain ⟨hall, rfl⟩ := ih.mp hrest
        simp only [assembleFrom, hline, hrest, Except.ok.injEq, List.forall_mem_cons, hfirst,
          List.flatMap_cons, true_and, eq_comm]
        exact ⟨fun h => ⟨hall, h⟩, And.right⟩

theorem assembleFrom_append (before after : List String) :
    assembleFrom n (before ++ after) =
      match assembleFrom n before with
      | .error e => .error e
      | .ok code => (assembleFrom (n + before.length) after).map (code ++ ·) := by
  induction before generalizing n with
  | nil => cases h : assembleFrom n after <;> simp [assembleFrom, h, Except.map]
  | cons line rest ih =>
    have hnumber : n + (line :: rest).length = n + 1 + rest.length := by
      simp only [List.length_cons]
      omega
    rw [List.cons_append, assembleFrom, assembleFrom, ih, hnumber]
    cases encodeLine line with
    | error fault => rfl
    | ok first =>
      cases assembleFrom (n + 1) rest with
      | error e => rfl
      | ok code => cases assembleFrom (n + 1 + rest.length) after <;> simp [Except.map]

-- ---------------------------------------------------------------------------
-- A stream of instructions
-- ---------------------------------------------------------------------------

def streamLines (debugInfo : Bool) (stream : List Instr) : List String :=
  stream.filterMap (instrLine? debugInfo)

/-- Every store is at an address, not at a name. -/
def StoresAtAddresses (stream : List Instr) : Prop :=
  ∀ i ∈ stream, ∀ reg a, i = .store reg a → isAddress a

theorem flatMap_lineBytes {stream : List Instr} (h : StoresAtAddresses stream) :
    (streamLines debugInfo stream).flatMap lineBytes =
      ((stream.filter encodes).filterMap operation?).flatMap Operation.bytes := by
  induction stream with
  | nil => rfl
  | cons i rest ih =>
    have hrest := ih fun j hj => h j (List.mem_cons_of_mem i hj)
    rw [streamLines] at hrest ⊢
    cases hline : instrLine? debugInfo i with
    | none =>
      rw [List.filterMap_cons_none hline, hrest,
        List.filter_cons_of_neg (by simp [encodes_of_instrLine?_eq_none hline])]
    | some line =>
      obtain ⟨fault, hcode⟩ := encodeLine_instrLine (h i List.mem_cons_self) hline
      rw [List.filterMap_cons_some hline, List.flatMap_cons, hrest]
      cases hencodes : encodes i with
      | false =>
        rw [List.filter_cons_of_neg (by simp [hencodes])]
        simp [lineBytes, hcode, hencodes]
      | true =>
        rw [List.filter_cons_of_pos hencodes]
        cases hop : operation? i <;> simp [lineBytes, hcode, hencodes, hop]

/-- A stream is assembled exactly if every operand that is read is a number of its kind, and then
to the bytes of its operations in order. -/
theorem assembleFrom_streamLines {stream : List Instr} (h : StoresAtAddresses stream) :
    assembleFrom n (streamLines debugInfo stream) = .ok code ↔
      (∀ i ∈ stream, encodes i → (operation? i).isSome) ∧
        code = ((stream.filter encodes).filterMap operation?).flatMap Operation.bytes := by
  rw [assembleFrom_eq_ok_iff, flatMap_lineBytes h]
  refine and_congr_left fun _ => ?_
  simp only [streamLines, List.mem_filterMap, forall_exists_index, and_imp]
  constructor
  · -- The line of an instruction that encodes is among the lines, and none was refused.
    intro hall i hi hencodes
    cases hline : instrLine? debugInfo i with
    | none => simp [encodes_of_instrLine?_eq_none hline] at hencodes
    | some line =>
      have hok := hall line i hi hline
      obtain ⟨fault, hcode⟩ := encodeLine_instrLine (h i hi) hline
      rw [hcode, if_pos hencodes] at hok
      cases hop : operation? i with
      | some op => rfl
      | none =>
        rw [hop] at hok
        cases hok
  · intro hall line i hi hline
    obtain ⟨fault, hcode⟩ := encodeLine_instrLine (h i hi) hline
    cases hencodes : encodes i with
    | false => simp [lineBytes, hcode, hencodes]
    | true =>
      obtain ⟨op, hop⟩ := Option.isSome_iff_exists.mp (hall i hi hencodes)
      simp [lineBytes, hcode, hencodes, hop]

end Cartridge.Listing
