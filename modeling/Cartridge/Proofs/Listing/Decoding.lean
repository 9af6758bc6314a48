import Mathlib.Control.Monad.Basic
import Cartridge.Flat.Lowering
import Cartridge.Proofs.Listing.Encoding
import Cartridge.Proofs.Register.Lowering

/-!
# Reading machine code back

The opcode tells what follows it, so the bytes of operations have one reading.
Assembled code therefore shows which loads and stores of a program it holds:
all whose operand does not end in a colon, in order. A load with any other
operand that is no number is refused on its line.
-/

namespace Cartridge.Listing

open Register (Instr)

/-- Reads bytes back as operations: `A9 value`, `85 address`, `8D low high`. -/
def decode : List UInt8 → Option (List Operation)
  | [] => some []
  | 0xA9 :: value :: rest => (decode rest).map (.load value :: ·)
  | 0x85 :: address :: rest => (decode rest).map (.store address.toNat :: ·)
  | 0x8D :: low :: high :: rest =>
    (decode rest).map (.store (low.toNat + 0x100 * high.toNat) :: ·)
  | _ => none

/-- A store's address has 16 bits. -/
def Operation.Fits : Operation → Prop
  | load _ => True
  | store address => address < 0x10000

theorem decode_bytes_append {op : Operation} (h : op.Fits) (rest : List UInt8) :
    decode (op.bytes ++ rest) = (decode rest).map (op :: ·) := by
  cases op with
  | load value => simp [Operation.bytes, decode]
  | store address =>
    change address < 0x10000 at h
    simp only [Operation.bytes, encodeStore]
    split
    · next hpage =>
      have hlow : address % 0x100 = address := Nat.mod_eq_of_lt hpage
      simp [decode, hlow]
    · -- Low and high byte make up the address only because it has 16 bits.
      have hword : address % 0x100 + 0x100 * (address / 0x100 % 0x100) = address := by omega
      simp [decode, hword]

theorem decode_flatMap_bytes {ops : List Operation} (h : ∀ op ∈ ops, op.Fits) :
    decode (ops.flatMap Operation.bytes) = some ops := by
  induction ops with
  | nil => rfl
  | cons op ops ih =>
    rw [List.flatMap_cons, decode_bytes_append (h op List.mem_cons_self),
      ih fun op' hop' => h op' (List.mem_cons_of_mem op hop')]
    rfl

theorem fits_of_readAddress (h : readAddress operand = some address) : address < 0x10000 := by
  unfold readAddress at h
  split at h
  · split at h
    · cases h
      omega
    · cases h
  · cases h

theorem fits_of_operation? {i : Instr} (h : operation? i = some op) : op.Fits := by
  cases i with
  | load reg value =>
    obtain ⟨v, -, rfl⟩ := Option.map_eq_some_iff.mp h
    trivial
  | store reg address =>
    obtain ⟨a, ha, rfl⟩ := Option.map_eq_some_iff.mp h
    exact fits_of_readAddress ha
  | call callee => cases h
  | label name => cases h
  | jump target cond => cases h

/-- The code of an assembled stream is read back as the operations that its lines encode. -/
theorem decode_streamLines {stream : List Instr} (hstores : StoresAtAddresses stream)
    (h : assembleFrom n (streamLines debugInfo stream) = .ok code) :
    ∃ ops, decode code = some ops ∧ (stream.filter encodes).map operation? = ops.map some := by
  obtain ⟨hall, rfl⟩ := (assembleFrom_streamLines hstores).mp h
  refine ⟨(stream.filter encodes).filterMap operation?, decode_flatMap_bytes ?_, ?_⟩
  · intro op hop
    obtain ⟨i, -, hi⟩ := List.mem_filterMap.mp hop
    exact fits_of_operation? hi
  · rw [List.map_filterMap_some_eq_filter_map_isSome]
    refine (List.filter_eq_self.mpr fun o ho => ?_).symm
    obtain ⟨i, hi, rfl⟩ := List.mem_map.mp ho
    obtain ⟨hmem, hencodes⟩ := List.mem_filter.mp hi
    exact hall i hmem hencodes

/-- Assembling stops at a load that is read and whose operand is no number, if it gets there. -/
theorem assemble_streamLines_load (hread : readOperand (Text.trim value.toList) = none)
    (hcolon : endsInColon value = false) :
    assemble (streamLines debugInfo (before ++ .load reg value :: after)) =
      match assemble (streamLines debugInfo before) with
      | .ok _ =>
        .error ⟨(streamLines debugInfo before).length + 1, ⟨.value, Text.trimmed value⟩⟩
      | .error e => .error e := by
  have hlines : streamLines debugInfo (before ++ .load reg value :: after) =
      streamLines debugInfo before ++ ("LDA #" ++ value) :: streamLines debugInfo after := by
    simp only [streamLines, List.filterMap_append, List.filterMap_cons_some instrLine?_load]
  have hline : encodeLine ("LDA #" ++ value) = .error ⟨.value, Text.trimmed value⟩ := by
    simp [encodeLine_load, hcolon, hread]
  rw [assemble, hlines, assembleFrom_append, assemble]
  cases assembleFrom 1 (streamLines debugInfo before) with
  | error e => rfl
  | ok code => simp [assembleFrom, hline, Except.map, Nat.add_comm 1]

/-- The machine code of a program, if there is any, is read back as its loads and stores, each
once, in order, and with the numbers of their operands; left out are only those whose operand
ends in a colon. A load whose operand is no number and does not end in one is refused with its
line, unless a line in front of it is. -/
theorem decode_assemble (p : Pascal.Program) (debugInfo : Bool) (q : Register.Program)
    (h : Register.lower p.lower = .ok q) :
    (∀ code, assemble (ofProgram debugInfo q).lines = .ok code →
      ∃ ops, decode code = some ops ∧ (q.stream.filter encodes).map operation? = ops.map some) ∧
    ∀ before reg value after, q.stream = before ++ .load reg value :: after →
      readOperand (Text.trim value.toList) = none → endsInColon value = false →
      assemble (ofProgram debugInfo q).lines =
        match assemble (streamLines debugInfo before) with
        | .ok _ =>
          .error ⟨(streamLines debugInfo before).length + 1, ⟨.value, Text.trimmed value⟩⟩
        | .error e => .error e := by
  have hlines : (ofProgram debugInfo q).lines = streamLines debugInfo q.stream := rfl
  constructor
  · intro code hcode
    refine decode_streamLines ?_ (hlines ▸ hcode)
    rintro _ hmem reg a rfl
    exact Register.isAddress_of_lower h hmem
  · intro before reg value after hstream hread hcolon
    rw [hlines, hstream]
    exact assemble_streamLines_load hread hcolon

theorem decode_assemble_far_store :
    let p : Pascal.Program := { modules := [⟨"demo", [{ name := "main", body :=
      [.assign "x" (.int 300), .assign "$0900" (.lit (.str " $2A "))] }]⟩] }
    ∃ q, Register.lower p.lower = .ok q ∧
      q.stream = [.label "main", .load .a "300", .store .a "$80",
        .load .a " $2A ", .store .a "$0900"] ∧
      assemble (ofProgram true q).lines =
        .ok [0xA9, 0x2C, 0x85, 0x80, 0xA9, 0x2A, 0x8D, 0x00, 0x09] ∧
      ∃ ops, decode [0xA9, 0x2C, 0x85, 0x80, 0xA9, 0x2A, 0x8D, 0x00, 0x09] = some ops ∧
        (q.stream.filter encodes).map operation? = ops.map some := by
  intro p
  let q : Register.Program := .ofModules "" [⟨"demo", [⟨"main",
    [.load .a "300", .store .a "$80", .load .a " $2A ", .store .a "$0900"]⟩]⟩]
  have hlower : Register.lower p.lower = .ok q := by with_unfolding_all rfl
  have hcode : assemble (ofProgram true q).lines =
      .ok [0xA9, 0x2C, 0x85, 0x80, 0xA9, 0x2A, 0x8D, 0x00, 0x09] := by
    decide +kernel
  exact ⟨q, hlower, rfl, hcode, (decode_assemble p true q hlower).1 _ hcode⟩

/-- A load whose operand ends in a colon is lost: its line passes for a label. -/
theorem assemble_loses_load :
    let p : Pascal.Program := { modules := [⟨"demo", [{ name := "main", body :=
      [.assign "x" (.lit (.str "score:"))] }]⟩] }
    ∃ q, Register.lower p.lower = .ok q ∧
      q.stream = [.label "main", .load .a "score:", .store .a "$80"] ∧
      readOperand (Text.trim "score:".toList) = none ∧
      assemble (ofProgram false q).lines = .ok [0x85, 0x80] ∧
      decode [0x85, 0x80] = some [.store 0x80] := by
  intro p
  let q : Register.Program :=
    .ofModules "" [⟨"demo", [⟨"main", [.load .a "score:", .store .a "$80"]⟩]⟩]
  have hlower : Register.lower p.lower = .ok q := by with_unfolding_all rfl
  have hcode : assemble (ofProgram false q).lines = .ok [0x85, 0x80] := by
    decide +kernel
  exact ⟨q, hlower, rfl, by decide, hcode, by decide⟩

end Cartridge.Listing
