import Cartridge.Listing.Basic
import Cartridge.Text.Blank
import Cartridge.Text.Number

/-!
# Encoding listings

A load of the accumulator is `A9` and the low byte of its value; a store from
it is `85` and the address if that fits in a byte, else `8D` and the address,
low byte first. Blank lines, comments, labels and all other mnemonics encode
to nothing. Operands are decimal, or hexadecimal after `$`.
-/

namespace Cartridge.Listing

/-- What an operand should have been. -/
inductive OperandKind where
  | value | address
deriving DecidableEq, Repr

def OperandKind.text : OperandKind → String
  | value => "value"
  | address => "address"

/-- The operand that is no number of its kind. -/
structure OperandFault where
  kind : OperandKind
  operand : String
deriving DecidableEq, Repr

/-- An operand fault and the line it is on, counted from one. -/
structure EncodeError where
  line : Nat
  fault : OperandFault
deriving DecidableEq, Repr

def EncodeError.message (e : EncodeError) : String :=
  s!"line {e.line}: unable to parse {e.fault.kind.text} '{e.fault.operand}'"

/-- The number that an operand denotes. -/
def readOperand : List Char → Option Int64
  | '$' :: digits => Text.readInt 16 digits
  | digits => Text.readInt 10 digits

/-- The byte that is congruent to `n`. -/
def lowByte (n : Int) : UInt8 :=
  UInt8.ofNat (n % 256).toNat

/-- Loads the accumulator with the low byte of `value`. -/
def encodeLoad (value : Int) : List UInt8 :=
  [0xA9, lowByte value]

/-- Stores the accumulator at `address`, which has 16 bits. -/
def encodeStore (address : Nat) : List UInt8 :=
  if address < 0x100 then [0x85, UInt8.ofNat address]
  else [0x8D, UInt8.ofNat (address % 0x100), UInt8.ofNat (address / 0x100)]

/-- The number that an operand denotes, if it is a 16-bit address. -/
def readAddress (operand : List Char) : Option Nat :=
  match readOperand operand with
  | some v => if 0 ≤ v.toInt ∧ v.toInt < 0x10000 then some v.toInt.toNat else none
  | none => none

def loadMnemonic : List Char := "LDA #".toList
def storeMnemonic : List Char := "STA ".toList

/-- Whether a line, without the blanks around it, is blank, a comment or a label. -/
def encodesNothing (line : List Char) : Bool :=
  line.isEmpty || line.head? == some ';' || line.getLast? == some ':'

/-- The bytes of one line. -/
def encodeLine (line : String) : Except OperandFault (List UInt8) :=
  let line := Text.trim line.toList
  if encodesNothing line then .ok []
  else
    match loadMnemonic.isPrefixOf? line, storeMnemonic.isPrefixOf? line with
    | some rest, _ =>
      let operand := Text.trim rest
      match readOperand operand with
      | some v => .ok (encodeLoad v.toInt)
      | none => .error ⟨.value, String.ofList operand⟩
    | none, some rest =>
      let operand := Text.trim rest
      match readAddress operand with
      | some a => .ok (encodeStore a)
      | none => .error ⟨.address, String.ofList operand⟩
    | none, none => .ok []

/-- The bytes of lines of which the first is number `n`. -/
def assembleFrom (n : Nat) : List String → Except EncodeError (List UInt8)
  | [] => .ok []
  | line :: rest =>
    match encodeLine line with
    | .error fault => .error ⟨n, fault⟩
    | .ok bytes =>
      match assembleFrom (n + 1) rest with
      | .error e => .error e
      | .ok more => .ok (bytes ++ more)

/-- The bytes of a list of lines, or the first line that has none. -/
def assemble (lines : List String) : Except EncodeError (List UInt8) :=
  assembleFrom 1 lines

/-- The listing with the bytes of its lines. -/
def assembled (l : Listing) : Except EncodeError Listing :=
  match assemble l.lines with
  | .ok bytes => .ok { l with bytes := bytes }
  | .error e => .error e

end Cartridge.Listing
