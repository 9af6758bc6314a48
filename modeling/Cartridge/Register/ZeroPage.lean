import Cartridge.Text.Number

/-!
# Zero-page addresses

Names are told apart by their upper-case spelling. The write registers of the
television adapter have fixed addresses; every other name gets the next free
byte of RAM, from `$80` up to `$FF`, when it is first met. A target that is
written as an address already stands for itself.
-/

namespace Cartridge.Register

/-- The first byte of RAM. -/
def ramBase : Nat := 0x80

/-- The number of bytes of RAM. -/
def ramSize : Nat := 0x80

/-- The write registers of the television interface adapter. -/
def tiaRegisters : List (String × Nat) :=
  [("VSYNC", 0x00), ("VBLANK", 0x01), ("WSYNC", 0x02), ("RSYNC", 0x03),
   ("NUSIZ0", 0x04), ("NUSIZ1", 0x05), ("COLUP0", 0x06), ("COLUP1", 0x07),
   ("COLUPF", 0x08), ("COLUBK", 0x09), ("CTRLPF", 0x0A), ("REFP0", 0x0B),
   ("REFP1", 0x0C), ("PF0", 0x0D), ("PF1", 0x0E), ("PF2", 0x0F),
   ("AUDC0", 0x15), ("AUDC1", 0x16), ("AUDF0", 0x17), ("AUDF1", 0x18),
   ("AUDV0", 0x19), ("AUDV1", 0x1A), ("GRP0", 0x1B), ("GRP1", 0x1C)]

/-- No byte is left for `symbol`. -/
structure ZeroPageExhausted where
  symbol : String
deriving DecidableEq, Repr

def ZeroPageExhausted.message (e : ZeroPageExhausted) : String :=
  s!"zero-page RAM exhausted: no address left for '{e.symbol}'"

/-- The names that have a byte of RAM, upper-case, in the order of their bytes. -/
structure AddressMap where
  symbols : List String := []
deriving DecidableEq, Repr, Inhabited

/-- The spelling by which a name is known. -/
def symbolKey (name : String) : String :=
  name.toUpper

/-- Whether a target is written as an address. -/
def isAddress (target : String) : Bool :=
  target.toList.head? == some '$'

/-- An address as operand text. -/
def addressText (address : Nat) : String :=
  "$" ++ Text.hexByte address

namespace AddressMap

/-- The address of a name that has one. -/
def get? (m : AddressMap) (name : String) : Option Nat :=
  match tiaRegisters.lookup (symbolKey name) with
  | some address => some address
  | none => (m.symbols.idxOf? (symbolKey name)).map (ramBase + ·)

/-- The number of names that have a byte of RAM. -/
def allocated (m : AddressMap) : Nat :=
  m.symbols.length

/-- Makes sure that `target` has an address. -/
def bind (m : AddressMap) (target : String) : Except ZeroPageExhausted AddressMap :=
  if isAddress target || (m.get? target).isSome then .ok m
  else if m.allocated < ramSize then .ok ⟨m.symbols ++ [symbolKey target]⟩
  else .error ⟨target⟩

/-- The operand text of a target: itself if it is an address or has none. -/
def operand (m : AddressMap) (target : String) : String :=
  if isAddress target then target
  else
    match m.get? target with
    | some address => addressText address
    | none => target

/-- The operand text of `target`, and the map in which it has an address. -/
def resolve (m : AddressMap) (target : String) : Except ZeroPageExhausted (String × AddressMap) :=
  match m.bind target with
  | .ok m' => .ok (m'.operand target, m')
  | .error e => .error e

/-- Makes sure that each target has an address, in order. -/
def bindAll (m : AddressMap) : List String → Except ZeroPageExhausted AddressMap
  | [] => .ok m
  | target :: rest =>
    match m.bind target with
    | .ok m' => m'.bindAll rest
    | .error e => .error e

end AddressMap

end Cartridge.Register
