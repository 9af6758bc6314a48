import Cartridge.Partial
import Cartridge.Register.Lowering

/-!
# Address tables

Addresses as they are given out while a program is lowered: a table from keys to
addresses, which has the registers of the adapter from the start, and a counter
of 16 bits for the next byte of RAM. A target that finds no byte left fails, and
the table stays as it is.
-/

namespace Cartridge.Register

structure AddressTable where
  symbols : List (String × UInt8) := tiaRegisters.map fun (name, address) => (name, .ofNat address)
  next : UInt16 := .ofNat ramBase
deriving DecidableEq, Repr

/-- A computation that gives out addresses. -/
abbrev Allocating (α : Type) : Type :=
  ExceptT ZeroPageExhausted (StateT AddressTable (Except Crash)) α

namespace AddressTable

/-- The address of a name that has one. -/
def get? (t : AddressTable) (name : String) : Option UInt8 :=
  t.symbols.lookup (symbolKey name)

/-- The number of names that have a byte of RAM. -/
def allocated (t : AddressTable) : Except Crash Nat :=
  Partial.difference t.next.toNat ramBase

/-- Gives the next byte of RAM to `target`. -/
def allocate (target : String) : Allocating String := do
  let t ← get
  if t.next.toNat < UInt8.size then
    let next ← Partial.next t.next
    set { t with symbols := (symbolKey target, t.next.toUInt8) :: t.symbols, next }
    return addressText t.next.toNat
  else throw ⟨target⟩

/-- The operand text of `target`. -/
def resolve (target : String) : Allocating String := do
  if isAddress target then return target
  match (← get).get? target with
  | some address => return addressText address.toNat
  | none => allocate target

end AddressTable

/-- The counterpart of an instruction. -/
def tryLowerInstr : Flat.Instr → Allocating (List Instr)
  | .assign target source => do
    let address ← AddressTable.resolve target
    return [.load .a source, .store .a address]
  | .label name => return [.label name]
  | .call callee _ => return [.call callee]
  | .branch target cond => return [.jump target cond]

def tryLowerRoutine (r : Flat.Routine) : Allocating Routine := do
  let instrs ← r.instrs.mapM tryLowerInstr
  return ⟨r.name, instrs.flatten⟩

/-- The register program of a flat one, made in one pass over it. At its end the allocated bytes
are counted, for the log. -/
def tryLowerProgram (p : Flat.Program) : Allocating Program := do
  let modules ← p.modules.mapM (Module.mapM tryLowerRoutine)
  let _ ← (← get).allocated
  return .ofModules p.sourceFile modules

/-- The register program of a flat one, from a table without variables. -/
def tryLower (p : Flat.Program) : Except Crash (Except ZeroPageExhausted Program) :=
  (tryLowerProgram p).run.run' {}

end Cartridge.Register
