import Cartridge.Capability.Check
import Cartridge.Diagnostic
import Cartridge.Flat.Lowering
import Cartridge.Flat.Sweep
import Cartridge.Listing.Optimize
import Cartridge.Pascal.Parser.Program
import Cartridge.Register.AddressTable
import Cartridge.Register.Optimize
import Cartridge.Rom

/-!
# Compilation stages

A compiler is a record of stages. Each may fail with an error it reports, or
crash, and so may what a front end or a backend says about itself.
`Stages.atari2600` is the one set that is provided: the Pascal front end, the
optimizers of every level, and the backend for Atari 2600 cartridges. Its stages
run the partial operations they are made of, and crash where one breaks down.
-/

namespace Cartridge

/-- How a stage ends without a result. -/
inductive Failure where
  | error (e : CompileError)
  /-- Broke down, with a reason if it left one. -/
  | crash (reason : Option String)
deriving DecidableEq, Repr

/-- The error that a failure is reported as. -/
def Failure.toError : Failure → CompileError
  | error e => e
  | crash (some reason) => .unexpected reason
  | crash none => .unexpected "unknown panic"

/-- A result, or a failure. -/
abbrev Attempt (α : Type) : Type := Except Failure α

namespace Attempt

variable {α ε : Type}

/-- What comes of partial operations. -/
def ofPartial (x : Except Crash α) : Attempt α :=
  x.mapError fun c => .crash (some c.reason)

/-- What comes of partial operations that may also fail with an error. -/
def ofResult (report : ε → CompileError) (x : Except Crash (Except ε α)) : Attempt α := do
  let result ← ofPartial x
  result.mapError fun e => .error (report e)

end Attempt

/-- An extension without leading dots, in lower case. -/
def extensionKey (ext : String) : String :=
  String.ofList ((ext.toList.dropWhile (· == '.')).map Char.toLower)

/-- Whether `ext`, with or without its dot and in any case, is among `known`. -/
def acceptsExtension (known : List String) (ext : String) : Bool :=
  known.any fun k => extensionKey k == extensionKey ext

/-- Reads a source language. -/
structure Frontend where
  /-- Accepted file extensions, each with its dot. -/
  extensions : Attempt (List String)
  /-- Whether files with an extension are accepted; those of `extensions`, unless said otherwise. -/
  accepts (ext : String) : Attempt Bool := return acceptsExtension (← extensions) ext
  parse : String → Attempt Pascal.Program
  flatten : Pascal.Program → Attempt Flat.Program

/-- What a backend says about itself. -/
structure Capabilities where
  profile : Attempt Profile
  /-- The extensions that it grants to routines; those of its profile, unless said otherwise. -/
  granted : Attempt (List String) := return (← profile).extensions

/-- A backend that grants what its profile advertises. -/
def Capabilities.ofProfile (profile : Profile) : Capabilities :=
  { profile := .ok profile }

/-- The profile of a backend and what it grants. -/
def Capabilities.offer (c : Capabilities) : Attempt (Profile × List String) :=
  return (← c.profile, ← c.granted)

/-- The components that a compilation runs. -/
structure Stages where
  frontend : Frontend
  optimizeFlat : OptLevel → Flat.Program → Attempt Flat.Program
  optimizeRegister : OptLevel → Register.Program → Attempt Register.Program
  optimizeListing : OptLevel → Listing → Attempt Listing
  toRegister : Flat.Program → Attempt Register.Program
  toListing : CodeGenOptions → Register.Program → Attempt Listing
  generate : CodeGenOptions → Listing → Attempt (List UInt8)
  capabilities : Capabilities

/-- No backend serves this target. -/
def unsupportedTarget (target : Target) : CompileError :=
  .pipeline .unsupportedTarget "Unsupported target"
    s!"no backend for '{target.id}' (available: {Target.atari2600.id})"

/-- RAM ran out. -/
def loweringFailed (e : Register.ZeroPageExhausted) : CompileError :=
  .pipeline .loweringFailed "Target lowering failed" e.message

/-- A line has no encoding. -/
def encodingFailed (e : Listing.EncodeError) : CompileError :=
  .pipeline .encodingFailed "Encoding failed" e.message

namespace Pascal

/-- File extensions of Pascal sources. -/
def sourceExtensions : List String := [".pas", ".pp"]

/-- Whether `ext` is an extension of Pascal sources. -/
def accepts (ext : String) : Bool :=
  acceptsExtension sourceExtensions ext

def frontend : Frontend where
  extensions := .ok sourceExtensions
  parse source := (parse source).mapError fun e => .error e.toCompileError
  flatten p := .ok p.lower

end Pascal

namespace Atari2600

/-- A plain processor with two extensions in software. -/
def profile : Profile :=
  (({ base := .l1 } : Profile).withExtension "Ext.Math.Fast" .l3).withExtension
    "Ext.Snd.Polyphonic" .l4

/-- The image of a listing, for the one target that has images. -/
def generate (options : CodeGenOptions) (l : Listing) : Attempt (List UInt8) :=
  if options.target = .atari2600 then .ofResult encodingFailed (Rom.tryOfListing l)
  else .error (.error (unsupportedTarget options.target))

end Atari2600

def Stages.atari2600 : Stages where
  frontend := Pascal.frontend
  optimizeFlat level p := .ofPartial (p.tryOptimize level)
  optimizeRegister level p := .ofPartial (p.tryOptimize level)
  optimizeListing level l := .ok (l.optimize level)
  toRegister p := .ofResult loweringFailed (Register.tryLower p)
  toListing options p := .ok (Listing.ofProgram options.debugInfo p)
  generate := Atari2600.generate
  capabilities := .ofProfile Atari2600.profile

/-- The stages for a target. -/
def Stages.forTarget (target : Target) : Except CompileError Stages :=
  match target with
  | .atari2600 => .ok Stages.atari2600
  | other => .error (unsupportedTarget other)

end Cartridge
