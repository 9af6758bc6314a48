import Cartridge.Capability.Tier

/-!
# Compilation options

The choices that a compilation is asked to follow, the names they go by on the
command line and in project files, and how a name is read back: blanks around
it and the case of ASCII letters do not matter.
-/

namespace Cartridge

/-- Which choice a name was read for. -/
inductive OptionKind where
  | target | enforcement | optLevel | dispatch
deriving DecidableEq, Repr

def OptionKind.text : OptionKind → String
  | .target => "target"
  | .enforcement => "enforcement mode"
  | .optLevel => "optimization level"
  | .dispatch => "dispatch strategy"

/-- A name that no value of its kind goes by. -/
structure UnknownOption where
  kind : OptionKind
  given : String
deriving DecidableEq, Repr

def UnknownOption.message (e : UnknownOption) : String :=
  s!"unknown {e.kind.text} '{e.given}'"

/-- A name as it is compared: without blanks around it, in lower case. -/
def optionKey (s : String) : String :=
  (Text.trimmed s).toLower

/-- The value that `table` gives to a name. -/
def readOption {α : Type} (kind : OptionKind) (table : List (String × α)) (s : String) :
    Except UnknownOption α :=
  match table.lookup (optionKey s) with
  | some value => .ok value
  | none => .error ⟨kind, s⟩

/-- Console families. -/
inductive Target where
  | genesis | nes | snes | gba | n64 | atari2600
deriving DecidableEq, Repr, Inhabited

namespace Target

def all : List Target := [genesis, nes, snes, gba, n64, atari2600]

def id : Target → String
  | genesis => "genesis"
  | nes => "nes"
  | snes => "snes"
  | gba => "gba"
  | n64 => "n64"
  | atari2600 => "atari2600"

/-- Every target by its own name, and the Atari by its number too. -/
def names : List (String × Target) :=
  all.map (fun t => (t.id, t)) ++ [("2600", atari2600)]

def read : String → Except UnknownOption Target :=
  readOption .target names

end Target

/-- Whether a capability violation stops a compilation or only warns. -/
inductive Enforcement where
  | strict | advisory
deriving DecidableEq, Repr, Inhabited

namespace Enforcement

def all : List Enforcement := [strict, advisory]

def id : Enforcement → String
  | strict => "strict"
  | advisory => "advisory"

def read : String → Except UnknownOption Enforcement :=
  readOption .enforcement (all.map fun e => (e.id, e))

end Enforcement

/-- How hard the optimizer works; each level includes those below it. -/
inductive OptLevel where
  | off | basic | aggressive | full
deriving DecidableEq, Repr, Inhabited

namespace OptLevel

def all : List OptLevel := [off, basic, aggressive, full]

def rank : OptLevel → Nat
  | off => 0
  | basic => 1
  | aggressive => 2
  | full => 3

instance : LE OptLevel := ⟨fun a b => a.rank ≤ b.rank⟩
instance : LT OptLevel := ⟨fun a b => a.rank < b.rank⟩
instance (a b : OptLevel) : Decidable (a ≤ b) := inferInstanceAs (Decidable (a.rank ≤ b.rank))
instance (a b : OptLevel) : Decidable (a < b) := inferInstanceAs (Decidable (a.rank < b.rank))

def id : OptLevel → String
  | off => "none"
  | basic => "basic"
  | aggressive => "aggressive"
  | full => "full"

/-- Every level by its own name and by its rank. -/
def names : List (String × OptLevel) :=
  all.map (fun l => (l.id, l)) ++ all.map (fun l => (toString l.rank, l))

def read : String → Except UnknownOption OptLevel :=
  readOption .optLevel names

end OptLevel

/-- How generated code passes control; carried along to code generation. -/
inductive Dispatch where
  | directThreaded | tokenThreaded | subroutineThreaded | native
deriving DecidableEq, Repr, Inhabited

namespace Dispatch

def all : List Dispatch := [directThreaded, tokenThreaded, subroutineThreaded, native]

def id : Dispatch → String
  | directThreaded => "direct-threaded"
  | tokenThreaded => "token-threaded"
  | subroutineThreaded => "subroutine-threaded"
  | native => "native"

/-- Every strategy by its own name, and the threaded ones by their first word too. -/
def names : List (String × Dispatch) :=
  all.map (fun d => (d.id, d)) ++
    [("direct", directThreaded), ("token", tokenThreaded), ("subroutine", subroutineThreaded)]

def read : String → Except UnknownOption Dispatch :=
  readOption .dispatch names

end Dispatch

/-- What the code generator gets to see of the options. -/
structure CodeGenOptions where
  target : Target := .atari2600
  dispatch : Dispatch := .directThreaded
  debugInfo : Bool := false
  optimize : Bool := false
deriving DecidableEq, Repr, Inhabited

/-- All that one compilation is asked for. -/
structure CompileOptions where
  target : Target := .atari2600
  /-- The tier that the project asks the backend for. -/
  tier : Tier := .l1
  enforcement : Enforcement := .strict
  /-- The extensions that the project asks the backend for. -/
  extensions : List String := []
  /-- Whether the optimizer runs at all. -/
  optimize : Bool := false
  optLevel : OptLevel := .off
  debugInfo : Bool := false
  dispatch : Dispatch := .directThreaded
deriving DecidableEq, Repr, Inhabited

namespace CompileOptions

/-- The level at which the optimizer runs. -/
def effectiveLevel (o : CompileOptions) : OptLevel :=
  if o.optimize then o.optLevel else .off

def codeGen (o : CompileOptions) : CodeGenOptions :=
  { target := o.target, dispatch := o.dispatch, debugInfo := o.debugInfo, optimize := o.optimize }

/-- Asks for `level`; any level but `off` turns the optimizer on. -/
def withLevel (o : CompileOptions) (level : OptLevel) : CompileOptions :=
  { o with optLevel := level, optimize := decide (OptLevel.off < level) }

/-- Asks for the extensions of `ids` that are not asked for yet, in their order. -/
def addExtensions (o : CompileOptions) (ids : List String) : CompileOptions :=
  { o with
    extensions := ids.foldl (fun known id => if known.contains id then known else known ++ [id])
      o.extensions }

end CompileOptions

end Cartridge
