import Cartridge.Capability.Profile
import Cartridge.Options
import Cartridge.Pascal.Program

/-!
# Capability checks

A requirement is met by a base tier that is high enough, or by an extension
that the requirement names and the backend grants; an empty name is no
extension. The tiers that extensions inject play no part.
-/

namespace Cartridge

/-- Whether a backend with this base tier and these extensions meets a requirement. -/
def isAllowed (base : Tier) (granted : List String) (required : Tier) (ext? : Option String) :
    Bool :=
  decide (required ≤ base) ||
    match ext? with
    | some ext => ext != "" && granted.contains ext
    | none => false

/-- Something that a backend does not offer. -/
inductive Violation where
  /-- A routine needs a tier above the base. -/
  | routine (name : String) (required : Tier)
  /-- The request asks for a tier above the base. -/
  | tier (requested base : Tier)
  /-- The request asks for an extension that is not advertised. -/
  | extension (id : String)
deriving DecidableEq, Repr

def Violation.message : Violation → String
  | routine name required => s!"Function '{name}' requires {required.text}"
  | tier requested base =>
    s!"Requested profile {requested.text} exceeds backend base capability {base.text}"
  | extension id => s!"Backend does not support extension '{id}'"

/-- The routines of a program that are not allowed, in declaration order. -/
def programViolations (p : Pascal.Program) (base : Tier) (granted : List String) :
    List Violation :=
  (p.routines.filter fun r => !isAllowed base granted r.tier r.extension?).map fun r =>
    .routine r.name r.tier

/-- What the request asks for in vain: first the tier, then extensions in their order. -/
def requestViolations (options : CompileOptions) (profile : Profile) : List Violation :=
  (if profile.base < options.tier then [.tier options.tier profile.base] else []) ++
    (options.extensions.filter fun id => !profile.supports id).map .extension

end Cartridge
