import Cartridge.Capability.Tier

/-!
# Capability profiles

What a backend offers: a base tier, the extensions it advertises in
declaration order, and the tier to which an extension raises its subsystem.
-/

namespace Cartridge

structure Profile where
  base : Tier
  /-- Advertised extensions, in declaration order. -/
  extensions : List String := []
  /-- Raised tiers; the newest entry for an extension counts. -/
  injected : List (String × Tier) := []
deriving DecidableEq, Repr

namespace Profile

/-- Whether the extension `id` is advertised. -/
def supports (p : Profile) (id : String) : Bool :=
  p.extensions.contains id

/-- The tier to which extension `id` raises its subsystem. -/
def injectedTier? (p : Profile) (id : String) : Option Tier :=
  p.injected.lookup id

/-- Advertises `id`, unless it is advertised already, and raises its subsystem to `tier`. -/
def withExtension (p : Profile) (id : String) (tier : Tier) : Profile :=
  { p with
    extensions := if p.supports id then p.extensions else p.extensions ++ [id]
    injected := (id, tier) :: p.injected }

/-- Advertises `id` once more, without raising any tier. -/
def pushExtension (p : Profile) (id : String) : Profile :=
  { p with extensions := p.extensions ++ [id] }

/-- One advertised extension, with the tier it injects. -/
def extensionText (p : Profile) (id : String) : String :=
  match p.injectedTier? id with
  | some tier => s!" +{id}@{tier.text}"
  | none => s!" +{id}"

def text (p : Profile) : String :=
  p.base.text ++ String.join (p.extensions.map p.extensionText)

end Profile

end Cartridge
