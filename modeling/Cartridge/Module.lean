/-!
# Modules

Programs of every level are lists of modules, and a module is a named list of
routines in declaration order.
-/

namespace Cartridge

structure Module (ρ : Type) where
  name : String
  routines : List ρ
deriving DecidableEq, Repr, Inhabited

namespace Module

/-- The same module with every routine replaced, in order. -/
def map {ρ σ : Type} (f : ρ → σ) (m : Module ρ) : Module σ :=
  ⟨m.name, m.routines.map f⟩

/-- The same module with every routine replaced, in order, by a computation that may fail. -/
def mapM {ρ σ : Type} {μ : Type → Type} [Monad μ] (f : ρ → μ σ) (m : Module ρ) : μ (Module σ) :=
  Module.mk m.name <$> m.routines.mapM f

/-- Where no routine fails, no module does. -/
theorem mapM_eq_ok {ε ρ σ : Type} {f : ρ → Except ε σ} {g : ρ → σ} (h : ∀ r, f r = .ok (g r))
    (ms : List (Module ρ)) : ms.mapM (mapM f) = .ok (ms.map (map g)) := by
  have hmodule : mapM f = fun m => pure (m.map g) := by
    funext m
    have hroutines : m.routines.mapM (fun r => (pure (g r) : Except ε σ)) =
        pure (m.routines.map g) := List.mapM_pure
    rw [mapM, funext h]
    exact congrArg (Module.mk m.name <$> ·) hroutines
  rw [hmodule, List.mapM_pure]
  rfl

/-- All routines of several modules, in declaration order. -/
def allRoutines {ρ : Type} (ms : List (Module ρ)) : List ρ :=
  ms.flatMap (·.routines)

theorem allRoutines_map {ρ σ : Type} (f : ρ → σ) (ms : List (Module ρ)) :
    allRoutines (ms.map (Module.map f)) = (allRoutines ms).map f := by
  simp [allRoutines, Module.map, List.flatMap_map, List.map_flatMap]

end Module

end Cartridge
