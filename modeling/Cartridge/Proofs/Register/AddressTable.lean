import Cartridge.Proofs.Register.Counterparts
import Cartridge.Register.AddressTable

/-!
# Lowering with an address table

A table stands for the address map that gives every name the same address. Each
target that is resolved is answered as a request to the map, and afterwards the
table stands for the map after the request; the counter stops at `$100`. So
lowering in one pass with a table does not crash, and comes to the program that
is lowered under the map of all targets.
-/

namespace Cartridge.Register

variable {t t' : AddressTable} {m m' : AddressMap} {e : ZeroPageExhausted}

-- ---------------------------------------------------------------------------
-- Tables and maps
-- ---------------------------------------------------------------------------

/-- The table gives each name its address in the map, and counts on behind the variables. -/
structure AddressTable.Represents (t : AddressTable) (m : AddressMap) : Prop where
  addresses : ∀ name, (t.get? name).map UInt8.toNat = m.get? name
  counter : t.next.toNat = ramBase + m.allocated
  room : m.allocated ≤ ramSize

theorem lookup_map_toNat {table : List (String × Nat)} (h : ∀ r ∈ table, r.2 < UInt8.size) :
    ((table.map fun (name, address) => (name, UInt8.ofNat address)).lookup key).map UInt8.toNat =
      table.lookup key := by
  induction table with
  | nil => rfl
  | cons r rest ih =>
    obtain ⟨hr, hrest⟩ := List.forall_mem_cons.mp h
    rw [List.map_cons, List.lookup_cons, List.lookup_cons]
    cases key == r.1 with
    | true => exact congrArg some (UInt8.toNat_ofNat_of_lt hr)
    | false => exact ih hrest

theorem AddressTable.represents_empty : ({} : AddressTable).Represents {} where
  addresses name := by
    have hsmall : ∀ r ∈ tiaRegisters, r.2 < UInt8.size := fun r hr =>
      (address_of_mem_tiaRegisters r hr).trans (by decide)
    rw [AddressTable.get?, lookup_map_toNat hsmall, AddressMap.get?]
    cases tiaRegisters.lookup (symbolKey name) <;> rfl
  counter := rfl
  room := Nat.zero_le _

/-- A new name gets the next byte, and no other key changes its address. -/
theorem AddressMap.get?_push (hnew : m.get? name = none) (other : String) :
    (⟨m.symbols ++ [symbolKey name]⟩ : AddressMap).get? other =
      if symbolKey other = symbolKey name then some (ramBase + m.allocated) else m.get? other := by
  split
  · next hkey =>
    have hsame : (⟨m.symbols ++ [symbolKey name]⟩ : AddressMap).get? other =
        (⟨m.symbols ++ [symbolKey name]⟩ : AddressMap).get? name := by
      rw [get?, get?, hkey]
    rw [hsame, get?_new hnew]
  · next hkey =>
    unfold get?
    split
    · rfl
    · simp [List.idxOf?, List.findIdx?_append, Ne.symm hkey]

-- ---------------------------------------------------------------------------
-- One request
-- ---------------------------------------------------------------------------

namespace AddressTable

theorem run_allocate (hbyte : t.next.toNat < UInt8.size) (hnext : Partial.next t.next = .ok n) :
    (allocate target).run.run t =
      .ok (.ok (addressText t.next.toNat),
        ⟨(symbolKey target, t.next.toUInt8) :: t.symbols, n⟩) := by
  unfold allocate
  change ((if t.next.toNat < UInt8.size then _ else _ : Allocating String)).run.run t = _
  rw [if_pos hbyte, hnext]
  rfl

theorem run_allocate_full (hfull : ¬ t.next.toNat < UInt8.size) :
    (allocate target).run.run t = .ok (.error ⟨target⟩, t) := by
  unfold allocate
  change ((if t.next.toNat < UInt8.size then _ else _ : Allocating String)).run.run t = _
  rw [if_neg hfull]
  rfl

theorem run_resolve (hname : isAddress target = false) :
    (resolve target).run.run t =
      (match t.get? target with
        | some address => pure (addressText address.toNat)
        | none => allocate target : Allocating String).run.run t := by
  rw [resolve, hname]
  rfl

namespace Represents

theorem allocated (h : t.Represents m) : t.allocated = .ok m.allocated := by
  rw [AddressTable.allocated, Partial.difference, h.counter, if_pos (Nat.le_add_right _ _),
    Nat.add_sub_cancel_left]

theorem push (h : t.Represents m) (hnew : m.get? target = none) (hfree : m.allocated < ramSize)
    (hnext : n.toNat = t.next.toNat + 1) :
    Represents ⟨(symbolKey target, t.next.toUInt8) :: t.symbols, n⟩
      ⟨m.symbols ++ [symbolKey target]⟩ where
  addresses name := by
    rw [AddressMap.get?_push hnew, AddressTable.get?, List.lookup_cons]
    by_cases hkey : symbolKey name = symbolKey target
    · have hbyte : t.next.toNat < 2 ^ 8 := h.counter ▸ Nat.add_lt_add_left hfree ramBase
      rw [hkey, beq_self_eq_true, if_pos rfl, ← h.counter, Option.map_some, UInt16.toNat_toUInt8,
        Nat.mod_eq_of_lt hbyte]
    · rw [beq_eq_false_iff_ne.mpr hkey, if_neg hkey]
      exact h.addresses name
  counter := by
    rw [hnext, h.counter, AddressMap.allocated, AddressMap.allocated, List.length_append]
    rfl
  room := by
    rw [AddressMap.allocated, List.length_append]
    exact hfree

/-- A name without address gets the next byte, if there is one: the counter does not run over. -/
theorem allocate (h : t.Represents m) (hname : isAddress target = false)
    (hnew : m.get? target = none) :
    ∃ t', (AddressTable.allocate target).run.run t = .ok ((m.request target).1, t') ∧
      t'.Represents (m.request target).2 := by
  have hcounter := h.counter
  by_cases hfree : m.allocated < ramSize
  · have hbyte : t.next.toNat < UInt8.size := hcounter ▸ Nat.add_lt_add_left hfree ramBase
    have hfits : t.next.toNat + 1 < UInt16.size :=
      (Nat.succ_le_of_lt hbyte).trans_lt (by decide)
    have hnext : (t.next + 1).toNat = t.next.toNat + 1 := by
      rw [UInt16.toNat_add]
      exact Nat.mod_eq_of_lt hfits
    rw [AddressMap.request_new hname hnew hfree, ← hcounter]
    exact ⟨_, run_allocate hbyte (if_pos hfits), h.push hnew hfree hnext⟩
  · have hfull : ¬ t.next.toNat < UInt8.size := by
      rw [hcounter]
      exact Nat.not_lt.mpr (Nat.add_le_add_left (Nat.not_lt.mp hfree) ramBase)
    rw [AddressMap.request_full hname hnew (Nat.not_lt.mp hfree)]
    exact ⟨t, run_allocate_full hfull, h⟩

/-- A target is resolved as a request is answered, and leaves the map after the request. -/
theorem resolve (h : t.Represents m) (target : String) :
    ∃ t', (AddressTable.resolve target).run.run t = .ok ((m.request target).1, t') ∧
      t'.Represents (m.request target).2 := by
  cases hname : isAddress target with
  | true =>
    rw [AddressMap.request_address m hname, AddressTable.resolve, hname]
    exact ⟨t, rfl, h⟩
  | false =>
    rw [run_resolve hname]
    cases hget : t.get? target with
    | some address =>
      have hbound : m.get? target = some address.toNat := by
        rw [← h.addresses, hget]
        rfl
      rw [AddressMap.request_bound hname hbound]
      exact ⟨t, rfl, h⟩
    | none =>
      have hnew : m.get? target = none := by
        rw [← h.addresses, hget]
        rfl
      exact h.allocate hname hnew

end Represents

/-- Resolves targets in a row, whatever becomes of each. -/
def afterResolving (t : AddressTable) (targets : List String) : Except Crash AddressTable :=
  targets.foldlM (fun t target => Prod.snd <$> (resolve target).run.run t) t

/-- After any row of targets the table stands for the map after requests for them. -/
theorem represents_afterResolving (targets : List String) :
    ∃ t, afterResolving {} targets = .ok t ∧ t.Represents (AddressMap.afterRequests targets) := by
  induction targets using List.reverseRecOn with
  | nil => exact ⟨{}, rfl, represents_empty⟩
  | append_singleton targets target ih =>
    obtain ⟨t, ht, hrep⟩ := ih
    obtain ⟨t', hrun, hrep'⟩ := hrep.resolve target
    refine ⟨t', ?_, by rwa [AddressMap.afterRequests_concat]⟩
    rw [afterResolving] at ht ⊢
    simp only [List.foldlM_append, ht, List.foldlM_cons, List.foldlM_nil]
    change Prod.snd <$> (resolve target).run.run t >>= pure = _
    rw [hrun]
    rfl

end AddressTable

-- ---------------------------------------------------------------------------
-- Lowering in one pass
-- ---------------------------------------------------------------------------

namespace AddressMap

theorem bindAll_singleton (m : AddressMap) (target : String) :
    m.bindAll [target] = m.bind target := by
  rw [bindAll]
  cases m.bind target <;> rfl

/-- A bound target has an address, and so has every name that had one. -/
theorem get?_bind (h : m.bind target = .ok m') :
    (isAddress target ∨ (m'.get? target).isSome) ∧
      ∀ name address, m.get? name = some address → m'.get? name = some address := by
  unfold bind at h
  split at h
  · next hbound =>
    cases h
    exact ⟨by simpa using hbound, fun _ _ hget => hget⟩
  · next hunbound =>
    split at h
    · cases h
      have hnew : m.get? target = none := by
        simp only [Bool.or_eq_true, not_or, Bool.not_eq_true, Option.isSome_eq_false_iff,
          Option.isNone_iff_eq_none] at hunbound
        exact hunbound.2
      refine ⟨.inr (by simp [get?_push hnew]), fun name address hget => ?_⟩
      rw [get?_push hnew, if_neg ?_, hget]
      intro hkey
      rw [get?, hkey, ← get?, hnew] at hget
      cases hget
    · cases h

theorem get?_bindAll (h : m.bindAll targets = .ok m') (hget : m.get? name = some address) :
    m'.get? name = some address := by
  induction targets generalizing m with
  | nil =>
    cases h
    exact hget
  | cons target rest ih =>
    rw [bindAll] at h
    split at h
    · next m₁ hm₁ => exact ih h ((get?_bind hm₁).2 _ _ hget)
    · cases h

/-- The operand of a bound target is settled. -/
theorem operand_bindAll (hbind : m.bind target = .ok m') (h : m'.bindAll later = .ok m'') :
    m''.operand target = m'.operand target := by
  unfold operand
  split
  · rfl
  · next hname =>
    obtain ⟨address, hget⟩ := Option.isSome_iff_exists.mp ((get?_bind hbind).1.resolve_left hname)
    rw [hget, get?_bindAll h hget]

end AddressMap

theorem run_bind (x : Allocating α) (y : α → Allocating β) :
    (x >>= y).run.run t =
      match x.run.run t with
      | .ok (.ok value, t') => (y value).run.run t'
      | .ok (.error e, t') => .ok (.error e, t')
      | .error crash => .error crash := by
  rw [ExceptT.run_bind, StateT.run_bind]
  rcases x.run.run t with crash | ⟨e | value, t'⟩ <;> rfl

/-- A computation makes `f` of the map in which all of `targets` have addresses, whatever targets
follow, and fails where binding them does. -/
structure Lowers {α : Type} (x : Allocating α) (targets : List String) (f : AddressMap → α) :
    Prop where
  fits : ∀ {t m m'}, t.Represents m → m.bindAll targets = .ok m' →
    ∃ a t', x.run.run t = .ok (.ok a, t') ∧ t'.Represents m' ∧
      ∀ later m'', m'.bindAll later = .ok m'' → f m'' = a
  full : ∀ {t m e}, t.Represents m → m.bindAll targets = .error e →
    ∃ t', x.run.run t = .ok (.error e, t')

namespace Lowers

variable {α β : Type} {x : Allocating α} {targets rest : List String} {f : AddressMap → α}

protected theorem pure (a : α) : Lowers (pure a : Allocating α) [] fun _ => a where
  fits h hm := by
    cases hm
    exact ⟨a, _, rfl, h, fun _ _ _ => rfl⟩
  full _ hm := nomatch hm

protected theorem bind {y : α → Allocating β} {g : α → AddressMap → β} (hx : Lowers x targets f)
    (hy : ∀ a, Lowers (y a) rest (g a)) :
    Lowers (x >>= y) (targets ++ rest) fun m => g (f m) m where
  fits h hm := by
    rw [AddressMap.bindAll_append] at hm
    split at hm
    · next m' hm' =>
      obtain ⟨a, t', hrun, hrep, hlater⟩ := hx.fits h hm'
      obtain ⟨b, t'', hrun', hrep', hlater'⟩ := (hy a).fits hrep hm
      refine ⟨b, t'', ?_, hrep', fun later m'' hm'' => ?_⟩
      · rw [run_bind, hrun]
        exact hrun'
      · have hall : m'.bindAll (rest ++ later) = .ok m'' := by
          rw [AddressMap.bindAll_append, hm]
          exact hm''
        rw [hlater _ _ hall]
        exact hlater' _ _ hm''
    · cases hm
  full h hm := by
    rw [AddressMap.bindAll_append] at hm
    split at hm
    · next m' hm' =>
      obtain ⟨a, t', hrun, hrep, -⟩ := hx.fits h hm'
      obtain ⟨t'', hrun'⟩ := (hy a).full hrep hm
      exact ⟨t'', by rw [run_bind, hrun]; exact hrun'⟩
    · next e' he' =>
      cases hm
      obtain ⟨t', hrun⟩ := hx.full h he'
      exact ⟨t', by rw [run_bind, hrun]⟩

/-- The values that a list of computations makes, one after another. -/
protected theorem mapM {γ : Type} {x : γ → Allocating α} {targets : γ → List String}
    {f : AddressMap → γ → α} (h : ∀ c, Lowers (x c) (targets c) fun m => f m c) (l : List γ) :
    Lowers (l.mapM x) (l.flatMap targets) fun m => l.map (f m) := by
  induction l with
  | nil => exact .pure []
  | cons c l ih =>
    rw [List.mapM_cons, List.flatMap_cons]
    have hrest (a : α) : Lowers (do return a :: (← l.mapM x)) (l.flatMap targets)
        fun m => a :: l.map (f m) := by
      rw [← List.append_nil (l.flatMap targets)]
      exact ih.bind fun as => .pure (a :: as)
    exact (h c).bind hrest

protected theorem resolve (target : String) :
    Lowers (AddressTable.resolve target) [target] fun m => m.operand target where
  fits h hm := by
    rw [AddressMap.bindAll_singleton] at hm
    obtain ⟨t', hrun, hrep⟩ := h.resolve target
    rw [AddressMap.request, AddressMap.resolve, hm] at hrun hrep
    exact ⟨_, t', hrun, hrep, fun later m'' hm'' => AddressMap.operand_bindAll hm hm''⟩
  full h hm := by
    rw [AddressMap.bindAll_singleton] at hm
    obtain ⟨t', hrun, -⟩ := h.resolve target
    rw [AddressMap.request, AddressMap.resolve, hm] at hrun
    exact ⟨t', hrun⟩

end Lowers

theorem lowers_instr (i : Flat.Instr) :
    Lowers (tryLowerInstr i) (Flat.targets [i]) fun m => lowerInstr m i := by
  cases i with
  | assign target source =>
    exact (Lowers.resolve target).bind fun address =>
      .pure [Instr.load .a source, Instr.store .a address]
  | label name => exact .pure [Instr.label name]
  | call callee args => exact .pure [Instr.call callee]
  | branch target cond => exact .pure [Instr.jump target cond]

theorem targets_eq_flatMap (instrs : List Flat.Instr) :
    Flat.targets instrs = instrs.flatMap fun i => Flat.targets [i] := by
  induction instrs with
  | nil => rfl
  | cons i rest ih =>
    rw [List.flatMap_cons, ← ih]
    cases i <;> rfl

theorem lowers_routine (r : Flat.Routine) :
    Lowers (tryLowerRoutine r) (Flat.targets r.instrs) fun m => lowerRoutine m r := by
  have hinstrs := (Lowers.mapM lowers_instr r.instrs).bind fun instrs =>
    .pure (⟨r.name, instrs.flatten⟩ : Routine)
  rwa [List.append_nil, ← targets_eq_flatMap] at hinstrs

theorem lowers_module (module : Module Flat.Routine) :
    Lowers (module.mapM tryLowerRoutine)
      (module.routines.flatMap fun r => Flat.targets r.instrs)
      fun m => module.map (lowerRoutine m) := by
  have hroutines := (Lowers.mapM lowers_routine module.routines).bind fun routines =>
    .pure (Module.mk module.name routines)
  rwa [List.append_nil] at hroutines

/-- Lowering in one pass does not crash, and makes what is lowered under the map of all targets. -/
theorem tryLower_eq (p : Flat.Program) : tryLower p = .ok (lower p) := by
  have hmodules := Lowers.mapM lowers_module p.modules
  have htargets : p.targets =
      p.modules.flatMap fun module => module.routines.flatMap fun r => Flat.targets r.instrs := by
    rw [Flat.Program.targets, Flat.Program.routines, Module.allRoutines, List.flatMap_assoc]
  rw [← htargets] at hmodules
  change Prod.fst <$> (tryLowerProgram p).run.run {} = _
  unfold tryLowerProgram lower
  cases hm : AddressMap.bindAll {} p.targets with
  | ok m =>
    obtain ⟨modules, t, hrun, hrep, hlater⟩ := hmodules.fits AddressTable.represents_empty hm
    have hcount : (do
        let _ ← (← get).allocated
        return .ofModules p.sourceFile modules : Allocating Program).run.run t =
        .ok (.ok (.ofModules p.sourceFile modules), t) := by
      change (liftM t.allocated >>= fun _ => pure _ : Allocating Program).run.run t = _
      rw [hrep.allocated]
      rfl
    obtain rfl := hlater [] m rfl
    rw [run_bind, hrun]
    exact congrArg (Prod.fst <$> ·) hcount
  | error e =>
    obtain ⟨t, hrun⟩ := hmodules.full AddressTable.represents_empty hm
    rw [run_bind, hrun]
    rfl

end Cartridge.Register
