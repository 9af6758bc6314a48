import Mathlib.Data.List.Infix
import Mathlib.Data.List.Induction
import Cartridge.Proofs.Register.ZeroPage

/-!
# Addresses over a row of requests

An address map answers one request after another, and a request may fail. After
any row of requests RAM holds the first variables of the row, as many as fit, in
the order in which they were first asked for. So an address belongs to one name
only, and a name that has an address keeps it.
-/

namespace Cartridge.Register

-- ---------------------------------------------------------------------------
-- Keys
-- ---------------------------------------------------------------------------

theorem toUpper_eq_dollar_iff (c : Char) : c.toUpper = '$' ↔ c = '$' := by
  constructor
  · intro h
    unfold Char.toUpper at h
    split at h
    · next hlower =>
      -- A capital letter has a code from 65 on, a dollar sign has 36.
      have hcode := congrArg (fun c : Char => c.val.toNat) h
      simp only [UInt32.le_iff_toNat_le] at hlower
      simp only [UInt32.toNat_add] at hcode
      grind
    · exact h
  · rintro rfl
    rfl

theorem isAddress_symbolKey (name : String) : isAddress (symbolKey name) = isAddress name := by
  unfold isAddress symbolKey String.toUpper
  rw [String.toList_map]
  cases name.toList with
  | nil => rfl
  | cons c rest => simp [toUpper_eq_dollar_iff]

theorem mem_tiaRegisters (h : tiaRegisters.lookup key = some address) :
    (key, address) ∈ tiaRegisters := by
  obtain ⟨before, after, htable, -⟩ := List.lookup_eq_some_iff.mp h
  simp [htable]

theorem tiaRegisters_injective :
    ∀ r ∈ tiaRegisters, ∀ r' ∈ tiaRegisters, r.2 = r'.2 → r.1 = r'.1 := by
  decide

theorem lookup_tiaRegisters : ∀ r ∈ tiaRegisters, tiaRegisters.lookup r.1 = some r.2 := by
  decide

theorem isAddress_tiaRegisters : ∀ r ∈ tiaRegisters, isAddress r.1 = false := by
  decide

theorem exists_of_mem_variableKeys (h : key ∈ variableKeys names) :
    ∃ name, isVariable name ∧ symbolKey name = key := by
  rw [variableKeys, List.mem_eraseDups] at h
  obtain ⟨name, hname, hkey⟩ := List.mem_map.mp h
  exact ⟨name, (List.mem_filter.mp hname).2, hkey⟩

/-- Whether a name is a variable is a matter of its key. -/
theorem isVariable_of_mem (h : symbolKey name ∈ variableKeys names) : isVariable name := by
  obtain ⟨other, hother, hkey⟩ := exists_of_mem_variableKeys h
  rw [isVariable, ← isAddress_symbolKey name, ← hkey, isAddress_symbolKey]
  exact hother

theorem nodup_variableKeys (names : List String) : (variableKeys names).Nodup := by
  induction names using List.reverseRecOn with
  | nil => exact List.nodup_nil
  | append_singleton names name ih =>
    rw [variableKeys_concat]
    split
    · next hnew =>
      exact List.nodup_append.mpr ⟨ih, by simp, fun key hkey last hlast heq =>
        hnew.2 (by rwa [← List.mem_singleton.mp hlast, ← heq])⟩
    · exact ih

theorem variableKeys_later (names later : List String) :
    variableKeys names <+: variableKeys (names ++ later) := by
  rw [variableKeys_append]
  exact List.prefix_append _ _

-- ---------------------------------------------------------------------------
-- One request
-- ---------------------------------------------------------------------------

namespace AddressMap

variable {m : AddressMap}

/-- The answer to a request for the operand of a name, and the map after it. -/
def request (m : AddressMap) (name : String) : Except ZeroPageExhausted String × AddressMap :=
  match m.resolve name with
  | .ok (text, m') => (.ok text, m')
  | .error e => (.error e, m)

theorem request_address (m : AddressMap) (h : isAddress name) : m.request name = (.ok name, m) := by
  simp [request, resolve, bind, operand, h]

theorem request_bound (hname : isAddress name = false) (h : m.get? name = some address) :
    m.request name = (.ok (addressText address), m) := by
  simp [request, resolve, bind, operand, hname, h]

theorem request_full (hname : isAddress name = false) (hnew : m.get? name = none)
    (hfull : ramSize ≤ m.allocated) : m.request name = (.error ⟨name⟩, m) := by
  simp [request, resolve, bind, hname, hnew, Nat.not_lt.mpr hfull]

theorem get?_new (hnew : m.get? name = none) :
    (⟨m.symbols ++ [symbolKey name]⟩ : AddressMap).get? name = some (ramBase + m.allocated) := by
  unfold get? at hnew ⊢
  split at hnew
  · cases hnew
  · have hkey : symbolKey name ∉ m.symbols := by simpa using hnew
    simp [idxOf?_of_mem, List.idxOf_append_of_notMem hkey, allocated]

theorem request_new (hname : isAddress name = false) (hnew : m.get? name = none)
    (hroom : m.allocated < ramSize) :
    m.request name =
      (.ok (addressText (ramBase + m.allocated)), ⟨m.symbols ++ [symbolKey name]⟩) := by
  simp [request, resolve, bind, operand, hname, hnew, hroom, get?_new hnew]

/-- A request takes up a variable that is not known yet, if there is room for one more. -/
theorem symbols_request (m : AddressMap) (name : String) :
    (m.request name).2.symbols =
      if isVariable name ∧ symbolKey name ∉ m.symbols ∧ m.symbols.length < ramSize then
        m.symbols ++ [symbolKey name]
      else m.symbols := by
  unfold request resolve
  rw [bind_eq]
  by_cases hnew : isVariable name ∧ symbolKey name ∉ m.symbols
  · by_cases hroom : m.symbols.length < ramSize <;> simp [hnew, hroom]
  · grind

-- ---------------------------------------------------------------------------
-- A row of requests
-- ---------------------------------------------------------------------------

/-- The map that is left after requests in a row, whatever became of each. -/
def afterRequests (names : List String) : AddressMap :=
  names.foldl (fun m name => (m.request name).2) {}

theorem afterRequests_concat (names : List String) (name : String) :
    afterRequests (names ++ [name]) = ((afterRequests names).request name).2 := by
  simp [afterRequests]

theorem symbols_afterRequests (names : List String) :
    (afterRequests names).symbols = (variableKeys names).take ramSize := by
  induction names using List.reverseRecOn with
  | nil => rfl
  | append_singleton names name ih =>
    rw [afterRequests_concat, symbols_request, ih, variableKeys_concat]
    by_cases hroom : (variableKeys names).length < ramSize
    · -- Everything met so far has a byte, so the map knows what the row knows.
      rw [List.take_of_length_le hroom.le]
      split
      · next hnew =>
        rw [if_pos ⟨hnew.1, hnew.2.1⟩,
          List.take_of_length_le (by simpa using Nat.succ_le_of_lt hroom)]
      · next hold =>
        rw [if_neg fun hnew => hold ⟨hnew.1, hnew.2, hroom⟩, List.take_of_length_le hroom.le]
    · -- RAM is full and stays as it is.
      have hfull : ((variableKeys names).take ramSize).length = ramSize :=
        List.length_take_of_le (Nat.not_lt.mp hroom)
      rw [if_neg fun h => by omega]
      split
      · rw [List.take_append_of_le_length (Nat.not_lt.mp hroom)]
      · rfl

theorem mem_variableKeys_of_symbols (h : key ∈ (afterRequests names).symbols) :
    key ∈ variableKeys names := by
  rw [symbols_afterRequests] at h
  exact List.mem_of_mem_take h

theorem nodup_symbols (names : List String) : (afterRequests names).symbols.Nodup := by
  rw [symbols_afterRequests]
  exact (nodup_variableKeys names).sublist (List.take_sublist _ _)

/-- A byte of RAM belongs to the name that stands at its place in the map. -/
theorem get?_ram_iff :
    (afterRequests names).get? name = some (ramBase + i) ↔
      (afterRequests names).symbols[i]? = some (symbolKey name) := by
  unfold get?
  split
  · next address htia =>
    constructor
    · intro h
      -- The registers of the adapter lie below RAM.
      have hlow := address_of_mem_tiaRegisters _ (mem_tiaRegisters htia)
      simp only [Option.some.injEq, ramBase] at h hlow
      omega
    · intro h
      have hvar := isVariable_of_mem (mem_variableKeys_of_symbols (List.mem_of_getElem? h))
      simp [isVariable, htia] at hvar
  · constructor
    · intro h
      obtain ⟨j, hj, hij⟩ := Option.map_eq_some_iff.mp h
      obtain rfl : j = i := by omega
      obtain ⟨hlt, hkey, -⟩ := List.idxOf?_eq_some_iff.mp hj
      rw [List.getElem?_eq_getElem hlt, hkey]
    · intro h
      obtain ⟨hlt, hkey⟩ := List.getElem?_eq_some_iff.mp h
      have hindex := (nodup_symbols names).idxOf_getElem i hlt
      rw [idxOf?_of_mem (List.mem_of_getElem? h), ← hkey, hindex]
      rfl

theorem get?_tia (m : AddressMap) (h : (symbolKey name, address) ∈ tiaRegisters) :
    m.get? name = some address := by
  rw [get?, lookup_tiaRegisters _ h]

/-- An address is that of a register of the adapter or of a byte of RAM. -/
theorem get?_cases (h : m.get? name = some address) :
    (symbolKey name, address) ∈ tiaRegisters ∨ ∃ i, address = ramBase + i := by
  unfold get? at h
  split at h
  · next htia => exact .inl (mem_tiaRegisters (htia.trans h))
  · obtain ⟨i, -, hi⟩ := Option.map_eq_some_iff.mp h
    exact .inr ⟨i, hi.symm⟩

/-- The registers have their addresses, and the symbols theirs by position; nothing else has one. -/
theorem get?_eq_some_iff :
    (afterRequests names).get? name = some address ↔
      (symbolKey name, address) ∈ tiaRegisters ∨
        ∃ i, address = ramBase + i ∧
          (afterRequests names).symbols[i]? = some (symbolKey name) := by
  constructor
  · intro h
    obtain htia | ⟨i, rfl⟩ := get?_cases h
    · exact .inl htia
    · exact .inr ⟨i, rfl, get?_ram_iff.mp h⟩
  · rintro (htia | ⟨i, rfl, hsymbol⟩)
    · exact get?_tia _ htia
    · exact get?_ram_iff.mpr hsymbol

theorem isAddress_of_get? (h : (afterRequests names).get? name = some address) :
    isAddress name = false := by
  obtain htia | ⟨i, -, hsymbol⟩ := get?_eq_some_iff.mp h
  · have hregister := isAddress_tiaRegisters (symbolKey name, address) htia
    rwa [isAddress_symbolKey] at hregister
  · have hvar := isVariable_of_mem (mem_variableKeys_of_symbols (List.mem_of_getElem? hsymbol))
    simp only [isVariable, Bool.and_eq_true, Bool.not_eq_true'] at hvar
    exact hvar.1

/-- No two names share an address, be it in RAM or of a register. -/
theorem symbolKey_of_get? (h : (afterRequests names).get? name = some address)
    (h' : (afterRequests names).get? name' = some address) : symbolKey name = symbolKey name' := by
  obtain htia | ⟨i, rfl, hsymbol⟩ := get?_eq_some_iff.mp h
  · obtain htia' | ⟨i, rfl, -⟩ := get?_eq_some_iff.mp h'
    · exact tiaRegisters_injective _ htia _ htia' rfl
    · have hlow := address_of_mem_tiaRegisters _ htia
      simp only [ramBase] at hlow
      omega
  · exact Option.some.inj (hsymbol.symm.trans (get?_ram_iff.mp h'))

theorem symbols_later (names later : List String) :
    (afterRequests names).symbols <+: (afterRequests (names ++ later)).symbols := by
  rw [symbols_afterRequests, symbols_afterRequests]
  exact (variableKeys_later names later).take ramSize

theorem get?_later (h : (afterRequests names).get? name = some address) (later : List String) :
    (afterRequests (names ++ later)).get? name = some address := by
  obtain htia | ⟨i, rfl, hsymbol⟩ := get?_eq_some_iff.mp h
  · exact get?_tia _ htia
  · obtain ⟨rest, hrest⟩ := symbols_later names later
    rw [get?_ram_iff, ← hrest, List.getElem?_append_left (List.getElem?_eq_some_iff.mp hsymbol).1]
    exact hsymbol

theorem request_error_iff :
    (m.request name).1 = .error e ↔
      e = ⟨name⟩ ∧ m.get? name = none ∧ isAddress name = false ∧ ramSize ≤ m.allocated := by
  cases hname : isAddress name with
  | true => simp [request_address m hname]
  | false =>
    cases hget : m.get? name with
    | some address => simp [request_bound hname hget]
    | none =>
      by_cases hroom : m.allocated < ramSize
      · simp [request_new hname hget hroom, hroom]
      · rw [request_full hname hget (Nat.not_lt.mp hroom)]
        simp [Nat.not_lt.mp hroom, eq_comm]

/-- What a request for a name answers is the address that the name has from then on. -/
theorem request_ok {text : String} (hname : isAddress name = false)
    (h : (m.request name).1 = .ok text) :
    ∃ address, (m.request name).2.get? name = some address ∧ text = addressText address := by
  cases hget : m.get? name with
  | some address =>
    rw [request_bound hname hget] at h ⊢
    exact ⟨address, hget, (Except.ok.inj h).symm⟩
  | none =>
    by_cases hroom : m.allocated < ramSize
    · rw [request_new hname hget hroom] at h ⊢
      exact ⟨_, get?_new hget, (Except.ok.inj h).symm⟩
    · rw [request_full hname hget (Nat.not_lt.mp hroom)] at h
      cases h

/-- RAM holds the first variables of a row of requests, as many as fit, in the order in which they
are met. Beside the registers nothing else has an address, none has two names, and later requests
leave it alone. A request answers with the address that its name has then. It fails only for a new
name when RAM is full; a failure and an address that is spelled out leave the map as it is. -/
theorem afterRequests_addresses (names : List String) :
    let m := afterRequests names
    m.symbols = (variableKeys names).take 128 ∧
    m.allocated = min 128 (variableKeys names).length ∧
    (∀ name address, m.get? name = some address ↔
      (symbolKey name, address) ∈ tiaRegisters ∨
        ∃ i, address = 0x80 + i ∧ m.symbols[i]? = some (symbolKey name)) ∧
    (∀ name name' address, m.get? name = some address → m.get? name' = some address →
      symbolKey name = symbolKey name') ∧
    (∀ name address, m.get? name = some address → ∀ later,
      let m' := afterRequests (names ++ later)
      m'.get? name = some address ∧ m'.request name = (.ok (addressText address), m')) ∧
    (∀ name text, isAddress name = false → (m.request name).1 = .ok text →
      ∃ address, (m.request name).2.get? name = some address ∧ text = addressText address) ∧
    (∀ name e, (m.request name).1 = .error e ↔
      e = ⟨name⟩ ∧ m.get? name = none ∧ isAddress name = false ∧ m.allocated = 128) ∧
    (∀ name e, (m.request name).1 = .error e → (m.request name).2 = m) ∧
    (∀ name, isAddress name → m.request name = (.ok name, m)) := by
  intro m
  have hsymbols : m.symbols = (variableKeys names).take ramSize := symbols_afterRequests names
  have hallocated : m.allocated = min ramSize (variableKeys names).length := by
    rw [allocated, hsymbols, List.length_take]
  have hfull : ramSize ≤ m.allocated ↔ m.allocated = ramSize := by omega
  refine ⟨hsymbols, hallocated, fun name address => get?_eq_some_iff,
    fun name name' address => symbolKey_of_get?, fun name address hget later => ?_,
    fun name text => request_ok, fun name e => ?_, fun name e herror => ?_,
    fun name => request_address m⟩
  · have hlater := get?_later hget later
    exact ⟨hlater, request_bound (isAddress_of_get? hget) hlater⟩
  · rw [request_error_iff, hfull]
    rfl
  · obtain ⟨-, hnew, hname, hram⟩ := request_error_iff.mp herror
    rw [request_full hname hnew hram]

example : (afterRequests ["x", "$F0", "pf0", "X"]).symbols = ["X"] := by
  cbv

end AddressMap

end Cartridge.Register
