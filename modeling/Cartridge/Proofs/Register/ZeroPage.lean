import Cartridge.Register.ZeroPage

/-!
# Which targets get which addresses

Binding targets one after another fails exactly if more names need a byte of
RAM than there are bytes. If it does not fail, the map holds the names that
need one in the order in which they are first met, and every target that was
bound has an address: its own text, a register of the adapter, or its byte.
-/

namespace Cartridge.Register

/-- Whether a target needs a byte of RAM: it is no address and no register of the adapter. -/
def isVariable (target : String) : Bool :=
  !isAddress target && (tiaRegisters.lookup (symbolKey target)).isNone

/-- The names that need a byte of RAM, in the order in which they are first met. -/
def variableKeys (targets : List String) : List String :=
  ((targets.filter isVariable).map symbolKey).eraseDups

/-- The address of a name, if the bytes of RAM go to `symbols` in their order. -/
def addressOf (symbols : List String) (name : String) : Nat :=
  match tiaRegisters.lookup (symbolKey name) with
  | some address => address
  | none => ramBase + symbols.idxOf (symbolKey name)

theorem variableKeys_append (targets rest : List String) :
    variableKeys (targets ++ rest) = variableKeys targets ++
      (((rest.filter isVariable).map symbolKey).removeAll
        ((targets.filter isVariable).map symbolKey)).eraseDups := by
  simp [variableKeys, List.eraseDups_append]

theorem mem_variableKeys (h : target ∈ targets) (hvar : isVariable target) :
    symbolKey target ∈ variableKeys targets := by
  rw [variableKeys, List.mem_eraseDups]
  exact List.mem_map_of_mem (List.mem_filter.mpr ⟨h, hvar⟩)

theorem variableKeys_concat (targets : List String) (target : String) :
    variableKeys (targets ++ [target]) =
      if isVariable target ∧ symbolKey target ∉ variableKeys targets then
        variableKeys targets ++ [symbolKey target]
      else variableKeys targets := by
  rw [variableKeys_append]
  simp only [variableKeys, List.mem_eraseDups]
  cases hvar : isVariable target with
  | false => simp [hvar]
  | true =>
    by_cases hknown : symbolKey target ∈ (targets.filter isVariable).map symbolKey
    · simp only [List.filter_cons_of_pos hvar, List.filter_nil, List.map_cons, List.map_nil,
        List.cons_removeAll, List.nil_removeAll, List.elem_eq_mem, hknown]
      simp
    · simp only [List.filter_cons_of_pos hvar, List.filter_nil, List.map_cons, List.map_nil,
        List.cons_removeAll, List.nil_removeAll, List.elem_eq_mem, hknown]
      simp [List.eraseDups_cons]

/-- Later targets only add variables behind those met before. -/
theorem length_variableKeys_le (targets rest : List String) :
    (variableKeys targets).length ≤ (variableKeys (targets ++ rest)).length := by
  rw [variableKeys_append, List.length_append]
  exact Nat.le_add_right _ _

namespace AddressMap

/-- Only a variable that is not yet known changes the map, and only it can fail. -/
theorem bind_eq (m : AddressMap) (target : String) :
    m.bind target =
      if isVariable target ∧ symbolKey target ∉ m.symbols then
        if m.symbols.length < ramSize then .ok ⟨m.symbols ++ [symbolKey target]⟩
        else .error ⟨target⟩
      else .ok m := by
  unfold bind isVariable get? allocated
  cases isAddress target with
  | true => simp
  | false =>
    cases tiaRegisters.lookup (symbolKey target) with
    | some address => simp
    | none =>
      by_cases hknown : symbolKey target ∈ m.symbols
      · have hsome : (m.symbols.idxOf? (symbolKey target)).isSome :=
          List.isSome_idxOf?.mpr hknown
        simp [hknown, hsome]
      · simp [hknown]

/-- A map that holds the variables met so far takes up those of one more target, if they fit. -/
theorem bind_variableKeys (target : String) (hfit : (variableKeys targets).length ≤ ramSize) :
    (⟨variableKeys targets⟩ : AddressMap).bind target =
      if (variableKeys (targets ++ [target])).length ≤ ramSize then
        .ok ⟨variableKeys (targets ++ [target])⟩
      else .error ⟨target⟩ := by
  rw [bind_eq, variableKeys_concat]
  split
  · simp only [List.length_append, List.length_singleton]
    rfl
  · rfl

theorem bindAll_variableKeys (targets rest : List String)
    (hfit : (variableKeys targets).length ≤ ramSize) :
    (⟨variableKeys targets⟩ : AddressMap).bindAll rest = .ok m ↔
      m.symbols = variableKeys (targets ++ rest) ∧
        (variableKeys (targets ++ rest)).length ≤ ramSize := by
  -- What is carried along is that the map holds the variables of the targets bound so far.
  induction rest generalizing targets with
  | nil =>
    rw [bindAll, List.append_nil, Except.ok.injEq]
    constructor
    · rintro rfl
      exact ⟨rfl, hfit⟩
    · rintro ⟨hsymbols, -⟩
      rw [← hsymbols]
  | cons target rest ih =>
    rw [bindAll, bind_variableKeys target hfit, List.append_cons targets target rest]
    split
    · next m' hm' =>
      split at hm'
      · next hfit' =>
        cases hm'
        exact ih (targets ++ [target]) hfit'
      · cases hm'
    · next e he =>
      split at he
      · cases he
      · next hfull =>
        have hle := length_variableKeys_le (targets ++ [target]) rest
        simp only [reduceCtorEq, false_iff]
        omega

theorem bindAll_eq_ok_iff {targets : List String} :
    bindAll {} targets = .ok m ↔
      m.symbols = variableKeys targets ∧ (variableKeys targets).length ≤ ramSize :=
  bindAll_variableKeys [] targets (Nat.zero_le _)

theorem idxOf?_of_mem {symbols : List String} (h : key ∈ symbols) :
    symbols.idxOf? key = some (symbols.idxOf key) := by
  induction symbols with
  | nil => cases h
  | cons symbol symbols ih =>
    rw [List.idxOf?_cons, List.idxOf_cons]
    cases hkey : symbol == key with
    | true => rfl
    | false =>
      have hne : key ≠ symbol := fun heq => by simp [heq] at hkey
      simp [ih ((List.mem_cons.mp h).resolve_left hne)]

theorem operand_of_bindAll (h : bindAll {} targets = .ok m) (hmem : target ∈ targets)
    (hname : isAddress target = false) :
    m.operand target = addressText (addressOf (variableKeys targets) target) := by
  obtain ⟨hsymbols, -⟩ := bindAll_eq_ok_iff.mp h
  simp only [operand, hname, get?, addressOf, hsymbols, Bool.false_eq_true, if_false]
  cases htia : tiaRegisters.lookup (symbolKey target) with
  | some address => rfl
  | none =>
    have hvar : isVariable target := by simp [isVariable, hname, htia]
    simp [idxOf?_of_mem (mem_variableKeys hmem hvar)]

theorem isAddress_operand (h : bindAll {} targets = .ok m) (hmem : target ∈ targets) :
    isAddress (m.operand target) := by
  cases hname : isAddress target with
  | true => simp [operand, hname]
  | false =>
    rw [operand_of_bindAll h hmem hname]
    simp [isAddress, addressText]

end AddressMap

theorem address_of_mem_tiaRegisters : ∀ r ∈ tiaRegisters, r.2 < 0x80 := by
  decide

/-- Names of a target list whose variables fit have addresses in the zero page. -/
theorem addressOf_lt (hmem : target ∈ targets) (hname : isAddress target = false)
    (hfit : (variableKeys targets).length ≤ ramSize) :
    addressOf (variableKeys targets) target < 0x100 := by
  unfold addressOf
  split
  · next address htia =>
    obtain ⟨before, after, htable, -⟩ := List.lookup_eq_some_iff.mp htia
    have hlow := address_of_mem_tiaRegisters (symbolKey target, address) (by simp [htable])
    omega
  · next htia =>
    have hvar : isVariable target := by simp [isVariable, hname, htia]
    have hindex := List.idxOf_lt_length_of_mem (mem_variableKeys hmem hvar)
    simp only [ramBase, ramSize] at hfit ⊢
    omega

end Cartridge.Register
