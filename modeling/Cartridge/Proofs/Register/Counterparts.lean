import Mathlib.Data.List.Forall2
import Cartridge.Proofs.Listing.Operands
import Cartridge.Proofs.Register.Allocation
import Cartridge.Proofs.Register.Lowering

/-!
# Lowering, instruction by instruction

Lowering keeps modules, routines and instructions in place. An assignment stores
to what a request for its target answers after the targets of all assignments
in front of it, whatever routine or module they are in; nothing later changes
that. So two names share an address exactly if they differ in case at most.
Lowering fails at the assignment that brings in one variable too many.
-/

namespace Cartridge.Register

/-- Each instruction stands in the place of its counterpart, with `address` for targets. -/
inductive Counterpart (address : String → String) : List Flat.Instr → List Instr → Prop
  | nil : Counterpart address [] []
  | assign : Counterpart address code code' →
      Counterpart address (.assign target source :: code)
        (.load .a source :: .store .a (address target) :: code')
  | label : Counterpart address code code' →
      Counterpart address (.label name :: code) (.label name :: code')
  | call : Counterpart address code code' →
      Counterpart address (.call callee args :: code) (.call callee :: code')
  | branch : Counterpart address code code' →
      Counterpart address (.branch target c :: code) (.jump target c :: code')

theorem counterpart_lowerInstr (m : AddressMap) (code : List Flat.Instr) :
    Counterpart m.operand code (code.flatMap (lowerInstr m)) := by
  induction code with
  | nil => exact .nil
  | cons i rest ih =>
    cases i with
    | assign target source => exact .assign ih
    | label name => exact .label ih
    | call callee args => exact .call ih
    | branch target cond => exact .branch ih

-- ---------------------------------------------------------------------------
-- The variable that does not fit
-- ---------------------------------------------------------------------------

theorem length_variableKeys_concat_le (targets : List String) (target : String) :
    (variableKeys (targets ++ [target])).length ≤ (variableKeys targets).length + 1 := by
  rw [variableKeys_concat]
  split <;> simp

namespace AddressMap

theorem bindAll_append (m : AddressMap) (before after : List String) :
    m.bindAll (before ++ after) =
      match m.bindAll before with
      | .ok m' => m'.bindAll after
      | .error e => .error e := by
  induction before generalizing m with
  | nil => rfl
  | cons target rest ih =>
    rw [List.cons_append, bindAll, bindAll]
    cases m.bind target with
    | ok m' => exact ih m'
    | error e => rfl

/-- Binding fails at a target up to which all variables fit, and with which they do not. -/
theorem exists_of_bindAll_error (targets rest : List String)
    (hfit : (variableKeys targets).length ≤ ramSize)
    (h : (⟨variableKeys targets⟩ : AddressMap).bindAll rest = .error e) :
    ∃ before target after, rest = before ++ target :: after ∧
      (variableKeys (targets ++ before)).length ≤ ramSize ∧
      ramSize < (variableKeys (targets ++ before ++ [target])).length ∧ e = ⟨target⟩ := by
  induction rest generalizing targets with
  | nil => cases h
  | cons target rest ih =>
    rw [bindAll, bind_variableKeys target hfit] at h
    by_cases hnext : (variableKeys (targets ++ [target])).length ≤ ramSize
    · simp only [if_pos hnext] at h
      obtain ⟨before, last, after, rfl, hbefore, hfull, rfl⟩ := ih _ hnext h
      rw [← List.append_cons] at hbefore hfull
      exact ⟨target :: before, last, after, rfl, hbefore, hfull, rfl⟩
    · simp only [if_neg hnext] at h
      cases h
      rw [← List.append_nil targets] at hfit
      exact ⟨[], target, rest, rfl, hfit, by simpa using hnext, rfl⟩

theorem bindAll_eq_error_iff {targets : List String} :
    bindAll {} targets = .error e ↔
      ∃ before target after, targets = before ++ target :: after ∧
        (variableKeys before).length = ramSize ∧
        (variableKeys (before ++ [target])).length = ramSize + 1 ∧ e = ⟨target⟩ := by
  constructor
  · intro h
    obtain ⟨before, target, after, rfl, hbefore, hfull, rfl⟩ :=
      exists_of_bindAll_error [] targets (Nat.zero_le _) h
    have hle := length_variableKeys_concat_le before target
    rw [List.nil_append] at hbefore hfull
    exact ⟨before, target, after, rfl, by omega, by omega, rfl⟩
  · rintro ⟨before, target, after, rfl, hbefore, hfull, rfl⟩
    have hbound : bindAll {} before = .ok ⟨variableKeys before⟩ :=
      bindAll_eq_ok_iff.mpr ⟨rfl, hbefore.le⟩
    have hfail : ¬ (variableKeys (before ++ [target])).length ≤ ramSize := by omega
    rw [bindAll_append, hbound]
    simp only [bindAll, bind_variableKeys target hbefore.le, if_neg hfail]

-- ---------------------------------------------------------------------------
-- The addresses of targets that fit
-- ---------------------------------------------------------------------------

theorem afterRequests_eq (hfit : (variableKeys names).length ≤ ramSize) :
    afterRequests names = ⟨variableKeys names⟩ := by
  have hsymbols := symbols_afterRequests names
  rw [List.take_of_length_le hfit] at hsymbols
  rw [← hsymbols]

/-- Binding all targets leaves the map that requests for them leave. -/
theorem eq_afterRequests (h : bindAll {} targets = .ok m) : m = afterRequests targets := by
  obtain ⟨hsymbols, hfit⟩ := bindAll_eq_ok_iff.mp h
  rw [afterRequests_eq hfit, ← hsymbols]

theorem exists_get? (hfit : (variableKeys names).length ≤ ramSize) (hmem : name ∈ names)
    (hname : isAddress name = false) :
    ∃ address, (afterRequests names).get? name = some address ∧ address < 0x100 := by
  refine ⟨addressOf (variableKeys names) name, ?_, addressOf_lt hmem hname hfit⟩
  rw [afterRequests_eq hfit, get?, addressOf]
  cases htia : tiaRegisters.lookup (symbolKey name) with
  | some address => rfl
  | none =>
    have hvar : isVariable name := by simp [isVariable, hname, htia]
    simp [idxOf?_of_mem (mem_variableKeys hmem hvar)]

theorem operand_of_get? {m : AddressMap} (hname : isAddress name = false)
    (h : m.get? name = some address) : m.operand name = addressText address := by
  simp [operand, hname, h]

theorem addressText_inj {n n' : Nat} (h : n < 0x100) (h' : n' < 0x100) :
    addressText n = addressText n' ↔ n = n' := by
  constructor
  · intro heq
    have hread := Listing.readAddress_addressText h
    rw [heq, Listing.readAddress_addressText h'] at hread
    exact (Option.some.inj hread).symm
  · rintro rfl
    rfl

theorem operand_eq_iff (hfit : (variableKeys names).length ≤ ramSize)
    (hmem : name ∈ names) (hname : isAddress name = false)
    (hmem' : name' ∈ names) (hname' : isAddress name' = false) :
    (afterRequests names).operand name = (afterRequests names).operand name' ↔
      symbolKey name = symbolKey name' := by
  obtain ⟨address, hget, hlt⟩ := exists_get? hfit hmem hname
  obtain ⟨address', hget', hlt'⟩ := exists_get? hfit hmem' hname'
  rw [operand_of_get? hname hget, operand_of_get? hname' hget', addressText_inj hlt hlt']
  constructor
  · rintro rfl
    exact symbolKey_of_get? hget hget'
  · intro hkey
    -- an address is looked up by the key alone
    have hsame : (afterRequests names).get? name = (afterRequests names).get? name' := by
      rw [get?, get?, hkey]
    rw [hget, hget'] at hsame
    exact Option.some.inj hsame

/-- The answer to a request is the operand that the target has in the end. -/
theorem request_operand (hfit : (variableKeys (before ++ target :: after)).length ≤ ramSize) :
    ((afterRequests before).request target).1 =
      .ok ((afterRequests (before ++ target :: after)).operand target) := by
  cases hname : isAddress target with
  | true => simp [request_address _ hname, operand, hname]
  | false =>
    have hsplit : before ++ target :: after = before ++ [target] ++ after :=
      List.append_cons before target after
    have hle := length_variableKeys_le (before ++ [target]) after
    rw [← hsplit] at hle
    have hmem : target ∈ before ++ [target] := by simp
    obtain ⟨address, hget, -⟩ := exists_get? (hle.trans hfit) hmem hname
    rw [hsplit, operand_of_get? hname (get?_later hget after)]
    rw [afterRequests_concat] at hget
    cases hanswer : ((afterRequests before).request target).1 with
    | ok text =>
      obtain ⟨address', hget', rfl⟩ := request_ok hname hanswer
      rw [hget] at hget'
      rw [Option.some.inj hget']
    | error e =>
      -- a failed request leaves its target without an address
      obtain ⟨-, hnew, -, hfull⟩ := request_error_iff.mp hanswer
      rw [request_full hname hnew hfull, hnew] at hget
      cases hget

end AddressMap

-- ---------------------------------------------------------------------------
-- Programs
-- ---------------------------------------------------------------------------

theorem lower_eq_error_iff {p : Flat.Program} :
    lower p = .error e ↔ AddressMap.bindAll {} p.targets = .error e := by
  unfold lower
  split
  · next m hm => simp [hm]
  · next e' he' => simp [he']

/-- A lowered program is made under the map that requests for its targets leave. -/
theorem eq_ofModules_of_lower (h : lower p = .ok q) :
    q = .ofModules p.sourceFile
      (p.modules.map (Module.map (lowerRoutine (AddressMap.afterRequests p.targets)))) := by
  unfold lower at h
  split at h
  · next m hm =>
    obtain rfl := AddressMap.eq_afterRequests hm
    exact (Except.ok.inj h).symm
  · cases h

/-- Lowering fails exactly if the targets of the program have more than 128 variables, and names
the target, as it is spelled, that is the first to bring in the 129th. Else it keeps the names and
the order of modules and routines and puts the counterpart of each instruction in its place.
Targets written as addresses stand for themselves, two other targets have the same address exactly
if they are equal but for case, and each has the address that a request for it is answered with
after those for all targets before it. The stream is all routines in order, each behind its
label. -/
theorem lower_counterparts (p : Flat.Program) :
    ((∃ e, lower p = .error e) ↔ 128 < (variableKeys p.targets).length) ∧
    (∀ e, lower p = .error e ↔
      ∃ before target after, p.targets = before ++ target :: after ∧
        (variableKeys before).length = 128 ∧
        (variableKeys (before ++ [target])).length = 129 ∧ e = ⟨target⟩) ∧
    ∀ q, lower p = .ok q →
      q.sourceFile = p.sourceFile ∧
      (∃ address : String → String,
        List.Forall₂ (fun m m' => m'.name = m.name ∧
          List.Forall₂ (fun r r' => r'.name = r.name ∧ Counterpart address r.instrs r'.instrs)
            m.routines m'.routines) p.modules q.modules ∧
        (∀ target ∈ p.targets, isAddress target → address target = target) ∧
        (∀ target ∈ p.targets, ∀ target' ∈ p.targets,
          isAddress target = false → isAddress target' = false →
          (address target = address target' ↔ symbolKey target = symbolKey target')) ∧
        ∀ before target after, p.targets = before ++ target :: after →
          ((AddressMap.afterRequests before).request target).1 = .ok (address target)) ∧
      q.stream = q.modules.flatMap fun m =>
        m.routines.flatMap fun r => .label r.name :: r.instrs := by
  refine ⟨?_, fun e => ?_, fun q hq => ?_⟩
  · rw [← Nat.not_le]
    change _ ↔ ¬ (variableKeys p.targets).length ≤ ramSize
    rw [← exists_lower_iff]
    cases lower p <;> simp
  · rw [lower_eq_error_iff, AddressMap.bindAll_eq_error_iff]
    rfl
  · have hfit := exists_lower_iff.mp ⟨q, hq⟩
    obtain rfl := eq_ofModules_of_lower hq
    refine ⟨rfl, ⟨(AddressMap.afterRequests p.targets).operand, ?_, ?_, ?_, ?_⟩, ?_⟩
    · refine List.forall₂_map_right_iff.mpr (List.forall₂_same.mpr fun m _ => ⟨rfl, ?_⟩)
      refine List.forall₂_map_right_iff.mpr (List.forall₂_same.mpr fun r _ => ⟨rfl, ?_⟩)
      exact counterpart_lowerInstr _ r.instrs
    · intro target _ haddress
      simp [AddressMap.operand, haddress]
    · intro target hmem target' hmem' hname hname'
      exact AddressMap.operand_eq_iff hfit hmem hname hmem' hname'
    · intro before target after htargets
      rw [htargets] at hfit ⊢
      exact AddressMap.request_operand hfit
    · simp only [Program.ofModules, Module.allRoutines, List.flatMap_assoc]
      rfl

end Cartridge.Register
