import Mathlib.Logic.Function.Basic
import Mathlib.Tactic.SplitIfs
import Cartridge.Files.FileSystem

/-!
# Writing files

A write changes what stands at one place and nothing else, and every path
leads where it led before. Whatever contains something is a directory, so a new
entry might bring directories into being on the way to it. It does not, because
a path can be followed only through directories that are there: something
stands already everywhere above a place that was reached.
-/

namespace Cartridge.FileSystem

variable {fs fs' : FileSystem} {place reached : Place} {path : String} {bytes : List UInt8}

-- ---------------------------------------------------------------------------
-- Following components
-- ---------------------------------------------------------------------------

/-- Where a component leads from a directory, if it is not too long. -/
def enter? (place : Place) (part : String) : Option Place :=
  if Path.isIdle part then some place
  else if part == ".." then some place.dropLast
  else if nameLimit < part.utf8ByteSize then none
  else some (place ++ [part])

/-- Every component is looked up in a directory, and leads where `enter?` says. -/
theorem follow_cons_eq_ok_iff {part : String} {rest : List String} :
    fs.follow place (part :: rest) = .ok reached ↔
      fs.at? place = some .directory ∧
        ∃ next, enter? place part = some next ∧ fs.follow next rest = .ok reached := by
  rw [follow]
  cases hat : fs.at? place with
  | none => simp
  | some node =>
    cases node with
    | file _ => simp
    | directory =>
      simp only [enter?, true_and]
      split_ifs <;> simp

theorem follow_append_eq_ok_iff {front rest : List String} :
    fs.follow place (front ++ rest) = .ok reached ↔
      ∃ next, fs.follow place front = .ok next ∧ fs.follow next rest = .ok reached := by
  induction front generalizing place with
  | nil => simp [follow]
  | cons part front ih =>
    simp only [List.cons_append, follow_cons_eq_ok_iff, ih]
    grind

/-- File systems with the same directories follow components to the same places. -/
theorem follow_congr {components : List String}
    (h : ∀ p, fs'.at? p = some .directory ↔ fs.at? p = some .directory) :
    fs'.follow place components = .ok reached ↔ fs.follow place components = .ok reached := by
  induction components generalizing place with
  | nil => simp [follow]
  | cons part rest ih => simp only [follow_cons_eq_ok_iff, h, ih]

-- ---------------------------------------------------------------------------
-- What stands above a place
-- ---------------------------------------------------------------------------

/-- Something stands at the working directory, at every entry and above them, and nowhere else. -/
theorem isSome_at?_iff :
    (fs.at? place).isSome ↔ place <+: fs.workDir ∨ ∃ e ∈ fs.entries, place <+: e.1 := by
  rw [at?]
  split
  next node hlookup =>
    have hmem := List.lookup_eq_some_iff.1 hlookup
    grind
  next => split_ifs with h <;> simpa using h

/-- Something stands everywhere above a place. -/
def Reachable (fs : FileSystem) (place : Place) : Prop :=
  ∀ above, above <+: place → above ≠ place → (fs.at? above).isSome

theorem Reachable.enter {part : String} (h : fs.Reachable place)
    (hat : fs.at? place = some .directory) (henter : enter? place part = some reached) :
    fs.Reachable reached := by
  simp only [enter?] at henter
  split_ifs at henter
  case pos => simpa [← Option.some.inj henter] using h
  case pos =>
    obtain rfl := Option.some.inj henter
    intro above habove hne
    refine h above (habove.trans (List.dropLast_prefix _)) ?_
    rintro rfl
    exact hne (habove.eq_of_length_le (by simp))
  case neg =>
    obtain rfl := Option.some.inj henter
    intro above habove hne
    obtain heq | habove := List.prefix_concat_iff.1 habove
    · exact absurd heq hne
    · by_cases heq : above = place
      · simp [heq, hat]
      · exact h above habove heq

theorem Reachable.follow {components : List String} (h : fs.Reachable place)
    (hfollow : fs.follow place components = .ok reached) : fs.Reachable reached := by
  induction components generalizing place with
  | nil =>
    rw [FileSystem.follow] at hfollow
    exact Except.ok.inj hfollow ▸ h
  | cons part rest ih =>
    obtain ⟨hat, next, henter, hrest⟩ := follow_cons_eq_ok_iff.1 hfollow
    exact ih (h.enter hat henter) hrest

theorem reachable_start (fs : FileSystem) (path : String) : fs.Reachable (fs.start path) := by
  intro above habove _
  refine isSome_at?_iff.2 (.inl ?_)
  rw [start] at habove
  split_ifs at habove
  · simp [List.prefix_nil.1 habove]
  · exact habove

theorem place_eq_ok_iff :
    fs.place path = .ok place ↔
      pathError? path = none ∧ fs.follow (fs.start path) (Path.parts path) = .ok place := by
  rw [FileSystem.place, followPath]
  cases pathError? path <;> simp

theorem reachable_of_place (h : fs.place path = .ok place) : fs.Reachable place :=
  (reachable_start fs path).follow (place_eq_ok_iff.1 h).2

-- ---------------------------------------------------------------------------
-- Writing
-- ---------------------------------------------------------------------------

theorem at?_insert (h : fs.Reachable place) (node : Node) :
    (fs.insert place node).at? = Function.update fs.at? place (some node) := by
  funext other
  rw [Function.update_apply]
  split_ifs with hother
  · simp [at?, insert, hother]
  · have hbeq : (other == place) = false := beq_false_of_ne hother
    simp only [at?, insert, List.lookup_cons, hbeq, List.any_cons]
    cases hlookup : fs.entries.lookup other with
    | some node => rfl
    | none =>
      -- An entry below `other` makes it a directory, but then it is one already.
      by_cases habove : other <+: place
      · have hsome := h other habove hother
        simp only [at?, hlookup] at hsome
        grind
      · have hnot : other.isPrefixOf place = false :=
          Bool.eq_false_iff.2 (mt List.isPrefixOf_iff_prefix.1 habove)
        simp only [hnot, Bool.false_or]

theorem read_eq_ok_iff :
    fs.read path = .ok bytes ↔
      ∃ place, fs.place path = .ok place ∧ fs.at? place = some (.file bytes) := by
  rw [read]
  cases hplace : fs.place path with
  | error e => simp
  | ok place =>
    cases hat : fs.at? place with
    | none => simp [hat]
    | some node => cases node <;> simp [hat]

theorem place_of_placeToWrite (h : fs.placeToWrite path = .ok place) :
    fs.place path = .ok place := by
  rw [placeToWrite] at h
  split_ifs at h
  · split at h <;> cases h
  · exact h

theorem exists_of_write (h : fs.write path bytes = .ok fs') :
    ∃ place, fs.place path = .ok place ∧ fs.at? place ≠ some .directory ∧
      fs' = fs.insert place (.file bytes) := by
  rw [write] at h
  cases hplace : fs.placeToWrite path with
  | error e => simp [hplace] at h
  | ok place =>
    simp only [hplace] at h
    split at h
    next => cases h
    next hat => exact ⟨place, place_of_placeToWrite hplace, hat, (Except.ok.inj h).symm⟩

/-- `after` is `before` but for the file that `path` names, which holds `bytes`. -/
structure Wrote (before : FileSystem) (path : String) (bytes : List UInt8)
    (after : FileSystem) : Prop where
  workDir : after.workDir = before.workDir
  place : ∀ q p, after.place q = .ok p ↔ before.place q = .ok p
  node : ∃ p, before.place path = .ok p ∧
    after.at? = Function.update before.at? p (some (.file bytes))
  read : after.read path = .ok bytes

/-- A write does one thing. -/
theorem wrote_of_write (h : fs.write path bytes = .ok fs') : fs.Wrote path bytes fs' := by
  obtain ⟨place, hplace, hat, rfl⟩ := exists_of_write h
  have hnode := at?_insert (reachable_of_place hplace) (.file bytes)
  -- Where the file stands now, there was no directory before.
  have hdirectory (p : Place) : (fs.insert place (.file bytes)).at? p = some .directory ↔
      fs.at? p = some .directory := by
    rw [hnode, Function.update_apply]
    split_ifs with hp
    · simp [hp, hat]
    · rfl
  have hplaces (q : String) (p : Place) :
      (fs.insert place (.file bytes)).place q = .ok p ↔ fs.place q = .ok p := by
    rw [place_eq_ok_iff, place_eq_ok_iff]
    exact and_congr_right fun _ => follow_congr hdirectory
  have hread : (fs.insert place (.file bytes)).read path = .ok bytes :=
    read_eq_ok_iff.2 ⟨place, (hplaces _ _).2 hplace, by rw [hnode, Function.update_self]⟩
  exact ⟨rfl, hplaces, ⟨place, hplace, hnode⟩, hread⟩

/-- What another path names reads as before. -/
theorem Wrote.read_of_ne {other : String} {held : List UInt8} (h : fs.Wrote path bytes fs')
    (hne : fs.place other ≠ fs.place path) (hread : fs.read other = .ok held) :
    fs'.read other = .ok held := by
  obtain ⟨place, hplace, hnode⟩ := h.node
  obtain ⟨at', hat', hfile⟩ := read_eq_ok_iff.1 hread
  refine read_eq_ok_iff.2 ⟨at', (h.place _ _).2 hat', ?_⟩
  have hplaces : at' ≠ place := by
    rintro rfl
    exact hne (hat'.trans hplace.symm)
  rw [hnode, Function.update_of_ne hplaces, hfile]

end Cartridge.FileSystem
