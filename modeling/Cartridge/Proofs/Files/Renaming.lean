import Cartridge.Proofs.Files.Writing

/-!
# Files beside files

A path and the same path with another extension name different places,
whenever the path names a file. What could go wrong is in the paths that are no
plain names: components behind the file name ask for a directory there, and a
stem that is a single dot makes the new path end in `..`.
-/

namespace Cartridge

namespace Path

variable {path name stem ext : String} {before : List String}

-- ---------------------------------------------------------------------------
-- Components
-- ---------------------------------------------------------------------------

theorem splitOn_cons_slash (c : Char) (cs : List Char) :
    ∃ first rest, cs.splitOn '/' = first :: rest ∧
      (c :: cs).splitOn '/' = if c = '/' then [] :: first :: rest else (c :: first) :: rest := by
  cases hpieces : cs.splitOn '/' with
  | nil => exact absurd hpieces (List.splitOn_ne_nil _ _)
  | cons first rest =>
    exact ⟨first, rest, rfl, by simp [List.splitOn_cons_eq_if_modifyHead, hpieces]⟩

theorem not_mem_of_mem_splitOn {cs piece : List Char} (h : piece ∈ cs.splitOn '/') :
    '/' ∉ piece := by
  induction cs generalizing piece with
  | nil => simp_all
  | cons c cs ih =>
    obtain ⟨first, rest, hpieces, hcons⟩ := splitOn_cons_slash c cs
    rw [hpieces] at ih
    rw [hcons] at h
    split_ifs at h with hc
    · obtain rfl | h := List.mem_cons.1 h
      · simp
      · exact ih h
    · obtain rfl | h := List.mem_cons.1 h
      · exact List.not_mem_cons_of_ne_of_not_mem (Ne.symm hc) (ih List.mem_cons_self)
      · exact ih (List.mem_cons_of_mem _ h)

/-- No component holds a slash. -/
theorem not_mem_part (path : String) {part : String} (h : part ∈ parts path) :
    '/' ∉ part.toList := by
  obtain ⟨piece, hpiece, rfl⟩ := List.mem_map.1 h
  simpa using not_mem_of_mem_splitOn hpiece

/-- Components without slashes can be found again in the path they make. -/
theorem parts_intercalate {components : List String} (hne : components ≠ [])
    (h : ∀ part ∈ components, '/' ∉ part.toList) :
    parts ("/".intercalate components) = components := by
  have hslash : ∀ piece ∈ components.map String.toList, '/' ∉ piece := by simpa using h
  rw [parts, String.toList_intercalate]
  change (List.splitOn '/' (['/'].intercalate _)).map String.ofList = _
  rw [List.splitOn_intercalate _ hslash (by simpa using hne)]
  simp [Function.comp_def]

/-- Whether a path starts at the root is seen in front of its last component. -/
theorem head?_eq_slash_iff {last : String} (h : parts path = before ++ [last]) :
    path.toList.head? = some '/' ↔ before.head? = some "" := by
  rw [parts] at h
  cases hpath : path.toList with
  | nil => cases before <;> simp_all
  | cons c cs =>
    obtain ⟨first, rest, -, hcons⟩ := splitOn_cons_slash c cs
    rw [hpath, hcons] at h
    cases before with
    | nil => split_ifs at h with hc <;> simp_all
    | cons part before =>
      split_ifs at h with hc
      · simp_all
      · have hpart : String.ofList (c :: first) = part := (List.cons.inj h).1
        simp [← hpart, hc]

-- ---------------------------------------------------------------------------
-- File names
-- ---------------------------------------------------------------------------

/-- A file name is followed by components that do not count. -/
theorem exists_of_lastName? {back : List String} (h : lastName? back = some (name, before)) :
    ∃ idle, back = idle ++ name :: before ∧ (∀ part ∈ idle, isIdle part) ∧
      isIdle name = false ∧ name ≠ ".." := by
  fun_induction lastName? back with
  | case1 => cases h
  | case2 => cases h
  | case3 => exact ⟨[], by grind⟩
  | case4 part rest _ hidle ih =>
    obtain ⟨idle, rfl, hall, hname⟩ := ih h
    exact ⟨part :: idle, rfl, by simpa [hidle] using hall, hname⟩
  | case5 => cases h
  | case6 => exact ⟨[], by grind⟩

/-- A name with an extension is its stem, a dot and the extension. -/
theorem eq_of_splitName (h : splitName name = (stem, some ext)) : name = stem ++ "." ++ ext := by
  have hback := List.takeWhile_append_dropWhile (p := (· != '.')) (l := name.toList.reverse)
  have hhead := List.head?_dropWhile_not (· != '.') name.toList.reverse
  simp only [splitName] at h
  split at h
  next => cases h
  next => cases h
  next dot back _ hdrop =>
    obtain ⟨rfl, hext⟩ := Prod.mk.inj h
    obtain rfl := Option.some.inj hext
    have hdot : dot = '.' := by simpa [hdrop] using hhead
    rw [hdrop, hdot] at hback
    have hname := congrArg List.reverse hback
    exact String.toList_inj.1 (by simpa using hname.symm)

/-- A path with an extension has a file name with that extension. -/
theorem exists_of_extension (h : extension path ≠ "") :
    ∃ name before stem old, lastName? (parts path).reverse = some (name, before) ∧
      splitName name = (stem, some old) ∧ extension path = "." ++ old := by
  rw [extension, fileName?] at h ⊢
  cases hlast : lastName? (parts path).reverse with
  | none => simp [hlast] at h
  | some last =>
    obtain ⟨name, before⟩ := last
    rcases hsplit : splitName name with ⟨stem, _ | old⟩
    · simp [hlast, hsplit] at h
    · exact ⟨name, before, stem, old, rfl, hsplit, by simp [hsplit]⟩

/-- The path with another extension differs in its last component only. -/
theorem parts_withExtension {front : List String} {old : String}
    (hparts : parts path = front ++ [name]) (hidle : isIdle name = false) (hup : name ≠ "..")
    (hsplit : splitName name = (stem, some old)) (hslash : '/' ∉ ext.toList) :
    parts (withExtension path ext) =
      front ++ [if stem = "." then ".." else stem ++ "." ++ ext] := by
  have hname : '/' ∉ name.toList := not_mem_part path (by simp [hparts])
  have hlast : lastName? (parts path).reverse = some (name, front.reverse) := by
    rw [hparts, List.reverse_append, List.reverse_singleton, List.singleton_append]
    cases front.reverse <;> simp [lastName?, hidle, hup]
  have hpath : withExtension path ext =
      "/".intercalate (front ++ [if stem = "." then ".." else stem ++ "." ++ ext]) := by
    rw [withExtension, hlast]
    simp [hsplit, hparts]
  rw [hpath]
  refine parts_intercalate (by simp) fun part hpart => ?_
  obtain hpart | hpart := List.mem_append.1 hpart
  · exact not_mem_part path (by simp [hparts, hpart])
  · rw [eq_of_splitName hsplit] at hname
    obtain rfl := List.mem_singleton.1 hpart
    split_ifs <;> simp_all

end Path

namespace FileSystem

variable {fs : FileSystem} {place reached : Place} {path name ext : String} {bytes : List UInt8}

theorem enter?_name (hidle : Path.isIdle name = false) (hup : name ≠ "..")
    (h : enter? place name = some reached) : reached = place ++ [name] := by
  simp only [enter?, hidle, Bool.false_eq_true, if_false, beq_iff_eq, hup] at h
  split_ifs at h
  exact (Option.some.inj h).symm

/-- Only its own name leads down to a place. -/
theorem eq_of_enter? {part : String} (h : enter? place part = some (place ++ [name])) :
    part = name := by
  simp only [enter?] at h
  split_ifs at h
  · simp at h
  · have hlength := congrArg List.length (Option.some.inj h)
    simp at hlength
  · simpa using h

/-- Idle components lead nowhere, but only a directory has them. -/
theorem follow_idle {idle : List String} (hidle : ∀ part ∈ idle, Path.isIdle part)
    (h : fs.follow place idle = .ok reached) :
    reached = place ∧ (idle = [] ∨ fs.at? place = some .directory) := by
  induction idle with
  | nil => exact ⟨(Except.ok.inj h).symm, .inl rfl⟩
  | cons part rest ih =>
    obtain ⟨hat, next, henter, hrest⟩ := follow_cons_eq_ok_iff.1 h
    simp only [enter?, hidle part List.mem_cons_self, if_true] at henter
    obtain rfl := Option.some.inj henter
    exact ⟨(ih (fun p hp => hidle p (List.mem_cons_of_mem _ hp)) hrest).1, .inr hat⟩

/-- A path that names a file ends in its name, in a directory. -/
theorem exists_of_read {before : List String} (hread : fs.read path = .ok bytes)
    (hlast : Path.lastName? (Path.parts path).reverse = some (name, before)) :
    Path.parts path = before.reverse ++ [name] ∧
      ∃ dir, fs.follow (fs.start path) before.reverse = .ok dir ∧
        fs.place path = .ok (dir ++ [name]) := by
  obtain ⟨idle, hback, hidle, hname, hup⟩ := Path.exists_of_lastName? hlast
  obtain ⟨place, hplace, hfile⟩ := read_eq_ok_iff.1 hread
  have hparts : Path.parts path = before.reverse ++ name :: idle.reverse := by
    simpa using congrArg List.reverse hback
  obtain ⟨-, hfollow⟩ := place_eq_ok_iff.1 hplace
  rw [hparts] at hfollow
  obtain ⟨dir, hdir, hfollow⟩ := follow_append_eq_ok_iff.1 hfollow
  obtain ⟨-, next, henter, hfollow⟩ := follow_cons_eq_ok_iff.1 hfollow
  obtain rfl := enter?_name hname hup henter
  -- Anything behind the name would ask for a directory where the file is.
  obtain ⟨rfl, hnone | hat⟩ := follow_idle (by simpa using hidle) hfollow
  · rw [hnone] at hparts
    exact ⟨hparts, dir, hdir, hplace⟩
  · simp [hat] at hfile

/-- A file and the path with another extension are not at the same place. -/
theorem place_withExtension_ne (hread : fs.read path = .ok bytes)
    (hold : Path.extension path ≠ "") (hne : Path.extension path ≠ "." ++ ext)
    (hslash : '/' ∉ ext.toList) :
    fs.place path ≠ fs.place (Path.withExtension path ext) := by
  obtain ⟨name, before, stem, old, hlast, hsplit, hextension⟩ := Path.exists_of_extension hold
  obtain ⟨-, -, -, hidle, hup⟩ := Path.exists_of_lastName? hlast
  obtain ⟨hparts, dir, hdir, hplace⟩ := exists_of_read hread hlast
  have hrenamed := Path.parts_withExtension hparts hidle hup hsplit hslash
  have hstart : fs.start (Path.withExtension path ext) = fs.start path := by
    simp only [start, beq_iff_eq, Path.head?_eq_slash_iff hparts,
      Path.head?_eq_slash_iff hrenamed]
  intro heq
  -- Both paths go through `dir`, so the new last component would have to be the old one.
  obtain ⟨-, hfollow⟩ := place_eq_ok_iff.1 (heq.symm.trans hplace)
  rw [hstart, hrenamed] at hfollow
  obtain ⟨dir', hdir', hfollow⟩ := follow_append_eq_ok_iff.1 hfollow
  obtain rfl := Except.ok.inj (hdir.symm.trans hdir')
  obtain ⟨-, next, henter, hnext⟩ := follow_cons_eq_ok_iff.1 hfollow
  obtain rfl := Except.ok.inj hnext
  have hname := eq_of_enter? henter
  split_ifs at hname
  · exact hup hname.symm
  · rw [Path.eq_of_splitName hsplit] at hname
    refine hne ?_
    rw [hextension]
    simpa [String.append_assoc] using hname.symm

end FileSystem

end Cartridge
