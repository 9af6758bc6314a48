/-!
# Paths

Paths as text, with `/` between components. Empty components and `.`
do not count, except for a leading one; the file name is the last component
that counts, if it is a name at all.
-/

namespace Cartridge.Path

/-- The texts between slashes. -/
def parts (path : String) : List String :=
  (path.toList.splitOn '/').map String.ofList

/-- The components before the last one that is not empty, and an empty one
that asks for a directory there. -/
def parentParts (path : String) : List String :=
  ((parts path).reverse.dropWhile (· == "")).tail.reverse ++ [""]

/-- Whether a component, other than a leading one, is no step at all. -/
def isIdle (part : String) : Bool :=
  part == "" || part == "."

/-- The last name among components that are given last first, and what stands before it. -/
def lastName? : List String → Option (String × List String)
  | [] => none
  | [part] => if isIdle part || part == ".." then none else some (part, [])
  | part :: before =>
    if isIdle part then lastName? before
    else if part == ".." then none
    else some (part, before)

/-- The file name of a path, if it has one. -/
def fileName? (path : String) : Option String :=
  (lastName? (parts path).reverse).map (·.1)

/-- A file name as its stem and its extension. A dot that leads the name starts no extension. -/
def splitName (name : String) : String × Option String :=
  let back := name.toList.reverse
  match back.dropWhile (· != '.') with
  | [] => (name, none)
  | [_] => (name, none)
  | _ :: stem =>
    (String.ofList stem.reverse, some (String.ofList (back.takeWhile (· != '.')).reverse))

/-- The extension of a path with its dot, or nothing. -/
def extension (path : String) : String :=
  match (fileName? path).map splitName with
  | some (_, some ext) => "." ++ ext
  | _ => ""

/-- The path with another extension, cut after its file name; without a file name it stays.
The old extension goes first: where a path ends in a single dot and its extension, that leaves
`..`, which is no name to extend. -/
def withExtension (path ext : String) : String :=
  match lastName? (parts path).reverse with
  | none => path
  | some (name, before) =>
    let stem := (splitName name).1
    let renamed :=
      if stem == "." && (parts path).getLast? == some name then ".." else stem ++ "." ++ ext
    "/".intercalate (renamed :: before).reverse

/-- The path of `name` within the directory `dir`. -/
def join (dir name : String) : String :=
  if dir == "" then name
  else if dir.toList.getLast? == some '/' then dir ++ name
  else dir ++ "/" ++ name

/-- Components, last first, without idle ones at their end; a leading one stays. -/
def dropIdle : List String → List String
  | part :: next :: before =>
    if isIdle part then dropIdle (next :: before) else part :: next :: before
  | parts => parts

/-- The directory that components, last first, lead to. -/
def directory (before : List String) : String :=
  match dropIdle before with
  | [""] => "/"
  | rest => "/".intercalate rest.reverse

/-- The path of a file `name` beside the file of `path`. -/
def withFileName (path name : String) : String :=
  match lastName? (parts path).reverse with
  | none => join path name
  | some (_, before) => join (directory before) name

end Cartridge.Path
