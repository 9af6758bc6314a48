import Cartridge.Files.FileSystem
import Cartridge.Options
import Cartridge.Project.Document

/-!
# Project files

A project file sets some of the options of a compilation. Every key may be
left out, none may be unknown or repeated, and null is the same as nothing for
every key but `extensions`. An array gives the values in the order of the keys.
A choice is written by its exact name, or as an object with that name for its
only key and null for its value.
-/

namespace Cartridge

structure ProjectFile where
  profile? : Option String := none
  enforcement? : Option Enforcement := none
  extensions : List String := []
  target? : Option Target := none
  optLevel? : Option OptLevel := none
deriving DecidableEq, Repr, Inhabited

inductive ProjectError where
  | unreadable (path : String) (cause : FileError)
  | malformed (path : String)
  | profile (cause : UnknownTier)
deriving DecidableEq, Repr

/-- The message; what is wrong with a malformed file is not said. -/
def ProjectError.message : ProjectError → String
  | unreadable path cause => s!"cannot read project file '{path}': {cause.message}"
  | malformed path => s!"invalid project file '{path}': "
  | profile cause => s!"invalid profile in project file: {cause.message}"

namespace Project

open Document (str arr obj)

/-- A text or nothing. -/
def optionalText : Document → Option (Option String)
  | .null => some none
  | .str s => some (some s)
  | _ => none

/-- Texts. -/
def texts : Document → Option (List String)
  | .arr items => items.mapM fun
    | .str s => some s
    | _ => none
  | _ => none

/-- A choice among `values`, or nothing. -/
def optionalChoice {α : Type} (values : List α) (id : α → String) :
    Document → Option (Option α)
  | .null => some none
  | .str s => (values.find? fun v => id v == s).map some
  | .obj [(s, .null)] => (values.find? fun v => id v == s).map some
  | _ => none

/-- The value of a key; `missing` if the key is left out. -/
def field {α : Type} (members : List (String × Document)) (key : String)
    (decode : Document → Option α) (missing : α) : Option α :=
  match members.lookup key with
  | none => some missing
  | some d => decode d

end Project

namespace ProjectFile

/-- The name of a project file that lies beside a source. -/
def fileName : String := "gamevm.json"

/-- The keys, in the order in which an array gives their values. -/
def keys : List String := ["profile", "enforcement", "extensions", "target", "opt_level"]

/-- The project file with these members. -/
def ofMembers (members : List (String × Project.Document)) : Option ProjectFile :=
  let given := members.map (·.1)
  if given.all keys.contains && decide given.Nodup then do
    return {
      profile? := ← Project.field members "profile" Project.optionalText none
      enforcement? := ← Project.field members "enforcement"
        (Project.optionalChoice Enforcement.all Enforcement.id) none
      extensions := ← Project.field members "extensions" Project.texts []
      target? := ← Project.field members "target"
        (Project.optionalChoice Target.all Target.id) none
      optLevel? := ← Project.field members "opt_level"
        (Project.optionalChoice OptLevel.all OptLevel.id) none }
  else none

/-- The project file that a document is. -/
def ofDocument : Project.Document → Option ProjectFile
  | .obj members => ofMembers members
  | .arr items => if items.length ≤ keys.length then ofMembers (keys.zip items) else none
  | _ => none

/-- The project file that a text spells; `path` is where the text is from. -/
def ofText (text path : String) : Except ProjectError ProjectFile :=
  match (Project.Document.read? text).bind ofDocument with
  | some p => .ok p
  | none => .error (.malformed path)

/-- Reads a project file. -/
def load (fs : FileSystem) (path : String) : Except ProjectError ProjectFile :=
  match fs.readText path with
  | .ok text => ofText text path
  | .error e => .error (.unreadable path e)

/-- Writes the settings of a project file over the options, one after another. Extensions are
added, everything else replaced. A profile that names no tier ends it, with the options as they
are by then. -/
def write (p : ProjectFile) : ExceptT ProjectError (StateM CompileOptions) Unit := do
  if let some profile := p.profile? then
    match Tier.read profile with
    | .ok tier => modify fun options => { options with tier }
    | .error e => throw (.profile e)
  if let some enforcement := p.enforcement? then
    modify fun options => { options with enforcement }
  if let some target := p.target? then
    modify fun options => { options with target }
  if let some level := p.optLevel? then
    modify (·.withLevel level)
  modify (·.addExtensions p.extensions)

/-- The options with the settings of a project file on top, if all could be written. -/
def apply (p : ProjectFile) (options : CompileOptions) : Except ProjectError CompileOptions :=
  match p.write.run.run options with
  | (.ok (), options) => .ok options
  | (.error e, _) => .error e

end ProjectFile

end Cartridge
