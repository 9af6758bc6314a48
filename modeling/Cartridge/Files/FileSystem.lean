import Cartridge.Files.Path

/-!
# File systems

A directory tree as a finite map from places to contents, with reading and
writing as pure functions. A place is the list of names that lead to it from
the root, which is itself the empty list. Whatever contains something is a
directory; so are the root and the working directory.
-/

namespace Cartridge

inductive FileError where
  | notFound
  | notDirectory
  | isDirectory
  | nameTooLong
  | nulInName
  | notUtf8
deriving DecidableEq, Repr

def FileError.message : FileError → String
  | notFound => "No such file or directory (os error 2)"
  | notDirectory => "Not a directory (os error 20)"
  | isDirectory => "Is a directory (os error 21)"
  | nameTooLong => "File name too long (os error 36)"
  | nulInName => "file name contained an unexpected NUL byte"
  | notUtf8 => "stream did not contain valid UTF-8"

/-- What stands at a place. -/
inductive Node where
  | file (bytes : List UInt8)
  | directory
deriving DecidableEq, Repr

abbrev Place := List String

structure FileSystem where
  /-- Where relative paths start. -/
  workDir : Place
  entries : List (Place × Node) := []
deriving DecidableEq, Repr

namespace FileSystem

/-- What stands at a place; entries in front count before those behind them. -/
def at? (fs : FileSystem) (place : Place) : Option Node :=
  match fs.entries.lookup place with
  | some node => some node
  | none =>
    if place.isPrefixOf fs.workDir || fs.entries.any (fun e => place.isPrefixOf e.1) then
      some .directory
    else none

/-- Puts a node at a place. -/
def insert (fs : FileSystem) (place : Place) (node : Node) : FileSystem :=
  { fs with entries := (place, node) :: fs.entries }

/-- The most bytes that a component of a path may have. -/
def nameLimit : Nat := 255

/-- The most bytes that a path may have. -/
def pathLimit : Nat := 4095

/-- Follows components from a place. Everything on the way has to be a
directory, and a name is measured when it is looked up in one. -/
def follow (fs : FileSystem) (place : Place) : List String → Except FileError Place
  | [] => .ok place
  | part :: rest =>
    match fs.at? place with
    | none => .error .notFound
    | some (.file _) => .error .notDirectory
    | some .directory =>
      if Path.isIdle part then fs.follow place rest
      else if part == ".." then fs.follow place.dropLast rest
      else if nameLimit < part.utf8ByteSize then .error .nameTooLong
      else fs.follow (place ++ [part]) rest

/-- Where a path starts: at the root if a slash leads it. -/
def start (fs : FileSystem) (path : String) : Place :=
  if path.toList.head? == some '/' then [] else fs.workDir

/-- What is wrong with a path whatever the files are. -/
def pathError? (path : String) : Option FileError :=
  if path.toList.contains '\x00' then some .nulInName
  else if path == "" then some .notFound
  else if pathLimit < path.utf8ByteSize then some .nameTooLong
  else none

/-- Follows components of a path from where the path starts. -/
def followPath (fs : FileSystem) (path : String) (components : List String) :
    Except FileError Place :=
  match pathError? path with
  | some e => .error e
  | none => fs.follow (fs.start path) components

/-- The place that a path names, whether or not anything is there. -/
def place (fs : FileSystem) (path : String) : Except FileError Place :=
  fs.followPath path (Path.parts path)

/-- Whether a path names a file. -/
def isFile (fs : FileSystem) (path : String) : Bool :=
  match fs.place path with
  | .ok place =>
    match fs.at? place with
    | some (.file _) => true
    | _ => false
  | .error _ => false

/-- The bytes of a file. -/
def read (fs : FileSystem) (path : String) : Except FileError (List UInt8) :=
  match fs.place path with
  | .error e => .error e
  | .ok place =>
    match fs.at? place with
    | some (.file bytes) => .ok bytes
    | some .directory => .error .isDirectory
    | none => .error .notFound

/-- The text of a file. -/
def readText (fs : FileSystem) (path : String) : Except FileError String :=
  match fs.read path with
  | .error e => .error e
  | .ok bytes =>
    match String.fromUTF8? ⟨bytes.toArray⟩ with
    | some text => .ok text
    | none => .error .notUtf8

/-- The place that a path names for writing. A path that ends in a slash names
a directory, once the directory it would be in is found. -/
def placeToWrite (fs : FileSystem) (path : String) : Except FileError Place :=
  if path.toList.getLast? == some '/' then
    match fs.followPath path (Path.parentParts path) with
    | .error e => .error e
    | .ok _ => .error .isDirectory
  else fs.place path

/-- Writes a file, in place of one that is there. -/
def write (fs : FileSystem) (path : String) (bytes : List UInt8) : Except FileError FileSystem :=
  match fs.placeToWrite path with
  | .error e => .error e
  | .ok place =>
    match fs.at? place with
    | some .directory => .error .isDirectory
    | _ => .ok (fs.insert place (.file bytes))

/-- Writes a text file. -/
def writeText (fs : FileSystem) (path text : String) : Except FileError FileSystem :=
  fs.write path text.toUTF8.data.toList

end FileSystem

end Cartridge
