import Cartridge.Command.Run

/-!
# The command line program

Takes a picture of the files that a run can look at, runs the command on it,
and carries out what the run did.
-/

namespace Cartridge

/-- The place of an absolute or relative path, dots resolved by name only. -/
def placeByName (workDir : Place) (path : String) : Place :=
  let start := if path.toList.head? == some '/' then [] else workDir
  (Path.parts path).foldl
    (fun place part =>
      if Path.isIdle part then place else if part == ".." then place.dropLast else place ++ [part])
    start

/-- The absolute path of a place. -/
def placePath (place : Place) : String :=
  "/" ++ "/".intercalate place

/-- Looks at one place on disk. -/
def lookAt (fs : FileSystem) (place : Place) : IO FileSystem := do
  let path := (← IO.currentDir).join (placePath place)
  if ← path.isDir then return fs.insert place .directory
  else if ← path.pathExists then
    return fs.insert place (.file (← IO.FS.readBinFile path).toList)
  else return fs

/-- The paths that a command with these arguments can touch. -/
def touchedPaths : List String → List String
  | _ :: source :: flags =>
    let build := match (Command.BuildOptions.parse flags).2 with
      | .ok build => build
      | .error _ => {}
    [source, Path.withFileName source ProjectFile.fileName, build.romPath source] ++
      build.project?.toList
  | _ => []

/-- A picture of the disk as far as a command can see it. -/
def snapshot (args : List String) : IO FileSystem := do
  let workDir := (Path.parts (toString (← IO.currentDir))).filter fun part => !Path.isIdle part
  let places := (touchedPaths args).map (placeByName workDir)
  (places ++ places.map List.dropLast).foldlM lookAt { workDir }

/-- Writes the files that a run has added. -/
def carryOut (old new : FileSystem) : IO Unit :=
  for (place, node) in new.entries.take (new.entries.length - old.entries.length) do
    match node with
    | .file bytes => IO.FS.writeBinFile (placePath place) ⟨bytes.toArray⟩
    | .directory => pure ()

end Cartridge

def main (args : List String) : IO UInt32 := do
  let files ← Cartridge.snapshot args
  let run := Cartridge.Command.run files args
  Cartridge.carryOut files run.files
  IO.print run.stdout
  IO.eprint run.stderr
  return UInt32.ofNat run.exitCode
