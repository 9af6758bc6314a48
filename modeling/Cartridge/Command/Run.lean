import Cartridge.Command.Options
import Cartridge.Compiler.Compile
import Cartridge.Text.Lines

/-!
# Commands

The command line as a function of its arguments and a file system. A run ends
with an exit code, what it said on either channel, and the file system as it
left it; it writes at most one file, as its last act.
-/

namespace Cartridge.Command

/-- What a run of the program did. -/
structure Run where
  exitCode : Nat := 0
  stdout : String := ""
  stderr : String := ""
  files : FileSystem
deriving Repr

namespace Run

/-- A run that says these lines and ends well. -/
def say (fs : FileSystem) (lines : List String) : Run :=
  { stdout := Text.ofLines lines, files := fs }

/-- A run that complains in these lines and fails. -/
def fail (fs : FileSystem) (lines : List String) : Run :=
  { exitCode := 1, stderr := Text.ofLines lines, files := fs }

/-- The same run after some complaints. -/
def after (complaints : List String) (r : Run) : Run :=
  { r with stderr := Text.ofLines complaints ++ r.stderr }

end Run

/-- A complaint that ends a run. -/
def errorLine (message : String) : String :=
  "error: " ++ message

def warningLine (message : String) : String :=
  "warning: " ++ message

/-- A file could not be written. -/
def writeFailed (path : String) (e : FileError) : String :=
  s!"cannot write '{path}': {e.message}"

/-- A file could not be read. -/
def readFailed (path : String) (e : FileError) : String :=
  s!"cannot read '{path}': {e.message}"

/-- What is said about a failed compilation. -/
def failureLines (r : CompileResult) : List String :=
  if r.diagnostics.isEmpty then [errorLine r.errorMessage] else r.diagnostics.map (·.text)

/-- The dump that was asked for; there is none of an image. -/
def dump? (a : Artifacts) : Emit → Option String
  | .structured => some (Text.ofLines a.structured.lines)
  | .flat => some (Text.ofLines a.flat.lines)
  | .register => some (Text.ofLines a.register.lines)
  | .listing => some (Text.ofLines a.listing.textLines)
  | .rom => none

/-- Compiles a source and writes its image. -/
def buildRom (s : Stages) (fs : FileSystem) (path : String) (build : BuildOptions)
    (options : CompileOptions) : Run :=
  let result := s.compileFile options fs path
  let out := build.romPath path
  Run.after (result.warnings.map warningLine) <|
    if result.success then
      match fs.write out result.code with
      | .ok fs' =>
        .say fs' [s!"Built {out} ({result.code.length} bytes, " ++
          s!"{result.target.id}, {result.tier.text})"]
      | .error e => .fail fs [errorLine (writeFailed out e)]
    else .fail fs (failureLines result)

/-- Writes a dump to the file that was asked for, or says it. -/
def writeDump (fs : FileSystem) (build : BuildOptions) (dump : String) : Run :=
  match build.output? with
  | none => { stdout := dump, files := fs }
  | some out =>
    match fs.writeText out dump with
    | .ok fs' => { files := fs' }
    | .error e => .fail fs [errorLine (writeFailed out e)]

/-- Takes a source down to its listing and dumps one level. -/
def buildDump (s : Stages) (fs : FileSystem) (path : String) (build : BuildOptions)
    (options : CompileOptions) : Run :=
  match fs.readText path with
  | .error e => .fail fs [errorLine (readFailed path e)]
  | .ok text =>
    let report := s.buildIr options ⟨text, path, Path.extension path⟩
    Run.after (report.warnings.map warningLine) <|
      match report.outcome with
      | .error failure => .fail fs [errorLine failure.toError.message]
      | .ok artifacts =>
        match dump? artifacts build.emit with
        | some dump => writeDump fs build dump
        | none => { files := fs }

/-- Reads and validates a source. -/
def checkSource (s : Stages) (fs : FileSystem) (path : String) (options : CompileOptions) : Run :=
  match fs.readText path with
  | .error e => .fail fs [errorLine (readFailed path e)]
  | .ok text =>
    let result := s.check options ⟨text, path, Path.extension path⟩
    Run.after (result.warnings.map warningLine) <|
      if result.success then
        .say fs [s!"OK: {path} ({result.target.id}, {result.tier.text}, " ++
          s!"{result.warnings.length} warning(s))"]
      else .fail fs (failureLines result)

/-- Settles flags, project file and stages for a command, then runs it. -/
def withStages (fs : FileSystem) (path : String) (args : List String)
    (run : Stages → BuildOptions → CompileOptions → Run) : Run :=
  let (ignored, parsed) := BuildOptions.parse args
  Run.after (ignored.map fun arg => warningLine s!"ignoring unknown option '{arg}'") <|
    match parsed with
    | .error e => .fail fs [errorLine e.message]
    | .ok build =>
      match build.compileOptions fs path with
      | .error e => .fail fs [errorLine e.message]
      | .ok options =>
        match Stages.forTarget options.target with
        | .error e => .fail fs [errorLine e.message]
        | .ok stages => run stages build options

/-- The command `build`. -/
def buildFile (fs : FileSystem) (path : String) (args : List String) : Run :=
  withStages fs path args fun stages build options =>
    if build.emit = .rom then buildRom stages fs path build options
    else buildDump stages fs path build options

/-- The command `check`. -/
def checkFile (fs : FileSystem) (path : String) (args : List String) : Run :=
  withStages fs path args fun stages _ options => checkSource stages fs path options

/-- A text filled up with blanks to at least `width` characters. -/
def padRight (width : Nat) (s : String) : String :=
  s ++ String.ofList (List.replicate (width - s.length) ' ')

/-- What `targets` says about one target. -/
def targetLine (target : Target) : String :=
  let about := match (Stages.forTarget target).toOption.bind (·.capabilities.profile.toOption) with
    | some profile => profile.text
    | none => "(no backend)"
  s!"  {padRight 10 target.id} {about}"

def targetLines : List String :=
  ["Targets:", ""] ++ Target.all.map targetLine

def optionLines : List String :=
  ["Build/check options:",
   "  --target=<id>        Target family (default: atari2600)",
   "  --profile=L<n>       Requested capability tier (default: L1)",
   "  --enforce=<mode>     strict (default) or advisory",
   "  --ext=<id>           Request an extension (repeatable)",
   "  --opt=<level>        none (default), basic, aggressive, full",
   "  --debug              Keep jumps as comments in the listing",
   "  --dispatch=<kind>    direct, token, subroutine, native",
   "  --emit=<type>        hlir, mlir, llir, asm, rom (default)",
   "  -o <path>            Output file",
   "  --project=<path>     Project file (default: gamevm.json beside the source)"]

def usageLines : List String :=
  ["GameVM compiler",
   "",
   "Usage: gvc <command> [options]",
   "",
   "Commands:",
   "  build <file.pas>     Compile to a ROM image (or an IR dump with --emit)",
   "  check <file.pas>     Parse and validate capabilities only",
   "  targets              List target families and backend profiles",
   "  help                 Show this help message",
   "  version              Show version information",
   ""] ++ optionLines ++
  ["",
   "Environment:",
   "  RUST_LOG=<filter>    Enable logging (e.g. gvc=debug,gv_opt=trace)",
   "  GVC_LOG_TREE=1       Hierarchical log output",
   "",
   "Examples:",
   "  gvc build pong.pas                       # writes pong.bin",
   "  gvc build pong.pas --opt=full -o pong.a26",
   "  gvc build pong.pas --emit=asm --debug    # listing with jumps",
   "  gvc check fx.pas --enforce=advisory"]

def versionLine : String := "gvc 0.1.0-alpha.1"

/-- Runs the program on the arguments after its name. -/
def run (fs : FileSystem) (args : List String) : Run :=
  match args with
  | [] => .say fs usageLines
  | ["build"] =>
    { Run.fail fs ["Usage: gvc build <file.pas> [options]", ""] with
      stdout := Text.ofLines optionLines }
  | "build" :: path :: flags => buildFile fs path flags
  | ["check"] => .fail fs ["Usage: gvc check <file.pas> [options]"]
  | "check" :: path :: flags => checkFile fs path flags
  | command :: _ =>
    if command == "targets" then .say fs targetLines
    else if ["help", "--help", "-h"].contains command then .say fs usageLines
    else if ["version", "--version", "-V"].contains command then .say fs [versionLine]
    else
      { Run.fail fs ["Unknown command: " ++ command, ""] with stdout := Text.ofLines usageLines }

end Cartridge.Command
