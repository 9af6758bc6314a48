import Cartridge.Project.ProjectFile

/-!
# Command line options

The flags that follow a source file. Settings that a flag does not give stay
open, so that they can be layered over a project file. A bad value is an error;
a flag that nobody knows is passed over with a warning.
-/

namespace Cartridge.Command

/-- What `build` writes. -/
inductive Emit where
  | structured | flat | register | listing | rom
deriving DecidableEq, Repr, Inhabited

namespace Emit

def id : Emit → String
  | structured => "hlir"
  | flat => "mlir"
  | register => "llir"
  | listing => "asm"
  | rom => "rom"

/-- Every kind by its own name, and images by one more. -/
def names : List (String × Emit) :=
  [structured, flat, register, listing, rom].map (fun e => (e.id, e)) ++ [("bin", rom)]

/-- The kind that a name in any case stands for; blanks are not passed over. -/
def ofName? (s : String) : Option Emit :=
  names.lookup s.toLower

end Emit

inductive OptionError where
  | missingPath
  | unknown (e : UnknownOption)
  | unknownTier (e : UnknownTier)
  | unknownEmit (given : String)
deriving DecidableEq, Repr

def OptionError.message : OptionError → String
  | missingPath => "-o requires a path"
  | unknown e => e.message
  | unknownTier e => e.message
  | unknownEmit given =>
    s!"unknown emit type '{given}' (expected hlir, mlir, llir, asm, rom)"

/-- Reads what `--emit` asks for. -/
def Emit.read (s : String) : Except OptionError Emit :=
  match ofName? s with
  | some e => .ok e
  | none => .error (.unknownEmit s)

structure BuildOptions where
  target? : Option Target := none
  profile? : Option Tier := none
  enforcement? : Option Enforcement := none
  extensions : List String := []
  optLevel? : Option OptLevel := none
  debugInfo : Bool := false
  dispatch? : Option Dispatch := none
  emit : Emit := .rom
  output? : Option String := none
  project? : Option String := none
deriving DecidableEq, Repr, Inhabited

/-- The value of a flag that is written `key=value`, `key` with its equals sign. -/
def valueOf? (key arg : String) : Option String :=
  (key.toList.isPrefixOf? arg.toList).map String.ofList

namespace BuildOptions

/-- Asks for one more extension; nothing and what is asked for already are passed over. -/
def addExtension (o : BuildOptions) (id : String) : BuildOptions :=
  if id == "" || o.extensions.contains id then o
  else { o with extensions := o.extensions ++ [id] }

/-- The effect of a flag with its value after an equals sign. -/
abbrev Setter := BuildOptions → String → Except OptionError BuildOptions

def setTarget : Setter := fun o v =>
  (Target.read v).mapError .unknown |>.map fun t => { o with target? := some t }

def setProfile : Setter := fun o v =>
  (Tier.read v).mapError .unknownTier |>.map fun t => { o with profile? := some t }

def setEnforcement : Setter := fun o v =>
  (Enforcement.read v).mapError .unknown |>.map fun e => { o with enforcement? := some e }

def setLevel : Setter := fun o v =>
  (OptLevel.read v).mapError .unknown |>.map fun l => { o with optLevel? := some l }

def setDispatch : Setter := fun o v =>
  (Dispatch.read v).mapError .unknown |>.map fun d => { o with dispatch? := some d }

def setEmit : Setter := fun o v =>
  (Emit.read v).map fun e => { o with emit := e }

/-- The flags that take a value after an equals sign. -/
def setters : List (String × Setter) :=
  [("--output=", fun o v => .ok { o with output? := some v }),
   ("--target=", setTarget),
   ("--profile=", setProfile),
   ("--enforce=", setEnforcement),
   ("--ext=", fun o v => .ok (o.addExtension v)),
   ("--opt=", setLevel),
   ("--dispatch=", setDispatch),
   ("--emit=", setEmit),
   ("--project=", fun o v => .ok { o with project? := some v })]

/-- The effect of a flag that stands alone; `none` if nobody knows it. -/
def applyFlag? (o : BuildOptions) (arg : String) : Option (Except OptionError BuildOptions) :=
  if arg == "--debug" then some (.ok { o with debugInfo := true })
  else setters.findSome? fun (key, set) => (valueOf? key arg).map (set o)

/-- Reads flags from left to right, up to the first bad value. Also gives the
flags that were passed over. -/
def parseFrom (o : BuildOptions) : List String → List String × Except OptionError BuildOptions
  | [] => ([], .ok o)
  | ["-o"] => ([], .error .missingPath)
  | "-o" :: path :: rest => parseFrom { o with output? := some path } rest
  | arg :: rest =>
    match o.applyFlag? arg with
    | some (.ok o') => parseFrom o' rest
    | some (.error e) => ([], .error e)
    | none =>
      let (ignored, result) := parseFrom o rest
      (arg :: ignored, result)

/-- Reads the flags of a command. -/
def parse (args : List String) : List String × Except OptionError BuildOptions :=
  parseFrom {} args

/-- The options with these flags on top. Extensions are added, everything else that is given is
replaced. -/
def apply (o : BuildOptions) (options : CompileOptions) : CompileOptions :=
  let options := { options with
    target := o.target?.getD options.target
    tier := o.profile?.getD options.tier
    enforcement := o.enforcement?.getD options.enforcement
    debugInfo := o.debugInfo || options.debugInfo
    dispatch := o.dispatch?.getD options.dispatch }
  let options := match o.optLevel? with
    | some level => options.withLevel level
    | none => options
  options.addExtensions o.extensions

/-- The project file that counts: the one asked for, or else one beside the source. -/
def projectPath? (o : BuildOptions) (fs : FileSystem) (source : String) : Option String :=
  match o.project? with
  | some path => some path
  | none =>
    let beside := Path.withFileName source ProjectFile.fileName
    if fs.isFile beside then some beside else none

/-- The defaults, then the project file, then the flags. -/
def compileOptions (o : BuildOptions) (fs : FileSystem) (source : String) :
    Except ProjectError CompileOptions := do
  match o.projectPath? fs source with
  | none => return o.apply {}
  | some path =>
    let project ← ProjectFile.load fs path
    return o.apply (← project.apply {})

/-- Where an image goes: where it is asked to, or else beside the source with extension `bin`. -/
def romPath (o : BuildOptions) (source : String) : String :=
  o.output?.getD (Path.withExtension source "bin")

end BuildOptions

end Cartridge.Command
