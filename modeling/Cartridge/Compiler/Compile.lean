import Cartridge.Compiler.Stages
import Cartridge.Files.FileSystem

/-!
# Compiling

The order of a compilation: file extension, parsing, capabilities, then the
levels one after another, each followed by its optimizer if the optimizer is
on, and code generation last. Warnings that validation leaves outlive a failure
of a later stage; `compile` and `check` turn every failure, crashes included,
into a result.
-/

namespace Cartridge

/-- A source text with the name it goes by and the extension that tells its language. -/
structure Source where
  text : String
  file : String := ""
  extension : String := ".pas"
deriving DecidableEq, Repr, Inhabited

/-- Every program that a compilation makes on its way, and the image at its end. -/
structure Artifacts where
  structured : Pascal.Program
  flat : Flat.Program
  register : Register.Program
  listing : Listing
  /-- Empty if no code was asked for. -/
  code : List UInt8 := []
  warnings : List String := []

/-- What a run came to, with the warnings that it left. -/
structure Report (α : Type) where
  warnings : List String
  outcome : Attempt α

/-- The outcome of a compilation as it is reported. -/
structure CompileResult where
  success : Bool
  /-- The image; empty on failure. -/
  code : List UInt8 := []
  /-- Empty on success. -/
  errorMessage : String := ""
  sourceFile : String
  target : Target
  tier : Tier
  warnings : List String
  /-- Empty on success. -/
  diagnostics : List Diagnostic := []
deriving DecidableEq, Repr, Inhabited

namespace CompileResult

def succeed (options : CompileOptions) (file : String) (warnings : List String)
    (code : List UInt8) : CompileResult where
  success := true
  code := code
  sourceFile := file
  target := options.target
  tier := options.tier
  warnings := warnings

def fail (options : CompileOptions) (file : String) (warnings : List String)
    (e : CompileError) : CompileResult where
  success := false
  errorMessage := e.message
  sourceFile := file
  target := options.target
  tier := options.tier
  warnings := warnings
  diagnostics := e.diagnostics

/-- The result of a report, with the code that `image` finds in its value. -/
def ofReport {α : Type} (options : CompileOptions) (file : String) (image : α → List UInt8)
    (r : Report α) : CompileResult :=
  match r.outcome with
  | .ok value => succeed options file r.warnings (image value)
  | .error failure => fail options file r.warnings failure.toError

end CompileResult

/-- No front end reads files with this extension. -/
def unsupportedSource (known : List String) (ext : String) : CompileError :=
  .pipeline .unsupportedSource "Unsupported source"
    ("no frontend for extension '" ++ ext ++ "' (expected one of: " ++ ", ".intercalate known ++
      ")")

namespace Stages

/-- The program of a source, recorded under its file name. -/
def read (s : Stages) (source : Source) : Attempt Pascal.Program := do
  if ← s.frontend.accepts source.extension then
    let p ← s.frontend.parse source.text
    return { p with sourceFile := source.file }
  else throw (.error (unsupportedSource (← s.frontend.extensions) source.extension))

/-- All violations as diagnostics: those of the request, then those of the program. -/
def violations (s : Stages) (options : CompileOptions) (p : Pascal.Program) :
    Attempt (List Diagnostic) := do
  let (profile, granted) ← s.capabilities.offer
  let severity : Severity :=
    match options.enforcement with
    | .strict => .error
    | .advisory => .warning
  return (requestViolations options profile).map (fun v =>
      { code := .requestExceedsBackend, severity, message := v.message }) ++
    (programViolations p profile.base granted).map fun v =>
      { code := .capabilityDenied, severity, message := v.message
        notes := [s!"{options.target.id} provides {profile.base.text}"] }

/-- The warnings that violations leave; a strict compilation has none and fails instead. -/
def validate (s : Stages) (options : CompileOptions) (p : Pascal.Program) :
    Attempt (List String) := do
  match ← s.violations options p with
  | [] => return []
  | ds =>
    match options.enforcement with
    | .strict => throw (.error (.capability ds))
    | .advisory => return ds.map (·.message)

/-- Reads and validates a source. -/
def prepare (s : Stages) (options : CompileOptions) (source : Source) :
    Attempt (Pascal.Program × List String) := do
  let p ← s.read source
  let warnings ← s.validate options p
  return (p, warnings)

/-- An optimizer, or nothing if the optimizer is off. -/
def whenOptimizing {α : Type} (options : CompileOptions) (optimize : OptLevel → α → Attempt α)
    (a : α) : Attempt α :=
  if options.optimize then optimize options.effectiveLevel a else .ok a

/-- Takes a program down to its listing. -/
def descend (s : Stages) (options : CompileOptions) (p : Pascal.Program)
    (warnings : List String) : Attempt Artifacts := do
  let flat ← whenOptimizing options s.optimizeFlat (← s.frontend.flatten p)
  let register ← whenOptimizing options s.optimizeRegister (← s.toRegister flat)
  let listing ← whenOptimizing options s.optimizeListing
    (← s.toListing options.codeGen register)
  return { structured := p, flat, register, listing, warnings }

/-- Adds the image to what `descend` made. -/
def finish (s : Stages) (options : CompileOptions) (a : Artifacts) : Attempt Artifacts := do
  let code ← s.generate options.codeGen a.listing
  return { a with code }

/-- All levels of a source, without code. -/
def buildIr (s : Stages) (options : CompileOptions) (source : Source) : Report Artifacts :=
  match s.prepare options source with
  | .error failure => ⟨[], .error failure⟩
  | .ok (p, warnings) => ⟨warnings, s.descend options p warnings⟩

/-- All levels of a source and its image. -/
def build (s : Stages) (options : CompileOptions) (source : Source) : Report Artifacts :=
  let r := s.buildIr options source
  ⟨r.warnings, r.outcome.bind (s.finish options)⟩

/-- Reading and validation only. -/
def checkOnly (s : Stages) (options : CompileOptions) (source : Source) : Report Unit :=
  match s.prepare options source with
  | .error failure => ⟨[], .error failure⟩
  | .ok (_, warnings) => ⟨warnings, .ok ()⟩

/-- Compiles a source to an image. -/
def compile (s : Stages) (options : CompileOptions) (source : Source) : CompileResult :=
  .ofReport options source.file (·.code) (s.build options source)

/-- Checks a source without making code. -/
def check (s : Stages) (options : CompileOptions) (source : Source) : CompileResult :=
  .ofReport options source.file (fun _ => []) (s.checkOnly options source)

/-- Compiles a file; its extension tells the language. -/
def compileFile (s : Stages) (options : CompileOptions) (fs : FileSystem) (path : String) :
    CompileResult :=
  match fs.readText path with
  | .ok text => s.compile options ⟨text, path, Path.extension path⟩
  | .error e => .fail options path [] (.sourceRead e.message)

end Stages

end Cartridge
