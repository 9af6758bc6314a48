import Cartridge.Span

/-!
# Diagnostics

A reported problem: a searchable code, a severity, a message, the place in the
source if there is one, and notes.
-/

namespace Cartridge

/-- What kind of problem is reported. The first digit of the printed code
tells the phase: source, capability, pipeline, internal. -/
inductive ErrorCode where
  | invalidCharacter
  | unterminated
  | invalidNumber
  | unexpectedToken
  | expectedExpression
  | expectedIdentifier
  | malformedRequires
  | capabilityDenied
  | requestExceedsBackend
  | unsupportedTarget
  | unsupportedSource
  | loweringFailed
  | encodingFailed
  | sourceUnreadable
  | internal
deriving DecidableEq, Repr, Inhabited

namespace ErrorCode

def all : List ErrorCode :=
  [invalidCharacter, unterminated, invalidNumber, unexpectedToken, expectedExpression,
   expectedIdentifier, malformedRequires, capabilityDenied, requestExceedsBackend,
   unsupportedTarget, unsupportedSource, loweringFailed, encodingFailed, sourceUnreadable,
   internal]

def text : ErrorCode → String
  | invalidCharacter => "E0001"
  | unterminated => "E0002"
  | invalidNumber => "E0003"
  | unexpectedToken => "E0101"
  | expectedExpression => "E0102"
  | expectedIdentifier => "E0103"
  | malformedRequires => "E0104"
  | capabilityDenied => "E1001"
  | requestExceedsBackend => "E1002"
  | unsupportedTarget => "E2001"
  | unsupportedSource => "E2002"
  | loweringFailed => "E2003"
  | encodingFailed => "E2004"
  | sourceUnreadable => "E2005"
  | internal => "E9001"

/-- The code that is printed as `s`. -/
def ofText? (s : String) : Option ErrorCode :=
  all.find? fun c => c.text == s

end ErrorCode

inductive Severity where
  | error | warning | note
deriving DecidableEq, Repr, Inhabited

namespace Severity

def all : List Severity := [error, warning, note]

def text : Severity → String
  | error => "error"
  | warning => "warning"
  | note => "note"

/-- The severity that is printed as `s`. -/
def ofText? (s : String) : Option Severity :=
  all.find? fun v => v.text == s

end Severity

structure Diagnostic where
  code : ErrorCode
  severity : Severity := .error
  message : String := ""
  /-- `Span.nowhere` if the problem has no place in the source. -/
  span : Span := Span.nowhere
  notes : List String := []
deriving DecidableEq, Repr, Inhabited

namespace Diagnostic

/-- The line that points at the span, for a problem that has one. -/
def spanText (d : Diagnostic) : String :=
  if d.span = Span.nowhere then "" else s!"\n  --> {d.span.text}"

def noteText (note : String) : String :=
  s!"\n  = note: {note}"

def text (d : Diagnostic) : String :=
  s!"{d.severity.text} [{d.code.text}]: {d.message}" ++ d.spanText ++
    String.join (d.notes.map noteText)

/-- The messages of several diagnostics in one text. -/
def joinMessages (ds : List Diagnostic) : String :=
  "; ".intercalate (ds.map (·.message))

end Diagnostic

/-- Why a compilation failed. -/
inductive CompileError where
  /-- The source is not a program. -/
  | parse (diagnostics : List Diagnostic)
  /-- The backend does not offer what the request or the program needs. -/
  | capability (violations : List Diagnostic)
  /-- A stage after parsing gave up. -/
  | pipeline (code : ErrorCode) (stage reason : String)
  | sourceRead (reason : String)
  /-- A stage crashed or reported something it never should. -/
  | unexpected (reason : String)
deriving DecidableEq, Repr, Inhabited

namespace CompileError

/-- The failure of a single diagnostic. -/
def ofDiagnostic (d : Diagnostic) : CompileError :=
  .parse [d]

def message : CompileError → String
  | parse ds => Diagnostic.joinMessages ds
  | capability ds => "Backend capability violations: " ++ Diagnostic.joinMessages ds
  | pipeline _ stage reason => s!"{stage}: {reason}"
  | sourceRead reason => s!"Failed to read source file: {reason}"
  | unexpected reason => s!"Compilation failed: {reason}"

/-- The code of the failure; that of the first diagnostic where there are several. -/
def code : CompileError → ErrorCode
  | parse ds => ((ds.head?).map (·.code)).getD .unexpectedToken
  | capability ds => ((ds.head?).map (·.code)).getD .capabilityDenied
  | pipeline c _ _ => c
  | sourceRead _ => .sourceUnreadable
  | unexpected _ => .internal

/-- The failure as diagnostics. -/
def diagnostics : CompileError → List Diagnostic
  | parse ds => ds
  | capability ds => ds
  | e => [{ code := e.code, message := e.message }]

end CompileError

end Cartridge
