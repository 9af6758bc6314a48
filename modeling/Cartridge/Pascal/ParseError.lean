import Cartridge.Diagnostic
import Cartridge.Pascal.Token

/-!
# Parse errors

Why a source text is not a program. Lexing and parsing report a cause with
the place it concerns; a `ParseError` adds line and column.
-/

namespace Cartridge.Pascal

/-- What the parser was looking for. -/
inductive Expected where
  | token (kind : Kind)
  | identifier
  | constant
  | statement
  | expression
  | endOfFile
deriving DecidableEq, Repr, Inhabited

def Expected.text : Expected → String
  | token kind => kind.text
  | identifier => "identifier"
  | constant => "constant value"
  | statement => "statement"
  | expression => "expression"
  | endOfFile => endOfFileText

def Expected.code : Expected → ErrorCode
  | identifier => .expectedIdentifier
  | constant | expression => .expectedExpression
  | token _ | statement | endOfFile => .unexpectedToken

inductive ParseCause where
  | invalidCharacter (c : Char)
  | unterminatedComment
  | unterminatedString
  | numberOutOfRange (digits : String)
  | missingHexDigits
  /-- Something else was found; `none` is the end of the source. -/
  | expected (what : Expected) (found : Option Kind)
  | unknownTier (path : String)
deriving DecidableEq, Repr, Inhabited

namespace ParseCause

def code : ParseCause → ErrorCode
  | invalidCharacter _ => .invalidCharacter
  | unterminatedComment | unterminatedString => .unterminated
  | numberOutOfRange _ | missingHexDigits => .invalidNumber
  | expected what _ => what.code
  | unknownTier _ => .malformedRequires

def message : ParseCause → String
  | invalidCharacter c => s!"unexpected character `{c}`"
  | unterminatedComment => "unterminated comment"
  | unterminatedString => "unterminated string"
  | numberOutOfRange digits => s!"number `{digits}` is out of range"
  | missingHexDigits => "expected hex digits after `$`"
  | expected what (some kind) => s!"expected {what.text}, found {kind.text}"
  | expected what none => s!"expected {what.text}, found {endOfFileText}"
  | unknownTier path => s!"unknown capability tier `{path}`"

end ParseCause

structure ParseError where
  cause : ParseCause
  span : Span
  /-- Where `span` begins. -/
  position : Position
deriving DecidableEq, Repr, Inhabited

namespace ParseError

/-- The error with its position in `source`. -/
def locate (source : String) (cause : ParseCause) (span : Span) : ParseError :=
  ⟨cause, span, span.position source⟩

def code (e : ParseError) : ErrorCode :=
  e.cause.code

/-- The message without its position. -/
def message (e : ParseError) : String :=
  e.cause.message

def text (e : ParseError) : String :=
  s!"Parse error at line {e.position.line}, column {e.position.column}: {e.message}"

def diagnostic (e : ParseError) : Diagnostic :=
  { code := e.code, message := e.text, span := e.span }

def toCompileError (e : ParseError) : CompileError :=
  .ofDiagnostic e.diagnostic

end ParseError

end Cartridge.Pascal
