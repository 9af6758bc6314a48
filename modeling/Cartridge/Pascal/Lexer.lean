import Cartridge.Pascal.ParseError
import Cartridge.Text.Number

/-!
# Lexing

At every position the longest lexeme counts: blanks and complete comments are
skipped, anything else is a token or a fault. `classify` decides what stands
at the head of a text and how far it reaches; `lexFrom` repeats it to the end.

Strings stay on one line and write a quote twice; comments are `{ … }`,
`(* … *)` up to their first closer, and `// …` to the end of the line.
-/

namespace Cartridge.Pascal

/-- Characters that separate tokens. -/
def isLayout (c : Char) : Bool :=
  c == ' ' || c == '\t' || c == '\r' || c == '\n' || c == '\x0c'

/-- Characters that can start a word. -/
def isWordStart (c : Char) : Bool :=
  c.isAlpha || c == '_'

/-- Characters that can continue a word. -/
def isWordPart (c : Char) : Bool :=
  c.isAlphanum || c == '_'

/-- What the head of a text is. -/
inductive Lexeme where
  | skip
  | token (kind : Kind)
  | fault (cause : ParseCause)
deriving DecidableEq, Repr

/-- The kind of a word: a keyword, or else an identifier with its own spelling. -/
def wordKind (word : String) : Kind :=
  match Keyword.ofWord? word with
  | some k => .keyword k
  | none => .ident word

/-- The number written by `digits`, which are not empty; `text` is how it stands in the source. -/
def numberLexeme (base : Nat) (digits : List Char) (text : String) : Lexeme :=
  (Text.fit (Text.digitsValue base digits)).elim (.fault (.numberOutOfRange text)) fun v =>
    .token (.int v)

/-- How many characters lead to the end of the first `*)`. -/
def starCloser? : List Char → Option Nat
  | [] => none
  | '*' :: ')' :: _ => some 2
  | _ :: cs => (starCloser? cs).map (· + 1)

/-- How many characters a string takes after its opening quote, and whether it is closed. -/
def stringReach : List Char → Nat × Bool
  | [] => (0, false)
  | '\'' :: '\'' :: cs =>
    let (n, closed) := stringReach cs
    (n + 2, closed)
  | '\'' :: _ => (1, true)
  | '\n' :: _ => (0, false)
  | _ :: cs =>
    let (n, closed) := stringReach cs
    (n + 1, closed)

/-- A text with one quote in place of every two, from left to right. -/
def undoubled : List Char → List Char
  | [] => []
  | '\'' :: '\'' :: cs => '\'' :: undoubled cs
  | c :: cs => c :: undoubled cs

/-- A comment after its opening brace. -/
def braceComment (cs : List Char) : Lexeme × Nat :=
  let body := cs.takeWhile (· != '}')
  if body.length < cs.length then (.skip, body.length + 1)
  else (.fault .unterminatedComment, cs.length)

/-- A comment after its opening parenthesis, `cs` starting with the star. -/
def starComment (cs : List Char) : Lexeme × Nat :=
  match starCloser? (cs.drop 1) with
  | some n => (.skip, n + 1)
  | none => (.fault .unterminatedComment, cs.length)

/-- A string after its opening quote. -/
def stringLexeme (cs : List Char) : Lexeme × Nat :=
  let (n, closed) := stringReach cs
  if closed then (.token (.str (String.ofList (undoubled (cs.take (n - 1))))), n)
  else (.fault .unterminatedString, n)

/-- A hexadecimal number after its `$`. -/
def hexLexeme (cs : List Char) : Lexeme × Nat :=
  let digits := cs.takeWhile (Text.isDigitOf 16)
  if digits.isEmpty then (.fault .missingHexDigits, 0)
  else (numberLexeme 16 digits (String.ofList ('$' :: digits)), digits.length)

/-- A sign, of two characters if the two make one. -/
def signLexeme (c : Char) (cs : List Char) : Lexeme × Nat :=
  match cs.head?.bind (Sign.ofPair? c) with
  | some s => (.token (.sign s), 1)
  | none =>
    match Sign.ofChar? c with
    | some s => (.token (.sign s), 0)
    | none => (.fault (.invalidCharacter c), 0)

/-- What the text `c :: cs` starts with, and how many characters of `cs` belong to it. -/
def classify (c : Char) (cs : List Char) : Lexeme × Nat :=
  if isLayout c then (.skip, (cs.takeWhile isLayout).length)
  else if c == '{' then braceComment cs
  else if c == '(' && cs.head? == some '*' then starComment cs
  else if c == '/' && cs.head? == some '/' then (.skip, (cs.takeWhile (· != '\n')).length)
  else if c == '\'' then stringLexeme cs
  else if c == '$' then hexLexeme cs
  else if c.isDigit then
    let digits := cs.takeWhile Char.isDigit
    (numberLexeme 10 (c :: digits) (String.ofList (c :: digits)), digits.length)
  else if isWordStart c then
    let part := cs.takeWhile isWordPart
    (.token (wordKind (String.ofList (c :: part))), part.length)
  else signLexeme c cs

/-- The number of bytes that encode `cs`. -/
def byteSize (cs : List Char) : Nat :=
  cs.foldl (fun n c => n + c.utf8Size) 0

/-- A cause with the span it concerns. -/
structure LexFault where
  cause : ParseCause
  span : Span
deriving DecidableEq, Repr

/-- The tokens of `cs`, which stands at byte `offset` of a source. -/
def lexFrom (offset : Nat) (cs : List Char) : Except LexFault (List Token) :=
  match cs with
  | [] => .ok []
  | c :: cs =>
    let (lexeme, n) := classify c cs
    let stop := offset + byteSize (c :: cs.take n)
    match lexeme with
    | .skip => lexFrom stop (cs.drop n)
    | .fault cause => .error ⟨cause, Span.ofRange offset stop⟩
    | .token kind =>
      match lexFrom stop (cs.drop n) with
      | .ok tokens => .ok (⟨kind, Span.ofRange offset stop⟩ :: tokens)
      | .error fault => .error fault
termination_by cs.length
decreasing_by
  all_goals simp only [List.length_drop, List.length_cons]; omega

/-- Where the end of `source` is. -/
def endSpan (source : String) : Span :=
  Span.ofRange source.utf8ByteSize source.utf8ByteSize

/-- The tokens of a source text, up to the first fault. -/
def lex (source : String) : Except ParseError (List Token) :=
  match lexFrom 0 source.toList with
  | .ok tokens => .ok tokens
  | .error fault => .error (.locate source fault.cause fault.span)

end Cartridge.Pascal
