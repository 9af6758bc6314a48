import Cartridge.Pascal.Lexer
import Cartridge.Pascal.Parser.Stmt

/-!
# Reading programs

```
program   = [ "program" name ";" ] { const | var | procedure } block "."
const     = "const" entry { entry }         entry = name "=" value ";"
value     = [ "-" ] number | string | "true" | "false"
var       = "var" field { field }           field = name { "," name } ":" name ";"
procedure = "procedure" name [ "(" ")" ] ";" [ "requires" path [ "via" path ] ";" ] block ";"
path      = name { "." name }
```

Variables are declared for the reader only: storage is found when a name is
first assigned. The main block becomes the last routine, and nothing may follow
the final dot.
-/

namespace Cartridge.Pascal

/-- The name of the main block, and of the module of a program without a header. -/
def mainName : String := "main"

/-- The value of a constant; only a number takes a sign. -/
def constantValue (ts : List Token) : Reads Literal ts :=
  match ts with
  | ⟨.sign .minus, _⟩ :: ⟨.int v, _⟩ :: _ => .ok (Parsed.one (.int (-v))).behind
  | ⟨.sign .minus, _⟩ :: rest => .error (.expected .constant rest)
  | [] => .error (.expected .constant [])
  | t :: rest =>
    match literal? t.kind with
    | some value => .ok (.one value)
    | none => .error (.expected .constant (t :: rest))

/-- One constant with its semicolon. -/
def constEntry (ts : List Token) : Reads (String × Literal) ts := do
  let name ← identifier ts
  let equals ← sign .eq name.rest
  let value ← constantValue equals.rest
  let close ← sign .semicolon value.rest
  return name.next (equals.next (value.next (close.map fun _ => (name.value, value.value))))

/-- Entries after `const`, as long as a name follows. -/
def constEntries (ts : List Token) : Reads Constants ts := do
  let first ← constEntry ts
  have := first.fewer
  if startsWithIdentifier first.rest then
    let more ← constEntries first.rest
    return first.next (more.map (first.value :: ·))
  else return first.map ([·])
termination_by ts.length

/-- Names separated by commas. -/
def nameList (ts : List Token) : Reads Unit ts := do
  let name ← identifier ts
  match name.uncons? with
  | some (⟨.sign .comma, _⟩, past) =>
    have := past.fewer
    let more ← nameList past.rest
    return past.next more
  | _ => return name.map fun _ => ()
termination_by ts.length

/-- One line of variables with its semicolon. -/
def varEntry (ts : List Token) : Reads Unit ts := do
  let names ← nameList ts
  let colon ← sign .colon names.rest
  let type ← identifier colon.rest
  let close ← sign .semicolon type.rest
  return names.next (colon.next (type.next close))

/-- Entries after `var`, as long as a name follows. -/
def varEntries (ts : List Token) : Reads Unit ts := do
  let first ← varEntry ts
  have := first.fewer
  if startsWithIdentifier first.rest then
    let more ← varEntries first.rest
    return first.next more
  else return first
termination_by ts.length

/-- What follows the first name of a path: a dot counts only before another name. -/
def pathTail (path : String) (ts : List Token) : Parsed Token String (ts.length + 1) :=
  match ts with
  | ⟨.sign .dot, _⟩ :: ⟨.ident name, _⟩ :: rest =>
    Parsed.relax (Parsed.relax (pathTail (path ++ "." ++ name) rest))
  | _ => .nothing path
termination_by ts.length

/-- A dotted path such as `Ext.Math.Fast`. -/
def path (ts : List Token) : Reads String ts := do
  let name ← identifier ts
  return name.nextMay (pathTail name.value name.rest)

/-- What a routine requires. -/
structure Requirement where
  tier : Tier := .l1
  extension? : Option String := none

/-- The tier that the path in front of `ts` names. -/
def tierPath (ts : List Token) : Reads Tier ts := do
  let name ← path ts
  match Tier.ofText? name.value, ts with
  | some tier, _ => return name.map fun _ => tier
  | none, start :: _ => .error (.unknownTier name.value start)
  | none, [] => .error (.expected .identifier [])

/-- The clause after `requires`, without its semicolon. -/
def requirement (ts : List Token) : Reads Requirement ts := do
  let tier ← tierPath ts
  match tier.uncons? with
  | some (⟨.keyword .via, _⟩, past) =>
    let ext ← path past.rest
    return past.next (ext.map fun id => ⟨tier.value, some id⟩)
  | _ => return tier.map fun t => ⟨t, none⟩

/-- The clause with its keyword and semicolon, if there is one. -/
def optionalRequirement (ts : List Token) : MayRead Requirement ts :=
  match ts with
  | ⟨.keyword .requires, _⟩ :: rest => do
    let needs ← requirement rest
    let close ← sign .semicolon needs.rest
    return (needs.next (close.map fun _ => needs.value)).behind.relax
  | _ => .ok (.nothing {})

/-- Empty parentheses, if there are any. -/
def optionalParens (ts : List Token) : MayRead Unit ts :=
  match ts with
  | ⟨.sign .openParen, _⟩ :: rest => do
    let close ← sign .closeParen rest
    return close.behind.relax
  | _ => .ok (.nothing ())

/-- A procedure after its keyword. -/
def procedure (ts : List Token) : Reads Routine ts := do
  let name ← identifier ts
  let parens ← optionalParens name.rest
  let semicolon ← sign .semicolon parens.rest
  let needs ← optionalRequirement semicolon.rest
  let body ← block needs.rest
  let close ← sign .semicolon body.rest
  let routine : Routine :=
    ⟨name.value, body.value, needs.value.tier, needs.value.extension?⟩
  return name.nextMay (parens.next (semicolon.nextMay (needs.next (body.next
    (close.map fun _ => routine)))))

/-- The constants and routines that declarations introduce. -/
structure Declarations where
  constants : Constants := []
  routines : List Routine := []

/-- One group of declarations: a `const` or `var` section or a procedure. -/
def declaration? (ts : List Token) : Option (Reads Declarations ts) :=
  match ts with
  | ⟨.keyword .const, _⟩ :: rest => some do
    return ((← constEntries rest).map fun cs => { constants := cs }).behind
  | ⟨.keyword .var, _⟩ :: rest => some do
    return ((← varEntries rest).map fun _ => {}).behind
  | ⟨.keyword .procedure, _⟩ :: rest => some do
    return ((← procedure rest).map fun r => { routines := [r] }).behind
  | _ => none

/-- Declarations in any order, up to something else. -/
def declarations (ts : List Token) : MayRead Declarations ts :=
  match declaration? ts with
  | none => .ok (.nothing {})
  | some first => do
    let first ← first
    have := first.fewer
    let more ← declarations first.rest
    return (first.nextMay (more.map fun d =>
      ⟨first.value.constants ++ d.constants, first.value.routines ++ d.routines⟩)).relax
termination_by ts.length

/-- The name in the program header, or `main` if there is no header. -/
def header (ts : List Token) : MayRead String ts :=
  match ts with
  | ⟨.keyword .program, _⟩ :: rest => do
    let name ← identifier rest
    let close ← sign .semicolon name.rest
    return (name.next (close.map fun _ => name.value)).behind.relax
  | _ => .ok (.nothing mainName)

/-- The program that a token list spells. -/
def parseTokens (ts : List Token) : Except Fault Program := do
  let name ← header ts
  let decls ← declarations name.rest
  let body ← block decls.rest
  let dot ← sign .dot body.rest
  match dot.rest with
  | [] =>
    let main : Routine := { name := mainName, body := body.value }
    return { constants := decls.value.constants
             modules := [⟨name.value, decls.value.routines ++ [main]⟩] }
  | rest => .error (.expected .endOfFile rest)

/-- A fault as an error of `source`; the end of the tokens stands for the end of it. -/
def Fault.toError (source : String) : Fault → ParseError
  | .expected what [] => .locate source (.expected what none) (endSpan source)
  | .expected what (t :: _) => .locate source (.expected what (some t.kind)) t.span
  | .unknownTier path start => .locate source (.unknownTier path) start.span

/-- The program that a source text spells. Its `sourceFile` is left empty. -/
def parse (source : String) : Except ParseError Program := do
  let tokens ← lex source
  match parseTokens tokens with
  | .ok program => return program
  | .error fault => .error (fault.toError source)

end Cartridge.Pascal
