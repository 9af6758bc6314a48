import Cartridge.Parsed
import Cartridge.Pascal.ParseError

/-!
# Grammar rules

A rule reads the front of a token list and says what is left of it. A fault
keeps the tokens at which reading stopped. The rules here read one token.
-/

namespace Cartridge.Pascal

/-- Why a rule stopped. -/
inductive Fault where
  /-- `what` was looked for in front of `rest`. -/
  | expected (what : Expected) (rest : List Token)
  /-- The path that begins with the token `start` names no tier. -/
  | unknownTier (path : String) (start : Token)
deriving DecidableEq, Repr

/-- The answer of a rule that reads at least one of the tokens `ts`. -/
abbrev Reads (α : Type) (ts : List Token) : Type :=
  Except Fault (Parsed Token α ts.length)

/-- The answer of a rule that may also read nothing. -/
abbrev MayRead (α : Type) (ts : List Token) : Type :=
  Except Fault (Parsed Token α (ts.length + 1))

/-- Reads one token of exactly this kind. -/
def token (kind : Kind) (ts : List Token) : Reads Unit ts :=
  match ts with
  | [] => .error (.expected (.token kind) [])
  | t :: rest =>
    if t.kind = kind then .ok (.one ()) else .error (.expected (.token kind) (t :: rest))

/-- Reads a sign. -/
def sign (s : Sign) (ts : List Token) : Reads Unit ts :=
  token (.sign s) ts

/-- Reads a keyword. -/
def keyword (k : Keyword) (ts : List Token) : Reads Unit ts :=
  token (.keyword k) ts

/-- Reads an identifier. -/
def identifier (ts : List Token) : Reads String ts :=
  match ts with
  | ⟨.ident name, _⟩ :: _ => .ok (.one name)
  | _ => .error (.expected .identifier ts)

/-- Whether an identifier stands first. -/
def startsWithIdentifier : List Token → Bool
  | ⟨.ident _, _⟩ :: _ => true
  | _ => false

end Cartridge.Pascal
