import Cartridge.Parsed
import Cartridge.Text.Number

/-!
# Documents

The part of JSON that project files are made of: null, strings, arrays and
objects. Numbers and truth values have no place in a project file, so the
reader refuses them as it refuses malformed text. Members keep their order and
repeated keys stay. Only space, tab, line feed and carriage return may stand
between tokens.
-/

namespace Cartridge.Project

inductive Document where
  | null
  | str (value : String)
  | arr (items : List Document)
  | obj (members : List (String × Document))
deriving Repr, Inhabited

namespace Document

/-- The units of a string: code points, where a pair of surrogates stands for one character. -/
abbrev Units := List Nat

/-- The character of an escape of one letter. -/
def escape? : Char → Option Char
  | '"' => some '"'
  | '\\' => some '\\'
  | '/' => some '/'
  | 'b' => some '\x08'
  | 'f' => some '\x0c'
  | 'n' => some '\n'
  | 'r' => some '\r'
  | 't' => some '\t'
  | _ => none

/-- One more unit in front of what was read. -/
def addUnit (unit? : Option Nat) (read? : Option (Units × List Char)) :
    Option (Units × List Char) :=
  match unit?, read? with
  | some unit, some (units, rest) => some (unit :: units, rest)
  | _, _ => none

/-- A string after its opening quote: its units, and the text after the closing quote. -/
def stringUnits : List Char → Option (Units × List Char)
  | [] => none
  | '"' :: rest => some ([], rest)
  | '\\' :: 'u' :: a :: b :: c :: d :: rest =>
    addUnit (Text.readNat 16 [a, b, c, d]) (stringUnits rest)
  | '\\' :: c :: rest => addUnit ((escape? c).map Char.toNat) (stringUnits rest)
  | c :: rest => if c.toNat < 0x20 then none else addUnit (some c.toNat) (stringUnits rest)

def isHigh (unit : Nat) : Bool := 0xD800 ≤ unit && unit < 0xDC00
def isLow (unit : Nat) : Bool := 0xDC00 ≤ unit && unit < 0xE000

/-- The characters of units; no half of a pair may stand alone. -/
def ofUnits : Units → Option (List Char)
  | [] => some []
  | [unit] => if isHigh unit || isLow unit then none else some [Char.ofNat unit]
  | unit :: next :: rest =>
    if isHigh unit then
      if isLow next then
        (ofUnits rest).map
          (Char.ofNat (0x10000 + (unit - 0xD800) * 0x400 + (next - 0xDC00)) :: ·)
      else none
    else if isLow unit then none
    else (ofUnits (next :: rest)).map (Char.ofNat unit :: ·)

theorem length_of_addUnit {unit? : Option Nat} {read? : Option (Units × List Char)}
    {units : Units} {rest : List Char} {n : Nat} (h : addUnit unit? read? = some (units, rest))
    (hn : ∀ units', read? = some (units', rest) → rest.length < n) : rest.length < n := by
  cases unit? with
  | none => simp [addUnit] at h
  | some unit =>
    cases read? with
    | none => simp [addUnit] at h
    | some read =>
      simp only [addUnit, Option.some.injEq, Prod.mk.injEq] at h
      exact hn read.1 (by rw [← h.2])

theorem length_of_stringUnits {cs : List Char} {units : Units} {rest : List Char}
    (h : stringUnits cs = some (units, rest)) : rest.length < cs.length := by
  fun_induction stringUnits cs generalizing units with
  | case1 => simp at h
  | case2 left =>
    simp only [Option.some.injEq, Prod.mk.injEq] at h
    simp [h.2]
  | case3 a b c d left ih =>
    refine length_of_addUnit h fun units' h' => ?_
    have := ih h'
    simp only [List.length_cons]
    omega
  | case4 c left _ ih =>
    refine length_of_addUnit h fun units' h' => ?_
    have := ih h'
    simp only [List.length_cons]
    omega
  | case5 => simp at h
  | case6 c left _ _ _ _ ih =>
    refine length_of_addUnit h fun units' h' => ?_
    have := ih h'
    simp only [List.length_cons]
    omega

/-- The tokens of a document. -/
inductive Piece where
  | null
  | str (value : String)
  | openBrace | closeBrace | openBracket | closeBracket | colon | comma
deriving DecidableEq, Repr

def isGap (c : Char) : Bool :=
  c == ' ' || c == '\t' || c == '\n' || c == '\r'

/-- The punctuation that a character is. -/
def punctuation? : Char → Option Piece
  | '{' => some .openBrace
  | '}' => some .closeBrace
  | '[' => some .openBracket
  | ']' => some .closeBracket
  | ':' => some .colon
  | ',' => some .comma
  | _ => none

/-- The tokens of a text. -/
def pieces (cs : List Char) : Option (List Piece) :=
  match cs with
  | [] => some []
  | 'n' :: 'u' :: 'l' :: 'l' :: rest => (pieces rest).map (.null :: ·)
  | '"' :: rest =>
    match h : stringUnits rest with
    | none => none
    | some (units, rest') =>
      have := length_of_stringUnits h
      match ofUnits units, pieces rest' with
      | some content, some more => some (.str (String.ofList content) :: more)
      | _, _ => none
  | c :: rest =>
    if isGap c then pieces rest
    else
      match punctuation? c, pieces rest with
      | some p, some more => some (p :: more)
      | _, _ => none
termination_by cs.length

/-- What a rule read from tokens, if it could. -/
abbrev Reads (α : Type) (ps : List Piece) : Type :=
  Option (Parsed Piece α ps.length)

mutual

def value (ps : List Piece) : Reads Document ps :=
  match ps with
  | .null :: _ => some (.one .null)
  | .str s :: _ => some (.one (.str s))
  | .openBracket :: .closeBracket :: _ => some (Parsed.one (.arr [])).behind
  | .openBracket :: rest => do return ((← items rest).map .arr).behind
  | .openBrace :: .closeBrace :: _ => some (Parsed.one (.obj [])).behind
  | .openBrace :: rest => do return ((← members rest).map .obj).behind
  | _ => none
termination_by 2 * ps.length

/-- The items of an array, at least one, up to its closing bracket. -/
def items (ps : List Piece) : Reads (List Document) ps := do
  let first ← value ps
  match first.uncons? with
  | some (.comma, past) =>
    have := past.fewer
    let more ← items past.rest
    return past.next (more.map (first.value :: ·))
  | some (.closeBracket, past) => return past.map ([·])
  | _ => none
termination_by 2 * ps.length + 1

/-- The members of an object, at least one, up to its closing brace. -/
def members (ps : List Piece) : Reads (List (String × Document)) ps :=
  match ps with
  | .str key :: .colon :: rest => do
    let first ← value rest
    match first.uncons? with
    | some (.comma, past) =>
      have := past.fewer
      let more ← members past.rest
      return (past.next (more.map ((key, first.value) :: ·))).behind.behind
    | some (.closeBrace, past) => return (past.map fun d => [(key, d)]).behind.behind
    | _ => none
  | _ => none
termination_by 2 * ps.length

end

/-- The document that a text spells, with nothing after it. -/
def read? (text : String) : Option Document := do
  let ps ← pieces text.toList
  match ← value ps with
  | ⟨document, [], _⟩ => return document
  | _ => none

end Document

end Cartridge.Project
