import Cartridge.Span

/-!
# Tokens

Keywords, punctuation and the token kinds built from them. A token is a kind
with the span it was read from. The end of a source is not a token: it is
where a list of tokens ends.
-/

namespace Cartridge.Pascal

inductive Keyword where
  | program | const | var | procedure | begin | end_ | if_ | then_ | else_ | while | do_
  | requires | via | div | mod | and | or | true | false
deriving DecidableEq, Repr, Inhabited

namespace Keyword

def all : List Keyword :=
  [program, const, var, procedure, begin, end_, if_, then_, else_, .while, do_,
   requires, via, div, mod, and, or, true, false]

def text : Keyword → String
  | program => "program"
  | const => "const"
  | var => "var"
  | procedure => "procedure"
  | begin => "begin"
  | end_ => "end"
  | if_ => "if"
  | then_ => "then"
  | else_ => "else"
  | .while => "while"
  | do_ => "do"
  | requires => "requires"
  | via => "via"
  | div => "div"
  | mod => "mod"
  | and => "and"
  | or => "or"
  | true => "true"
  | false => "false"

/-- The keyword a word spells, in any case of its letters. -/
def ofWord? (word : String) : Option Keyword :=
  all.find? fun k => k.text == word.toLower

end Keyword

/-- Punctuation and operator signs. -/
inductive Sign where
  | assign | semicolon | colon | comma | dot | openParen | closeParen
  | plus | minus | star | slash | eq | ne | lt | le | gt | ge
deriving DecidableEq, Repr, Inhabited

namespace Sign

def text : Sign → String
  | assign => ":="
  | semicolon => ";"
  | colon => ":"
  | comma => ","
  | dot => "."
  | openParen => "("
  | closeParen => ")"
  | plus => "+"
  | minus => "-"
  | star => "*"
  | slash => "/"
  | eq => "="
  | ne => "<>"
  | lt => "<"
  | le => "<="
  | gt => ">"
  | ge => ">="

/-- The sign of two characters that a text starts with. -/
def ofPair? : Char → Char → Option Sign
  | ':', '=' => some assign
  | '<', '>' => some ne
  | '<', '=' => some le
  | '>', '=' => some ge
  | _, _ => none

/-- The sign of one character. -/
def ofChar? : Char → Option Sign
  | ';' => some semicolon
  | ':' => some colon
  | ',' => some comma
  | '.' => some dot
  | '(' => some openParen
  | ')' => some closeParen
  | '+' => some plus
  | '-' => some minus
  | '*' => some star
  | '/' => some slash
  | '=' => some eq
  | '<' => some lt
  | '>' => some gt
  | _ => none

end Sign

/-- What a token is. -/
inductive Kind where
  | ident (name : String)
  | int (value : Int64)
  | str (value : String)
  | keyword (k : Keyword)
  | sign (s : Sign)
deriving DecidableEq, Repr, Inhabited

/-- A kind as messages name it. -/
def Kind.text : Kind → String
  | ident name => s!"identifier `{name}`"
  | int value => s!"number `{value.toInt}`"
  | str value => s!"string '{value}'"
  | keyword k => s!"`{k.text}`"
  | sign s => s!"`{s.text}`"

/-- What messages call the end of the source. -/
def endOfFileText : String := "end of file"

structure Token where
  kind : Kind
  span : Span
deriving DecidableEq, Repr, Inhabited

end Cartridge.Pascal
