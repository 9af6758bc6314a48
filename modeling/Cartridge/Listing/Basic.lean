import Cartridge.Register.Program

/-!
# Assembly listings

One mnemonic, label or comment a line, and the bytes that the lines encode to
once they are assembled. The text form indents everything but labels and
comments.
-/

namespace Cartridge

structure Listing where
  sourceFile : String := ""
  lines : List String := []
  bytes : List UInt8 := []
deriving DecidableEq, Repr, Inhabited

namespace Listing

/-- Whether a line is a label or a comment as it stands. -/
def isFlush (line : String) : Bool :=
  line.toList.getLast? == some ':' || line.toList.head? == some ';'

def lineText (line : String) : String :=
  if isFlush line then line else "    " ++ line

def textLines (l : Listing) : List String :=
  l.lines.map lineText

/-- The line of an instruction. A jump has no encoding and shows only as a
comment, and only if asked for. -/
def instrLine? (debugInfo : Bool) : Register.Instr → Option String
  | .load _ value => some s!"LDA #{value}"
  | .store _ address => some s!"STA {address}"
  | .call callee => some s!"JSR {callee}"
  | .label name => some s!"{name}:"
  | .jump target (some cond) => if debugInfo then some s!"; JMP {target} IF {cond}" else none
  | .jump target none => if debugInfo then some s!"; JMP {target}" else none

/-- The listing of a program's stream. -/
def ofProgram (debugInfo : Bool) (p : Register.Program) : Listing :=
  { sourceFile := p.sourceFile, lines := p.stream.filterMap (instrLine? debugInfo) }

end Listing

end Cartridge
