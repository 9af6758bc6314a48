/-!
# Source spans

Half-open byte ranges of a source text, and the line and column at which one
begins. Offsets count UTF-8 bytes and saturate at `Span.limit`; columns count
characters. Lines and columns are counted in 32 bits and wrap around.
-/

namespace Cartridge

/-- A byte range, `stop` excluded. -/
structure Span where
  start : Nat
  stop : Nat
deriving DecidableEq, Repr, Inhabited

/-- One-based line and column. -/
structure Position where
  line : UInt32
  column : UInt32
deriving DecidableEq, Repr, Inhabited

namespace Span

/-- The largest offset a span records. -/
def limit : Nat := 0xFFFFFFFF

/-- The span of things that have no place in a source. -/
def nowhere : Span := ⟨0, 0⟩

/-- The span of a byte range, saturating at `limit`. -/
def ofRange (start stop : Nat) : Span :=
  ⟨min start limit, min stop limit⟩

/-- The number of bytes covered. -/
def size (s : Span) : Nat :=
  s.stop - s.start

def isEmpty (s : Span) : Bool :=
  s.start == s.stop

/-- The least span that covers both. -/
def merge (a b : Span) : Span :=
  ⟨min a.start b.start, max a.stop b.stop⟩

def text (s : Span) : String :=
  s!"{s.start}..{s.stop}"

end Span

/-- Walks over the characters of `source` from `p` on that begin before byte
`offset`; every newline starts a line. -/
def Position.walk (source : String) (offset : Nat) (p : source.Pos) (line column : UInt32) :
    Position :=
  if h : p = source.endPos then ⟨line, column⟩
  else if offset ≤ p.offset.byteIdx then ⟨line, column⟩
  else if p.get h = '\n' then walk source offset (p.next h) (line + 1) 1
  else walk source offset (p.next h) line (column + 1)
termination_by p

/-- Where byte `offset` of `source` stands; an offset past the end stands there. -/
def Position.ofOffset (source : String) (offset : Nat) : Position :=
  Position.walk source offset source.startPos 1 1

/-- Where a span begins within `source`. -/
def Span.position (s : Span) (source : String) : Position :=
  Position.ofOffset source s.start

end Cartridge
