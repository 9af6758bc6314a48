/-!
# Blank characters

The characters with the Unicode property `White_Space`, and removal of them
from both ends of a text. Case and digits elsewhere in the library are ASCII;
only blanks and `Text.isAlphanumeric` look beyond it.
-/

namespace Cartridge.Text

/-- The property `White_Space`: the ASCII blanks, next line, no-break space,
Ogham space, the spaces of general punctuation and the ideographic space. -/
def isBlank (c : Char) : Bool :=
  let n := c.toNat
  (0x09 ≤ n && n ≤ 0x0D) || n == 0x20 || n == 0x85 || n == 0xA0 || n == 0x1680 ||
  (0x2000 ≤ n && n ≤ 0x200A) || n == 0x2028 || n == 0x2029 || n == 0x202F ||
  n == 0x205F || n == 0x3000

/-- Without the blanks at the left end. -/
def trimLeft (cs : List Char) : List Char :=
  cs.dropWhile isBlank

/-- Without the blanks at the right end. -/
def trimRight (cs : List Char) : List Char :=
  (cs.reverse.dropWhile isBlank).reverse

/-- Without the blanks at either end. -/
def trim (cs : List Char) : List Char :=
  trimRight (trimLeft cs)

/-- `trim` on a string. -/
def trimmed (s : String) : String :=
  String.ofList (trim s.toList)

@[simp] theorem toList_trimmed (s : String) : (trimmed s).toList = trim s.toList := by
  simp [trimmed]

end Cartridge.Text
