import Cartridge.Listing.Basic
import Cartridge.Options
import Cartridge.Text.Blank

/-!
# Optimizing listings

From `basic` on, a line that repeats the one before it is dropped. Blanks
around a line do not matter, and blank lines and comments are kept and looked
through.
-/

namespace Cartridge.Listing

/-- Whether a line, without the blanks around it, is empty or a comment. -/
def isSilent (line : List Char) : Bool :=
  line.isEmpty || line.head? == some ';'

/-- Drops repeated lines; `previous` is the last line kept that was not silent. -/
def dropRepeats (previous : Option (List Char)) : List String → List String
  | [] => []
  | line :: rest =>
    let key := Text.trim line.toList
    if isSilent key then line :: dropRepeats previous rest
    else if previous = some key then dropRepeats previous rest
    else line :: dropRepeats (some key) rest

def optimize (level : OptLevel) (l : Listing) : Listing :=
  if level = .off then l else { l with lines := dropRepeats none l.lines }

end Cartridge.Listing
