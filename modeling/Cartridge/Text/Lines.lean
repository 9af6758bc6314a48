/-!
# Lines

A text made of lines, each ended by a newline.
-/

namespace Cartridge.Text

/-- The lines in order, each followed by a newline. -/
def ofLines (lines : List String) : String :=
  lines.foldl (fun text line => text ++ line ++ "\n") ""

end Cartridge.Text
