import Cartridge.Listing.Encode
import Cartridge.Partial

/-!
# Cartridge images

An image is 4 KiB: the code, zeros, and at its end three vectors that all lead
to the address the cartridge is mapped at. Code that does not fit in front of
the vectors is cut off.
-/

namespace Cartridge.Rom

/-- The size of an image. -/
def size : Nat := 4096

/-- The vector to `$F000`, low byte first. -/
def vector : List UInt8 := [0x00, 0xF0]

/-- The three vectors. -/
def vectors : List UInt8 := vector ++ vector ++ vector

/-- The room for code. -/
def capacity : Nat := size - 6

/-- The image of some code. -/
def package (code : List UInt8) : List UInt8 :=
  let kept := code.take capacity
  kept ++ List.replicate (capacity - kept.length) 0 ++ vectors

/-- The image of a listing. -/
def ofListing (l : Listing) : Except Listing.EncodeError (List UInt8) :=
  match Listing.assemble l.lines with
  | .ok code => .ok (package code)
  | .error e => .error e

/-- A vector copied onto each full pair of bytes. -/
def overPairs (vector : List UInt8) : List UInt8 → Except Crash (List UInt8)
  | low :: high :: rest => do
    let slot ← Partial.copy [low, high] vector
    return slot ++ (← overPairs vector rest)
  | rest => .ok rest

/-- The image of some code, made by copying it onto a blank one. -/
def tryPackage (code : List UInt8) : Except Crash (List UInt8) := do
  let blank := List.replicate size 0
  let len := min code.length capacity
  let front ← Partial.copy (← Partial.upTo blank len) (← Partial.upTo code len)
  let image := front ++ blank.drop len
  let slots ← overPairs vector (← Partial.startingAt image capacity)
  return image.take capacity ++ slots

/-- The image of a listing, made by copying. -/
def tryOfListing (l : Listing) : Except Crash (Except Listing.EncodeError (List UInt8)) :=
  match Listing.assemble l.lines with
  | .ok code => (tryPackage code).map .ok
  | .error e => .ok (.error e)

theorem length_package (code : List UInt8) : (package code).length = size := by
  simp [package, vectors, vector, capacity, size]
  omega

end Cartridge.Rom
