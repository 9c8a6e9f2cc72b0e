import TopDown.Unicode.Range

/-!
# White space

The characters that separate words: the Unicode property `White_Space`.
-/

set_option maxRecDepth 4096

namespace TopDown.Unicode

/-- The code points of `White_Space`, in ascending ranges. -/
def whiteSpaceRanges : List (Nat × Nat) :=
  [(0x9, 0xd), (0x20, 0x20), (0x85, 0x85), (0xa0, 0xa0), (0x1680, 0x1680), (0x2000, 0x200a),
   (0x2028, 0x2029), (0x202f, 0x202f), (0x205f, 0x205f), (0x3000, 0x3000)]

/-- Whether a character has the property `White_Space`. -/
def isWhiteSpace (char : Char) : Bool :=
  inRanges whiteSpaceRanges char.toNat

end TopDown.Unicode
