/-!
# Blank characters

The characters that separate words in program text, and that are trimmed from the ends of a
setting. The class is wider than ASCII: it holds the information separators, the next-line and
no-break characters, and the spaces and line separators of the general punctuation block.

## Main definitions

* `isBlank c`: the character `c` is blank
* `strip s`: the text `s` without the blanks at its two ends
-/

namespace MiniLisp

/-- The code points of the blank characters, as inclusive ranges in ascending order. -/
def blankRanges : List (Nat × Nat) :=
  [(0x09, 0x0D), (0x1C, 0x20), (0x85, 0x85), (0xA0, 0xA0), (0x1680, 0x1680), (0x2000, 0x200A),
    (0x2028, 0x2029), (0x202F, 0x202F), (0x205F, 0x205F), (0x3000, 0x3000)]

/-- A blank separates words and carries no meaning of its own. -/
def isBlank (c : Char) : Bool :=
  blankRanges.any fun r => r.1 ≤ c.toNat && c.toNat ≤ r.2

/-- The text without the blanks at its two ends. -/
def strip (s : List Char) : List Char :=
  ((s.dropWhile isBlank).reverse.dropWhile isBlank).reverse

end MiniLisp
