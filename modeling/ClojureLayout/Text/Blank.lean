import ClojureLayout.Text.Ranges

/-!
# Blank characters

The characters that separate words: the white space of Unicode 14.0 together with the four
information separators U+001C to U+001F.
-/

namespace ClojureLayout.Text

def blankRanges : Ranges :=
  [(0x0009, 0x000D), (0x001C, 0x0020), (0x0085, 0x0085), (0x00A0, 0x00A0), (0x1680, 0x1680),
   (0x2000, 0x200A), (0x2028, 0x2029), (0x202F, 0x202F), (0x205F, 0x205F), (0x3000, 0x3000)]

/-- A character that leaves the page white. -/
def isBlank (c : Char) : Bool := blankRanges.contains c.toNat

/-- The text without its leading and trailing blank characters. -/
def trimBlanks (cs : List Char) : List Char :=
  ((cs.dropWhile isBlank).reverse.dropWhile isBlank).reverse

theorem blankRanges_ascending : blankRanges.ascending = true := by decide +kernel

end ClojureLayout.Text
