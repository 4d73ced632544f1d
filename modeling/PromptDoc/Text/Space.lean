/-!
# White space

`isSpace` is the Unicode property White_Space: the characters that trimming
removes and that may stand around the name in a placeholder.
-/

namespace PromptDoc.Text

/-- White space in the sense of Unicode. -/
def isSpace (c : Char) : Bool :=
  let n := c.toNat
  (0x09 ≤ n && n ≤ 0x0D) || n = 0x20 || n = 0x85 || n = 0xA0 || n = 0x1680 ||
    (0x2000 ≤ n && n ≤ 0x200A) || n = 0x2028 || n = 0x2029 || n = 0x202F || n = 0x205F ||
    n = 0x3000

/-- The text without white space at its start. -/
def trimStart (s : List Char) : List Char :=
  s.dropWhile isSpace

/-- The text without white space at its end. -/
def trimEnd (s : List Char) : List Char :=
  (s.reverse.dropWhile isSpace).reverse

/-- The text without white space at either end. -/
def trim (s : List Char) : List Char :=
  trimEnd (trimStart s)

end PromptDoc.Text
