namespace PhpPages.Text

/-- White space. It is wider than ASCII: it includes the separators U+001C to U+001F, the next-line
character, the no-break space and the spaces of other scripts, but not the zero-width space. -/
def isBlank (c : Char) : Bool :=
  let n := c.toNat
  (9 ≤ n && n ≤ 13) || (28 ≤ n && n ≤ 32) || n == 0x85 || n == 0xa0 || n == 0x1680 ||
    (0x2000 ≤ n && n ≤ 0x200a) || n == 0x2028 || n == 0x2029 || n == 0x202f ||
    n == 0x205f || n == 0x3000

/-- Drops the longest end of a list that consists of elements satisfying `p`. -/
def dropEndWhile {α : Type} (p : α → Bool) (l : List α) : List α :=
  (l.reverse.dropWhile p).reverse

/-- Removes white space at both ends. -/
def trimChars (cs : List Char) : List Char :=
  dropEndWhile isBlank (cs.dropWhile isBlank)

def trim (s : String) : String :=
  String.ofList (trimChars s.toList)

/-- Removes white space at the end. -/
def trimEnd (s : String) : String :=
  String.ofList (dropEndWhile isBlank s.toList)

end PhpPages.Text
