namespace PhpPages.Text

/-- The pieces of a text between the occurrences of a separator, at least one. -/
def pieces (separator : Char) (s : String) : List String :=
  (s.toList.splitOn separator).map String.ofList

/-- The piece after the last occurrence of a separator, the whole text when there is none. -/
def lastPiece (separator : Char) (s : String) : String :=
  String.ofList ((s.toList.splitOn separator).getLast?.getD [])

/-- Drops the leading characters that are among the given ones. -/
def dropLeading (unwanted : List Char) (s : String) : String :=
  String.ofList (s.toList.dropWhile unwanted.contains)

/-- Drops the trailing characters that are among the given ones. -/
def dropTrailing (unwanted : List Char) (s : String) : String :=
  String.ofList (s.toList.reverse.dropWhile unwanted.contains).reverse

/-- Puts another character in place of each occurrence of one. -/
def substitute (old new : Char) (s : String) : String :=
  String.ofList (s.toList.map fun c => if c = old then new else c)

/-- Whether the first text stands somewhere inside the second. -/
def occursIn (needle : List Char) : List Char → Bool
  | [] => needle.isEmpty
  | c :: rest => needle.isPrefixOf (c :: rest) || occursIn needle rest

end PhpPages.Text
