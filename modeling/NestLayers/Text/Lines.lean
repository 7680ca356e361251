import NestLayers.Text.Blank

/-!
# Lines

There are two ways to count lines. `splitLines` ends a line at every character that
separates lines, and takes a carriage return followed by a line feed as one end;
`splitNewlines` knows the line feed alone. Text read from a file has its line ends
turned into line feeds first, by `unifyNewlines`.
-/

namespace NestLayers.Text

/-- The characters that end a line. -/
def isLineBreak (c : Char) : Bool :=
  let n := c.toNat
  (10 ≤ n && n ≤ 13) || (28 ≤ n && n ≤ 30) || n == 0x85 || n == 0x2028 || n == 0x2029

/-- Puts a character in front of the first line. -/
def consLine (c : Char) : List (List Char) → List (List Char)
  | [] => [[c]]
  | line :: lines => (c :: line) :: lines

/-- The lines of a text, without their ends. An end at the very end of the text does not
start another line. -/
def splitLines : List Char → List (List Char)
  | [] => []
  | '\r' :: '\n' :: rest => [] :: splitLines rest
  | c :: rest => if isLineBreak c then [] :: splitLines rest else consLine c (splitLines rest)

/-- The pieces between line feeds: one more than there are line feeds. -/
def splitNewlines : List Char → List (List Char)
  | [] => [[]]
  | c :: rest => if c = '\n' then [] :: splitNewlines rest else consLine c (splitNewlines rest)

/-- Turns carriage returns, alone or before a line feed, into line feeds. -/
def unifyNewlines : List Char → List Char
  | [] => []
  | '\r' :: '\n' :: rest => '\n' :: unifyNewlines rest
  | '\r' :: rest => '\n' :: unifyNewlines rest
  | c :: rest => c :: unifyNewlines rest

/-- The number of lines of a file: its line feeds, and one more for an unended last line. -/
def countLines (content : String) : Nat :=
  match content.toList.getLast? with
  | none => 0
  | some c => content.toList.count '\n' + if c = '\n' then 0 else 1

/-- Joins lines with line feeds. -/
def joinLines (lines : List String) : String :=
  String.intercalate "\n" lines

/-- Puts a margin in front of a line, unless the line is blank. -/
def indentLine (margin : String) (line : String) : String :=
  if isBlankText line then line else margin ++ line

/-- A margin of `level` steps of `size` spaces; a negative width is no margin. -/
def margin (level size : Int) : String :=
  String.ofList (List.replicate (level * size).toNat ' ')

/-- Indents the lines of a text, taken between line feeds. -/
def indentText (text : String) (level size : Int) : String :=
  joinLines ((splitNewlines text.toList).map fun line =>
    indentLine (margin level size) (String.ofList line))

end NestLayers.Text
