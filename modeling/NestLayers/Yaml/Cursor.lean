/-!
# Reading positions in a settings file

A position is the rest of the text, with the number of characters before it, its line and its
column. A byte-order mark has no width.
-/

namespace NestLayers.Yaml

/-- A reading position. -/
structure Cursor where
  rest : List Char
  index : Nat := 0
  line : Nat := 0
  column : Nat := 0
  deriving DecidableEq, Repr

/-- A line end. Carriage returns are gone before the reading starts. -/
def isBreak (c : Char) : Bool :=
  c == '\n' || c.toNat == 0x85 || c.toNat == 0x2028 || c.toNat == 0x2029

/-- What a line end stands for in a scalar. -/
def breakValue (c : Char) : Char :=
  if c.toNat == 0x85 then '\n' else c

/-- A space or a tabulator. -/
def isSpace (c : Char) : Bool :=
  c == ' ' || c == '\t'

/-- A space, a tabulator or a line end. -/
def isSpacing (c : Char) : Bool :=
  isSpace c || isBreak c

/-- The mark that tells the order of bytes. -/
def isByteOrderMark (c : Char) : Bool :=
  c.toNat == 0xFEFF

/-- Whether a text is at its end or goes on with spacing. -/
def isClear (cs : List Char) : Bool :=
  cs.head?.all isSpacing

/-- Whether a text is at its end or at the end of a line. -/
def isLineEnd (cs : List Char) : Bool :=
  cs.head?.all isBreak

/-- Whether a text is at its end, at the end of a line or at a space. -/
def isWordEnd (cs : List Char) : Bool :=
  cs.head?.all fun c => c == ' ' || isBreak c

/-- The characters a settings file may hold. -/
def isAllowed (c : Char) : Bool :=
  let n := c.toNat
  n == 9 || n == 10 || n == 13 || (32 ≤ n && n ≤ 126) || n == 0x85 ||
    (0xA0 ≤ n && n ≤ 0xFFFD) || 0x10000 ≤ n

/-- Whether a marker of a document starts a text: three equal characters that are clear of what
follows. -/
def startsWithMarker (c : Char) (cs : List Char) : Bool :=
  cs.take 3 == [c, c, c] && isClear (cs.drop 3)

/-- Whether a document starts or ends at the beginning of a line. -/
def startsMarker (cs : List Char) : Bool :=
  startsWithMarker '-' cs || startsWithMarker '.' cs

namespace Cursor

/-- The position after one more character. -/
def step (cursor : Cursor) (c : Char) (rest : List Char) : Cursor :=
  if isBreak c then ⟨rest, cursor.index + 1, cursor.line + 1, 0⟩
  else if isByteOrderMark c then ⟨rest, cursor.index + 1, cursor.line, cursor.column⟩
  else ⟨rest, cursor.index + 1, cursor.line, cursor.column + 1⟩

/-- Moves over one character. -/
def next (cursor : Cursor) : Cursor :=
  match cursor.rest with
  | [] => cursor
  | c :: rest => cursor.step c rest

/-- Moves over some characters. -/
def advance (cursor : Cursor) : (count : Nat) → Cursor
  | 0 => cursor
  | count + 1 => cursor.next.advance count

/-- Moves over the characters before the rest of the text. -/
def pass (cursor : Cursor) (taken rest : List Char) : Cursor :=
  { taken.foldl (fun position c => position.step c []) cursor with rest }

/-- Moves to a later position, given as the rest of the text there. -/
def moveTo (cursor : Cursor) (rest : List Char) : Cursor :=
  cursor.pass (cursor.rest.take (cursor.rest.length - rest.length)) rest

/-- Whether a character comes next. -/
def sees (cursor : Cursor) (c : Char) : Bool :=
  cursor.rest.head? == some c

/-- Moves over the characters of a kind. -/
def skip (cursor : Cursor) (kind : Char → Bool) : Cursor :=
  cursor.pass (cursor.rest.takeWhile kind) (cursor.rest.dropWhile kind)

/-- The characters of a kind that come next. -/
def run (cursor : Cursor) (kind : Char → Bool) : List Char :=
  cursor.rest.takeWhile kind

/-- Moves over spaces and a comment, up to the end of the line; none if something else is
left on it. -/
def skipLine? (cursor : Cursor) : Option Cursor :=
  let cursor := cursor.skip (· == ' ')
  let cursor := if cursor.sees '#' then cursor.skip (!isBreak ·) else cursor
  if isLineEnd cursor.rest then some cursor.next else none

/-- The position after the spaces, comments and line ends here. -/
def skipGapFrom (cursor : Cursor) (inComment : Bool) : List Char → Cursor
  | [] => { cursor with rest := [] }
  | c :: rest =>
    if isBreak c then (cursor.step c rest).skipGapFrom false rest
    else if inComment || c = ' ' then (cursor.step c rest).skipGapFrom inComment rest
    else if c = '#' then (cursor.step c rest).skipGapFrom true rest
    else { cursor with rest := c :: rest }

/-- Moves over spaces, comments and line ends. A byte-order mark at the start of the text does
not count. -/
def skipGap (cursor : Cursor) : Cursor :=
  let cursor := if cursor.index = 0 && cursor.rest.head?.any isByteOrderMark then cursor.next
    else cursor
  cursor.skipGapFrom false cursor.rest

end Cursor

end NestLayers.Yaml
