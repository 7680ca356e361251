import NestLayers.Text.Quoted
import NestLayers.Yaml.Cursor
import NestLayers.Yaml.Flaw
import NestLayers.Yaml.Numeral

/-!
# Texts of scalars

A scalar is written without quotes, in single or double quotes, or as a block of lines below
an indicator. Line ends within it are folded: one stands for a space, and of several the first
is dropped. Line and paragraph separators stand for themselves.
-/

namespace NestLayers.Yaml

open NestLayers.Text (apostrophe doubleQuote backslash)

/-- What the line ends between two words stand for. -/
def foldBreaks : List Char → List Char
  | [] => []
  | first :: others =>
    if first != '\n' then first :: others else if others.isEmpty then [' '] else others

/-! ## Without quotes -/

/-- The brackets, braces and commas of a flow collection. -/
def isFlowMark (c : Char) : Bool :=
  c == ',' || c == '[' || c == ']' || c == '\x7b' || c == '\x7d'

/-- Whether a scalar without quotes ends before a character. -/
def endsWord (flow : Bool) (c : Char) (rest : List Char) : Bool :=
  isSpacing c || (c == ':' && (isClear rest || (flow && rest.head?.any isFlowMark))) ||
    (flow && (isFlowMark c || c == '?'))

/-- Cuts a text after the characters that a scalar without quotes takes without a space. -/
def cutWord (flow : Bool) : List Char → List Char × List Char
  | [] => ([], [])
  | c :: rest =>
    if endsWord flow c rest then ([], c :: rest)
    else
      let (word, remaining) := cutWord flow rest
      (c :: word, remaining)

/-- Moves over line ends and the spaces after them. The line ends are given, unless a document
starts or ends after one of them. -/
def skipBreaks (cursor : Cursor) (breaks : List Char) :
    List Char → Option (List Char) × Cursor
  | [] => (some breaks, { cursor with rest := [] })
  | c :: rest =>
    if isBreak c then
      let after := cursor.step c rest
      if startsMarker rest then (none, after)
      else skipBreaks after (breaks ++ [breakValue c]) rest
    else if c = ' ' then skipBreaks (cursor.step c rest) breaks rest
    else (some breaks, { cursor with rest := c :: rest })

/-- A scalar without quotes and the position after it. -/
structure PlainText where
  text : List Char
  after : Cursor
  /-- Whether a line ends between the last word and the position. -/
  lineLeft : Bool

/-- Reads a scalar without quotes. It goes on over line ends as long as the next word is not to
the left of `indent`; inside a flow collection it goes on anyway. `gap` is what stands between
the words so far and the next one. -/
def readPlain (flow : Bool) (indent : Nat) (lineLeft : Bool) (gap : List Char) :
    (fuel : Nat) → Cursor → PlainText
  | 0, cursor => ⟨[], cursor, lineLeft⟩
  | fuel + 1, cursor =>
    let (word, remaining) := cutWord flow cursor.rest
    if word.isEmpty then ⟨[], cursor, lineLeft⟩
    else
      let afterWord := cursor.pass word remaining
      let spaces := afterWord.run (· == ' ')
      let afterSpaces := afterWord.skip (· == ' ')
      let goOn (gap : List Char) (crossed : Bool) (position : Cursor) : PlainText :=
        if position.sees '#' || (!flow && position.column < indent) then ⟨[], position, crossed⟩
        else readPlain flow indent crossed gap fuel position
      let tail :=
        if afterSpaces.rest.head?.any isBreak then
          match skipBreaks afterSpaces [] afterSpaces.rest with
          | (none, position) => ⟨[], position, true⟩
          | (some breaks, position) => goOn (foldBreaks breaks) true position
        else if spaces.isEmpty then ⟨[], afterWord, false⟩
        else goOn spaces false afterSpaces
      { tail with text := gap ++ word ++ tail.text }

/-! ## In quotes -/

/-- Moves over the spaces and line ends that follow a line end in quotes. The line ends are
given, unless a document starts or ends after one of them. -/
def quotedBreaks (lineStart : Bool) (cs : List Char) : Option (List Char × List Char) :=
  if lineStart && startsMarker cs then none
  else
    match cs with
    | [] => some ([], [])
    | c :: rest =>
      if isSpace c then quotedBreaks false rest
      else if isBreak c then
        (quotedBreaks true rest).map fun (breaks, after) => (breakValue c :: breaks, after)
      else some ([], c :: rest)

/-- Moves over the spacing inside quotes, and gives what it stands for. -/
def quotedSpacing (cs : List Char) : Option (List Char × List Char) :=
  match cs.dropWhile isSpace with
  | [] => none
  | c :: rest =>
    if isBreak c then
      (quotedBreaks true rest).map fun (breaks, after) =>
        (foldBreaks (breakValue c :: breaks), after)
    else some (cs.takeWhile isSpace, c :: rest)

/-- What the letter after a backslash stands for. -/
def escapes : List (Char × Nat) :=
  [('0', 0), ('a', 7), ('b', 8), ('t', 9), ('\t', 9), ('n', 10), ('v', 11), ('f', 12),
   ('r', 13), ('e', 27), (' ', 32), (doubleQuote, 34), (backslash, 92), ('/', 47), ('N', 0x85),
   ('_', 0xA0), ('L', 0x2028), ('P', 0x2029)]

/-- The number of hexadecimal digits after an escape by number. -/
def escapeWidths : List (Char × Nat) :=
  [('x', 2), ('u', 4), ('U', 8)]

/-- Half of a surrogate pair. -/
def isSurrogate (code : Nat) : Bool :=
  0xD800 ≤ code && code ≤ 0xDFFF

/-- What an escape stands for, as the number of a character or nothing, and the text after it.
The text starts after the backslash. -/
def readEscape (cs : List Char) : Except Flaw (Option Nat × List Char × List Char) :=
  match cs with
  | [] => .error .invalid
  | e :: rest =>
    if isBreak e then
      match quotedBreaks true rest with
      | some (breaks, after) => .ok (none, breaks, after)
      | none => .error .invalid
    else
      match escapes.lookup e, escapeWidths.lookup e with
      | some code, _ => .ok (some code, [], rest)
      | none, some width =>
        let digits := rest.take width
        if digits.length = width && digits.all isHex then
          let code := digitsValue 16 digits
          if 0x10FFFF < code then .error .notACharacter
          else .ok (some code, [], rest.drop width)
        else .error .invalid
      | none, none => .error .invalid

/-- A scalar in quotes. -/
structure QuotedText where
  text : List Char
  /-- Whether an escape gives half of a surrogate pair. -/
  garbled : Bool
  after : List Char

/-- Reads the rest of a scalar in quotes, up to and with the closing quote. In single quotes a
doubled quote stands for one; in double quotes a backslash starts an escape. -/
def readQuoted (quote : Char) : (fuel : Nat) → List Char → Except Flaw QuotedText
  | 0, _ => .error .invalid
  | _, [] => .error .invalid
  | fuel + 1, c :: rest =>
    let put (text after : List Char) : Except Flaw QuotedText :=
      (readQuoted quote fuel after).map fun more => { more with text := text ++ more.text }
    if c = quote then
      if quote = apostrophe && rest.head? == some apostrophe then put [apostrophe] rest.tail
      else .ok ⟨[], false, rest⟩
    else if isSpacing c then
      match quotedSpacing (c :: rest) with
      | none => .error .invalid
      | some (text, after) => put text after
    else if quote = doubleQuote && c = backslash then do
      let (code, breaks, after) ← readEscape rest
      match code with
      | none => put breaks after
      | some code =>
        let more ← put [Char.ofNat code] after
        return { more with garbled := more.garbled || isSurrogate code }
    else put [c] rest

/-! ## As a block of lines -/

/-- What happens to the line ends after the last line of a block. -/
inductive Chomping
  | clip
  | strip
  | keep
  deriving DecidableEq, Repr

/-- How the lines of a block are read. -/
structure BlockHeader where
  chomping : Chomping := .clip
  /-- How far the lines are to the right of what is around them, if it is given. -/
  increment : Option Nat := none

/-- How a sign in the header of a block treats line ends. -/
def chomping? : Char → Option Chomping
  | '+' => some .keep
  | '-' => some .strip
  | _ => none

/-- The distance that a digit in the header of a block gives. -/
def increment? (c : Char) : Option Nat :=
  if '1' ≤ c && c ≤ '9' then some (c.toNat - '0'.toNat) else none

/-- Reads the signs after the indicator of a block, in either order. -/
def readHeader (cursor : Cursor) : BlockHeader × Cursor :=
  let sign? (position : Cursor) := position.rest.head?.bind chomping?
  let digit? (position : Cursor) := position.rest.head?.bind increment?
  match sign? cursor, digit? cursor with
  | some chomping, _ =>
    match digit? cursor.next with
    | some increment => (⟨chomping, some increment⟩, cursor.next.next)
    | none => (⟨chomping, none⟩, cursor.next)
  | none, some increment =>
    match sign? cursor.next with
    | some chomping => (⟨chomping, some increment⟩, cursor.next.next)
    | none => (⟨.clip, some increment⟩, cursor.next)
  | none, none => ({}, cursor)

/-- Moves over the empty lines before a block. Gives its line ends and the greatest column of
its spaces. -/
def leadingBreaks (cursor : Cursor) (breaks : List Char) (column : Nat) :
    List Char → List Char × Nat × Cursor
  | [] => (breaks, column, { cursor with rest := [] })
  | c :: rest =>
    let after := cursor.step c rest
    if isBreak c then leadingBreaks after (breaks ++ [breakValue c]) column rest
    else if c = ' ' then leadingBreaks after breaks (max column after.column) rest
    else (breaks, column, { cursor with rest := c :: rest })

/-- Moves over empty lines within a block, and over the spaces before its next line. -/
def blockBreaks (indent : Nat) (cursor : Cursor) (breaks : List Char) :
    List Char → List Char × Cursor
  | [] => (breaks, { cursor with rest := [] })
  | c :: rest =>
    let after := cursor.step c rest
    if isBreak c then blockBreaks indent after (breaks ++ [breakValue c]) rest
    else if c = ' ' && cursor.column < indent then blockBreaks indent after breaks rest
    else (breaks, { cursor with rest := c :: rest })

/-- The lines of a block. -/
structure BlockLines where
  text : List Char
  /-- The end of the last line. -/
  lastBreak : List Char
  /-- The line ends after it. -/
  breaks : List Char
  after : Cursor

/-- Whether a line of a block starts with a space. -/
def isIndented (cursor : Cursor) : Bool :=
  cursor.rest.head?.any isSpace

/-- Reads the lines of a block that start at a column. -/
def readLines (folded : Bool) (indent : Nat) (lastBreak breaks : List Char) :
    (fuel : Nat) → Cursor → BlockLines
  | 0, cursor => ⟨[], lastBreak, breaks, cursor⟩
  | fuel + 1, cursor =>
    if cursor.column != indent || cursor.rest.isEmpty then ⟨[], lastBreak, breaks, cursor⟩
    else
      let line := cursor.run (!isBreak ·)
      let afterLine := cursor.skip (!isBreak ·)
      let lineEnd := (afterLine.rest.take 1).map breakValue
      let (further, next) := blockBreaks indent afterLine.next [] afterLine.next.rest
      let tail := readLines folded indent lineEnd further fuel next
      let between :=
        if next.column != indent || next.rest.isEmpty then []
        else if folded && lineEnd == ['\n'] && !isIndented cursor && !isIndented next then
          if further.isEmpty then [' '] else []
        else lineEnd
      { tail with text := breaks ++ line ++ between ++ tail.text }

/-- Reads a block of lines. The position is after the indicator; `indent` is the least column of
the lines. -/
def readBlock (folded : Bool) (indent : Nat) (cursor : Cursor) :
    Except Flaw (List Char × Cursor) :=
  let (header, afterHeader) := readHeader cursor
  if !isWordEnd afterHeader.rest then .error .invalid
  else
    match afterHeader.skipLine? with
    | none => .error .invalid
    | some start =>
      let (breaks, column, position) := match header.increment with
        | none =>
          let (breaks, column, position) := leadingBreaks start [] 0 start.rest
          (breaks, max indent column, position)
        | some increment =>
          let column := indent + increment - 1
          let (breaks, position) := blockBreaks column start [] start.rest
          (breaks, column, position)
      let lines := readLines folded column [] breaks (position.rest.length + 1) position
      .ok (lines.text ++ match header.chomping with
        | .strip => []
        | .clip => lines.lastBreak
        | .keep => lines.lastBreak ++ lines.breaks, lines.after)

end NestLayers.Yaml
