import NestLayers.Yaml.ScalarText
import NestLayers.Yaml.Token

/-!
# From text to tokens

The indentation opens and closes block collections. A key is known as one only at its colon,
so that the tokens for it are put in afterwards: the lexer keeps, for every depth of flow
collections, the last place where a key may start. A key without an indicator must be on one
line with its colon and at most 1024 characters before it.
-/

namespace NestLayers.Yaml

open NestLayers.Text (apostrophe doubleQuote)

/-- A place where a key may start. -/
structure KeyPlace where
  /-- The number of open flow collections there. -/
  depth : Nat
  /-- The number of tokens before it. -/
  number : Nat
  /-- Whether nothing but a key can stand there. -/
  required : Bool
  index : Nat
  line : Nat
  column : Nat
  deriving DecidableEq, Repr

/-- How far a text is split into tokens. -/
structure Lexer where
  cursor : Cursor
  /-- The tokens so far, the last one first. -/
  tokens : List Token := []
  /-- The number of tokens so far. -/
  count : Nat := 0
  /-- Tokens to put before the token of a number. -/
  further : List (Nat × List Token) := []
  /-- The columns of the open block collections, the innermost one first. -/
  indents : List Nat := []
  /-- The number of open flow collections. -/
  depth : Nat := 0
  /-- Whether a key may start at the next token. -/
  keyAllowed : Bool := true
  /-- The places where a key may start, at most one for every depth. -/
  places : List KeyPlace := []
  deriving DecidableEq, Repr

namespace Lexer

/-- Adds a token. -/
def put (l : Lexer) (token : Token) : Lexer :=
  { l with tokens := token :: l.tokens, count := l.count + 1 }

/-- Adds a token of some characters. -/
def take (l : Lexer) (width : Nat) (token : Token) : Lexer :=
  { l with cursor := l.cursor.advance width }.put token

/-- Whether a flow collection is open. -/
def inFlow (l : Lexer) : Bool :=
  l.depth != 0

/-- The least column of what belongs to the innermost block collection. -/
def margin (l : Lexer) : Nat :=
  match l.indents with
  | [] => 0
  | column :: _ => column + 1

/-- Closes the block collections to the right of a column, or all without one. In a flow
collection indentation does not count. -/
def closeBlocks (l : Lexer) (column : Option Nat) : Lexer :=
  if l.inFlow then l
  else
    let closed := l.indents.takeWhile fun indent => column.all (· < indent)
    { l with
      indents := l.indents.drop closed.length
      tokens := List.replicate closed.length .blockEnd ++ l.tokens
      count := l.count + closed.length }

/-- Forgets the places for keys that are on another line or too far away. -/
def dropStale (l : Lexer) : Except Flaw Lexer :=
  let stale (place : KeyPlace) : Bool :=
    place.line != l.cursor.line || 1024 < l.cursor.index - place.index
  if l.places.any fun place => stale place && place.required then .error .invalid
  else .ok { l with places := l.places.filter (!stale ·) }

/-- Forgets the place for a key at the current depth. -/
def dropPlace (l : Lexer) : Except Flaw Lexer :=
  if l.places.any fun place => place.depth == l.depth && place.required then .error .invalid
  else .ok { l with places := l.places.filter (·.depth != l.depth) }

/-- Keeps the position as a place for a key, if a key may start here. -/
def keepPlace (l : Lexer) : Except Flaw Lexer :=
  if l.keyAllowed then do
    let place : KeyPlace :=
      { depth := l.depth
        number := l.count
        required := !l.inFlow && l.indents.head? == some l.cursor.column
        index := l.cursor.index
        line := l.cursor.line
        column := l.cursor.column }
    let l ← l.dropPlace
    return { l with places := place :: l.places }
  else .ok l

/-- Moves over spaces, comments and line ends. After a line end a key may start in a block. -/
def skipGap (l : Lexer) : Lexer :=
  let cursor := l.cursor.skipGap
  { l with cursor, keyAllowed := l.keyAllowed || (!l.inFlow && cursor.line != l.cursor.line) }

/-! ## Names, tags and directives -/

/-- A character of a name. -/
def isNameChar (c : Char) : Bool :=
  c.isAlphanum || c == '-' || c == '_'

/-- Reads the name of an anchor or of a reference to one. -/
def readName (cursor : Cursor) : Except Flaw (String × Cursor) :=
  let name := cursor.run isNameChar
  let after := cursor.skip isNameChar
  let ends := after.rest.head?.all fun c => isSpacing c || "?:,]\x7d%@`".toList.contains c
  if name.isEmpty || !ends then .error .invalid else .ok (String.ofList name, after)

/-- A character of a tag. -/
def isTagChar (c : Char) : Bool :=
  c.isAlphanum || "-;/?:@&=+$,_.!~*'()[]%".toList.contains c

/-- Reads the bytes that are written by number at the start of a tag. -/
def readBytes : List Char → Except Flaw (List UInt8 × List Char)
  | '%' :: a :: b :: rest =>
    if isHex a && isHex b then do
      let (bytes, after) ← readBytes rest
      return ((digitsValue 16 [a, b]).toUInt8 :: bytes, after)
    else .error .invalid
  | '%' :: _ => .error .invalid
  | cs => .ok ([], cs)

/-- Reads the characters of a tag. -/
def readTagText : (fuel : Nat) → List Char → Except Flaw (List Char × List Char)
  | 0, cs => .ok ([], cs)
  | fuel + 1, cs =>
    match cs with
    | [] => .ok ([], [])
    | c :: rest =>
      if c = '%' then do
        let (bytes, after) ← readBytes cs
        let some text := String.fromUTF8? ⟨bytes.toArray⟩ | .error .invalid
        let (more, remaining) ← readTagText fuel after
        return (text.toList ++ more, remaining)
      else if isTagChar c then do
        let (more, remaining) ← readTagText fuel rest
        return (c :: more, remaining)
      else .ok ([], cs)

/-- Reads the characters of a tag; there must be some. -/
def readTagPart (cursor : Cursor) : Except Flaw (String × Cursor) := do
  let (text, remaining) ← readTagText cursor.rest.length cursor.rest
  if remaining.length < cursor.rest.length then
    return (String.ofList text, cursor.moveTo remaining)
  else .error .invalid

/-- Reads the short form that a tag starts with: an exclamation mark alone, or a name between
two. -/
def readHandle (cursor : Cursor) : Except Flaw (String × Cursor) :=
  if !cursor.sees '!' then .error .invalid
  else if cursor.next.sees ' ' then .ok ("!", cursor.next)
  else
    let name := cursor.next.run isNameChar
    let after := cursor.next.skip isNameChar
    if after.sees '!' then .ok ("!" ++ String.ofList name ++ "!", after.next) else .error .invalid

/-- Reads a tag. -/
def readTag (cursor : Cursor) : Except Flaw (Token × Cursor) := do
  let (token, after) ←
    if cursor.next.sees '<' then do
      let (name, after) ← readTagPart cursor.next.next
      if after.sees '>' then pure (Token.tag none name, after.next) else .error .invalid
    else if isClear cursor.next.rest then pure (Token.tag none "!", cursor.next)
    else do
      let word := cursor.next.run fun c => !(c == ' ' || isBreak c)
      let (handle, start) ←
        if word.contains '!' then readHandle cursor else pure ("!", cursor.next)
      let (suffix, after) ← readTagPart start
      pure (Token.tag (some handle) suffix, after)
  if isWordEnd after.rest then return (token, after) else .error .invalid

/-- Reads the number of a version. -/
def readNumber (cursor : Cursor) : Except Flaw (Nat × Cursor) :=
  let digits := cursor.run Char.isDigit
  if digits.isEmpty then .error .invalid
  else .ok (digitsValue 10 digits, cursor.skip Char.isDigit)

/-- Reads a directive and the rest of its line. -/
def readDirective (cursor : Cursor) : Except Flaw (Token × Cursor) := do
  let name := cursor.next.run isNameChar
  let after := cursor.next.skip isNameChar
  if name.isEmpty || !isWordEnd after.rest then .error .invalid
  else
    let start := after.skip (· == ' ')
    let (token, after) ←
      if name = "YAML".toList then do
        let (major, after) ← readNumber start
        if after.sees '.' then
          let (_, after) ← readNumber after.next
          if isWordEnd after.rest then pure (Token.version major, after) else .error .invalid
        else .error .invalid
      else if name = "TAG".toList then do
        let (handle, after) ← readHandle start
        if after.sees ' ' then
          let (full, after) ← readTagPart (after.skip (· == ' '))
          if isWordEnd after.rest then pure (Token.shorthand handle full, after)
          else .error .invalid
        else .error .invalid
      else pure (Token.directive, start.skip (!isBreak ·))
    match after.skipLine? with
    | some after => return (token, after)
    | none => .error .invalid

/-! ## Tokens -/

/-- Takes a marker of a document or a directive, before which everything is closed. -/
def takeBoundary (l : Lexer) (token : Token) (cursor : Cursor) : Except Flaw Lexer := do
  let l ← (l.closeBlocks none).dropPlace
  return { l with cursor, keyAllowed := false }.put token

/-- Takes the opening of a flow collection. -/
def takeOpening (l : Lexer) (token : Token) : Except Flaw Lexer := do
  let l ← l.keepPlace
  return { l with depth := l.depth + 1, keyAllowed := true }.take 1 token

/-- Takes the closing of a flow collection. -/
def takeClosing (l : Lexer) (token : Token) : Except Flaw Lexer :=
  if l.inFlow then do
    let l ← l.dropPlace
    return { l with depth := l.depth - 1, keyAllowed := false }.take 1 token
  else .error .invalid

/-- Takes a comma. -/
def takeComma (l : Lexer) : Except Flaw Lexer := do
  let l ← l.dropPlace
  return { l with keyAllowed := true }.take 1 .comma

/-- Opens a block collection at the position, unless there is one at its column. -/
def openBlock (l : Lexer) (token : Token) : Except Flaw Lexer :=
  if l.inFlow then .ok l
  else if !l.keyAllowed then .error .invalid
  else if l.margin ≤ l.cursor.column then
    .ok ({ l with indents := l.cursor.column :: l.indents }.put token)
  else .ok l

/-- Takes the dash of an item. -/
def takeDash (l : Lexer) : Except Flaw Lexer := do
  let l ← (← l.openBlock .blockList).dropPlace
  return { l with keyAllowed := true }.take 1 .dash

/-- Takes the question mark of a key. -/
def takeQuestion (l : Lexer) : Except Flaw Lexer := do
  let l ← (← l.openBlock .blockMapping).dropPlace
  return { l with keyAllowed := !l.inFlow }.take 1 .key

/-- Takes the colon of a value. What stands at the place for a key before it is the key. -/
def takeColon (l : Lexer) : Except Flaw Lexer :=
  match l.places.find? (·.depth == l.depth) with
  | some place =>
    let opens := !l.inFlow && l.margin ≤ place.column
    let l := { l with
      places := l.places.filter (·.depth != l.depth)
      further := (place.number, if opens then [.blockMapping, .key] else [.key]) :: l.further
      indents := if opens then place.column :: l.indents else l.indents
      keyAllowed := false }
    .ok (l.take 1 .colon)
  | none => do
    let l ← l.openBlock .blockMapping
    return { l with keyAllowed := !l.inFlow }.take 1 .colon

/-- Takes a token that may start a key and is read by a function. -/
def takeWord (l : Lexer) (read : Cursor → Except Flaw (Token × Cursor)) : Except Flaw Lexer := do
  let l ← l.keepPlace
  let (token, cursor) ← read l.cursor
  return { l with cursor, keyAllowed := false }.put token

/-- Takes a block of lines. -/
def takeBlock (l : Lexer) (folded : Bool) : Except Flaw Lexer := do
  let l ← l.dropPlace
  let (text, cursor) ← readBlock folded (max 1 l.margin) l.cursor.next
  return { l with cursor, keyAllowed := true }.put (.scalar (String.ofList text) .quoted)

/-- Takes a scalar without quotes. -/
def takePlain (l : Lexer) : Except Flaw Lexer := do
  let l ← l.keepPlace
  let plain := readPlain l.inFlow l.margin false [] l.cursor.rest.length l.cursor
  return { l with cursor := plain.after, keyAllowed := plain.lineLeft }.put
    (.scalar (String.ofList plain.text) .plain)

/-- Reads a scalar in quotes. -/
def readQuotes (quote : Char) (cursor : Cursor) : Except Flaw (Token × Cursor) := do
  let quoted ← readQuoted quote cursor.rest.length cursor.next.rest
  return (.scalar (String.ofList quoted.text) (if quoted.garbled then .garbled else .quoted),
    cursor.next.moveTo quoted.after)

/-- The characters that cannot start a scalar without quotes. -/
def isIndicator (c : Char) : Bool :=
  isSpacing c || "-?:,[]\x7b\x7d#&*!|>'\"%@`".toList.contains c

/-- Whether a scalar without quotes starts with a character. A dash may start one if it is not
clear of what follows, and so may a question mark or a colon outside flow collections. -/
def startsPlain (flow : Bool) (c : Char) (rest : List Char) : Bool :=
  !isIndicator c || (!isClear rest && (c == '-' || (!flow && (c == '?' || c == ':'))))

/-- Takes the token that starts with a character. -/
def takeToken (l : Lexer) (c : Char) (rest : List Char) : Except Flaw Lexer :=
  let atStart := l.cursor.column = 0
  let clear := isClear rest
  if c = '%' && atStart then do
    let (token, cursor) ← readDirective l.cursor
    l.takeBoundary token cursor
  else if atStart && startsWithMarker '-' (c :: rest) then
    l.takeBoundary .documentStart (l.cursor.advance 3)
  else if atStart && startsWithMarker '.' (c :: rest) then
    l.takeBoundary .documentEnd (l.cursor.advance 3)
  else if c = '[' then l.takeOpening .listStart
  else if c = '\x7b' then l.takeOpening .mappingStart
  else if c = ']' then l.takeClosing .listEnd
  else if c = '\x7d' then l.takeClosing .mappingEnd
  else if c = ',' then l.takeComma
  else if c = '-' && clear then l.takeDash
  else if c = '?' && (l.inFlow || clear) then l.takeQuestion
  else if c = ':' && (l.inFlow || clear) then l.takeColon
  else if c = '*' then l.takeWord fun cursor => do
    let (name, cursor) ← readName cursor.next
    return (.reference name, cursor)
  else if c = '&' then l.takeWord fun cursor => do
    let (name, cursor) ← readName cursor.next
    return (.anchor name, cursor)
  else if c = '!' then l.takeWord readTag
  else if c = '|' && !l.inFlow then l.takeBlock false
  else if c = '>' && !l.inFlow then l.takeBlock true
  else if c = apostrophe || c = doubleQuote then l.takeWord (readQuotes c)
  else if startsPlain l.inFlow c rest then l.takePlain
  else .error .invalid

/-- Splits the rest of a text into tokens. `fuel` bounds their number. -/
def run : (fuel : Nat) → Lexer → Except Flaw Lexer
  | 0, _ => .error .invalid
  | fuel + 1, l => do
    let l ← l.skipGap.dropStale
    let l := l.closeBlocks (some l.cursor.column)
    match l.cursor.rest with
    | [] => (l.closeBlocks none).dropPlace
    | c :: rest => run fuel (← l.takeToken c rest)

end Lexer

/-- The tokens of a text. -/
def tokenize (cs : List Char) : Except Flaw (List Token) := do
  let l ← Lexer.run (cs.length + 1) { cursor := { rest := cs } }
  return weave l.further l.tokens.reverse

end NestLayers.Yaml
