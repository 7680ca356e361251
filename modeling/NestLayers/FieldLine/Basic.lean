import NestLayers.FieldLine.Token
import NestLayers.Text.Search

/-!
# Field lines

A body line of a model declares one field: its name, its type, the marks for a list and
for an optional value, its attributes, and a comment that describes it.
-/

namespace NestLayers

open NestLayers.Text

/-- The parts of a field line. -/
structure FieldLine where
  name : String
  typeName : String
  isArray : Bool
  isOptional : Bool
  /-- The attributes as they stand in the line. -/
  attributes : List String
  comment : String
  deriving DecidableEq, Repr

namespace FieldLine

/-- Takes a name off the tokens; `cause` says what was expected instead of the token found. -/
def takeName (cause : Lexeme → Cause) :
    List Token → Except SyntaxError (String × List Token)
  | ⟨.name text, _⟩ :: rest => .ok (text, rest)
  | ⟨lexeme, column⟩ :: _ => .error ⟨cause lexeme, column⟩
  | [] => .error ⟨cause .endOfLine, 1⟩

/-- Takes a mark off the tokens, if it comes first. -/
def takeMark (mark : Lexeme) : List Token → Bool × List Token
  | token :: rest => if token.lexeme = mark then (true, rest) else (false, token :: rest)
  | [] => (false, [])

/-- Takes the attributes off the tokens. -/
def takeAttributes : List Token → List String × List Token
  | ⟨.attribute text, _⟩ :: rest =>
    let (attributes, remaining) := takeAttributes rest
    (text :: attributes, remaining)
  | tokens => ([], tokens)

/-- The comment that comes first, which must not be empty. -/
def takeComment : List Token → Except SyntaxError String
  | ⟨.comment text, column⟩ :: _ =>
    if text = "" then .error ⟨.emptyComment, column⟩ else .ok text
  | ⟨lexeme, column⟩ :: _ => .error ⟨.noComment lexeme, column⟩
  | [] => .error ⟨.noComment .endOfLine, 1⟩

/-- Reads the parts of a field line off its tokens. -/
def ofTokens (tokens : List Token) : Except SyntaxError FieldLine := do
  let (name, tokens) ← takeName .noFieldName tokens
  let (typeName, tokens) ← takeName .noFieldType tokens
  let (isArray, tokens) := takeMark .array tokens
  let (isOptional, tokens) := takeMark .optional tokens
  let (attributes, tokens) := takeAttributes tokens
  let comment ← takeComment tokens
  return { name, typeName, isArray, isOptional, attributes, comment }

/-- Reads a field line. -/
def parse (line : String) : Except SyntaxError FieldLine := do
  ofTokens (← tokenize line)

/-- The first attribute of a name. The name includes the `@` and excludes the arguments. -/
def attribute? (field : FieldLine) (name : String) : Option String :=
  field.attributes.find? fun text => beforeChar '(' text == name

/-- Whether the line has an attribute of a name. -/
def hasAttribute (field : FieldLine) (name : String) : Bool :=
  (field.attribute? name).isSome

/-- What follows `fields: [` at the start of a text: the first name of the list. -/
def fieldsArgument? (cs : List Char) : Option String := do
  let afterKey ← afterStart? "fields".toList cs
  let afterColon ← afterStart? [':'] (afterKey.dropWhile isBlank)
  let afterBracket ← afterStart? ['['] (afterColon.dropWhile isBlank)
  let name := (afterBracket.dropWhile isBlank).takeWhile isWord
  if name.isEmpty then none else some (String.ofList name)

/-- The first name of the first `fields: [...]` in a text. The key stands at the start of a
word: `afterWord` tells whether the text follows a word character. -/
def relationIdFrom? (afterWord : Bool) : List Char → Option String
  | [] => none
  | c :: rest =>
    match if afterWord then none else fieldsArgument? (c :: rest) with
    | some name => some name
    | none => relationIdFrom? (isWord c) rest

/-- The field that a relation is stored in, named by the `@relation` attribute. -/
def relationId? (field : FieldLine) : Option String := do
  let text ← field.attribute? "@relation"
  relationIdFrom? false text.toList

end FieldLine

end NestLayers
