import NestLayers.Text.Blank
import NestLayers.Text.Quoted
import NestLayers.Text.Word

/-!
# Tokens of a field line

A field line is cut into tokens from left to right, each taking as many characters as it
can. Columns count characters from one. An attribute takes the parenthesised group that
follows its name directly; inside the group, quoted strings are opaque. A comment takes the
rest of the line. The last token is the end of the line.
-/

namespace NestLayers.FieldLine

open NestLayers.Text

/-- The kinds of tokens, with their text where it varies. -/
inductive Lexeme
  | name (text : String)
  | array
  | optional
  | attribute (text : String)
  | comment (text : String)
  | endOfLine
  deriving DecidableEq, Repr

/-- The text of a token. A comment's text is what follows the slashes, without the blanks at
both ends. -/
def Lexeme.text : Lexeme → String
  | .name text => text
  | .array => "[]"
  | .optional => "?"
  | .attribute text => text
  | .comment text => text
  | .endOfLine => ""

/-- What a kind of token is called in messages. -/
def Lexeme.label : Lexeme → String
  | .name _ => "an identifier"
  | .array => "'[]'"
  | .optional => "'?'"
  | .attribute _ => "an '@' attribute"
  | .comment _ => "'//' followed by a field description"
  | .endOfLine => "end of line"

/-- How a token is shown in messages: by its text, or by its kind if it has none. -/
def Lexeme.shown (lexeme : Lexeme) : String :=
  if lexeme.text = "" then lexeme.label else quoted lexeme.text

/-- A token and the column of its first character. -/
structure Token where
  lexeme : Lexeme
  column : Nat
  deriving DecidableEq, Repr

/-- Why a line is not a field line. -/
inductive Cause
  | unbalancedGroup
  | noAttributeName
  | unexpectedChar (c : Char)
  | noFieldName (found : Lexeme)
  | noFieldType (found : Lexeme)
  | noComment (found : Lexeme)
  | emptyComment
  deriving DecidableEq, Repr

/-- The message for a cause. -/
def Cause.message : Cause → String
  | .unbalancedGroup => "Unbalanced parentheses in attribute."
  | .noAttributeName => "Expected an attribute name after '@'."
  | .unexpectedChar c => "Unexpected character " ++ quoted (String.singleton c) ++ "."
  | .noFieldName found => "Expected a field name, found " ++ found.shown ++ "."
  | .noFieldType found => "Expected a field type, found " ++ found.shown ++ "."
  | .noComment found =>
    "Expected '//' followed by a field description, found " ++ found.shown ++ "."
  | .emptyComment => "Field description is empty."

/-- A cause and the column of the token that shows it. -/
structure SyntaxError where
  cause : Cause
  column : Nat
  deriving DecidableEq, Repr

/-- Puts a character in front of the first part of a cut. -/
def keep (c : Char) (cut : List Char × List Char) : List Char × List Char :=
  (c :: cut.1, cut.2)

/-- Cuts a text after the parenthesis that closes the `depth` open ones. `quote` is the quote
of the string the text starts in; inside a string a backslash takes the next character with
it. -/
def cutGroup (depth : Nat) (quote : Option Char) :
    List Char → Option (List Char × List Char)
  | [] => none
  | c :: rest =>
    match quote with
    | some q =>
      if c = backslash then
        match rest with
        | [] => none
        | d :: rest => (cutGroup depth (some q) rest).map fun cut => keep c (keep d cut)
      else (cutGroup depth (if c = q then none else some q) rest).map (keep c)
    | none =>
      if c = doubleQuote || c = apostrophe then (cutGroup depth (some c) rest).map (keep c)
      else if c = '(' then (cutGroup (depth + 1) none rest).map (keep c)
      else if c = ')' then
        if depth = 1 then some ([c], rest) else (cutGroup (depth - 1) none rest).map (keep c)
      else (cutGroup depth none rest).map (keep c)

/-- A cut loses nothing. -/
theorem cutGroup_append {depth : Nat} {quote : Option Char} {cs : List Char}
    {cut : List Char × List Char} (h : cutGroup depth quote cs = some cut) :
    cut.1 ++ cut.2 = cs := by
  fun_induction cutGroup depth quote cs generalizing cut with
  | case1 => simp at h
  | case2 => simp at h
  | case3 depth q d rest ih =>
    obtain ⟨inner, hinner, rfl⟩ := Option.map_eq_some_iff.1 h
    simp [keep, ih hinner]
  | case4 depth c rest q hc ih =>
    obtain ⟨inner, hinner, rfl⟩ := Option.map_eq_some_iff.1 h
    simp [keep, ih hinner]
  | case5 depth c rest hc ih =>
    obtain ⟨inner, hinner, rfl⟩ := Option.map_eq_some_iff.1 h
    simp [keep, ih hinner]
  | case6 depth rest hc ih =>
    obtain ⟨inner, hinner, rfl⟩ := Option.map_eq_some_iff.1 h
    simp [keep, ih hinner]
  | case7 =>
    simp only [Option.some.injEq] at h
    simp [← h]
  | case8 depth rest hc hopen hdepth ih =>
    obtain ⟨inner, hinner, rfl⟩ := Option.map_eq_some_iff.1 h
    simp [keep, ih hinner]
  | case9 depth c rest hc hopen hclose ih =>
    obtain ⟨inner, hinner, rfl⟩ := Option.map_eq_some_iff.1 h
    simp [keep, ih hinner]

/-- The characters of an attribute name after the first one. -/
def isAttributeChar (c : Char) : Bool :=
  isWord c || c == '.'

/-- Cuts an attribute's arguments off the text after its name: the group, if the text starts
with a parenthesis, and nothing otherwise. -/
def cutArguments (cs : List Char) : Option (List Char × List Char) :=
  if cs.head? = some '(' then cutGroup 0 none cs else some ([], cs)

/-- Cutting arguments off loses nothing. -/
theorem cutArguments_append {cs : List Char} {cut : List Char × List Char}
    (h : cutArguments cs = some cut) : cut.1 ++ cut.2 = cs := by
  unfold cutArguments at h
  split at h
  · exact cutGroup_append h
  · simp only [Option.some.injEq] at h
    simp [← h]

/-- What a turn of the scanner comes to: it is the last one, or the scanner goes on at a column with
the rest of the line, behind what it has found. -/
inductive Turn
  | last (result : Except SyntaxError (List Token))
  | next (found : List Token) (column : Nat) (rest : List Char)

/-- A turn of the scanner at the rest of a line that starts at a column. -/
def turn (column : Nat) : List Char → Turn
  | [] => .last (.ok [⟨.endOfLine, column⟩])
  | c :: rest =>
    if isBlank c then .next [] (column + 1) rest
    else if c = '/' ∧ rest.head? = some '/' then
      .last (.ok [⟨.comment (String.ofList (trimChars rest.tail)), column⟩,
        ⟨.endOfLine, column + rest.length + 1⟩])
    else if c = '@' then
      if rest.head?.any isNameStart then
        let name := rest.takeWhile isAttributeChar
        match cutArguments (rest.dropWhile isAttributeChar) with
        | none => .last (.error ⟨.unbalancedGroup, column + name.length + 1⟩)
        | some (arguments, remaining) =>
          .next [⟨.attribute (String.ofList (c :: name ++ arguments)), column⟩]
            (column + name.length + arguments.length + 1) remaining
      else .last (.error ⟨.noAttributeName, column⟩)
    else if c = '[' ∧ rest.head? = some ']' then .next [⟨.array, column⟩] (column + 2) rest.tail
    else if c = '?' then .next [⟨.optional, column⟩] (column + 1) rest
    else if isNameStart c then
      let name := rest.takeWhile isWord
      .next [⟨.name (String.ofList (c :: name)), column⟩] (column + name.length + 1)
        (rest.dropWhile isWord)
    else .last (.error ⟨.unexpectedChar c, column⟩)

/-- **Step.** A turn that is not the last one takes a character at least. -/
theorem length_lt_of_turn {column column' : Nat} {cs rest : List Char} {found : List Token}
    (h : turn column cs = .next found column' rest) : rest.length < cs.length := by
  cases cs with
  | nil => cases h
  | cons c tail =>
    have hdrop (p : Char → Bool) := (List.dropWhile_suffix (l := tail) p).length_le
    rw [turn] at h
    repeat' split at h
    all_goals cases h
    · exact Nat.lt_succ_self _
    · rename_i hcut
      have happend := congrArg List.length (cutArguments_append hcut)
      have hattribute := hdrop isAttributeChar
      simp only [List.length_append, List.length_cons] at happend ⊢
      omega
    · simp only [List.length_tail, List.length_cons]
      omega
    · exact Nat.lt_succ_self _
    · exact Nat.lt_succ_of_le (hdrop isWord)

/-- The tokens of the rest of a line that starts at a column. -/
def tokensFrom (column : Nat) (cs : List Char) : Except SyntaxError (List Token) :=
  match _ : turn column cs with
  | .last result => result
  | .next found column rest => (tokensFrom column rest).map (found ++ ·)
  termination_by cs.length
  decreasing_by exact length_lt_of_turn ‹_›

/-- The tokens of a line. -/
def tokenize (line : String) : Except SyntaxError (List Token) :=
  tokensFrom 1 line.toList

end NestLayers.FieldLine
