import NestLayers.FieldLine.Basic
import NestLayers.Proofs.Groups
import NestLayers.Proofs.Outcomes

/-!
# How a field line is cut into tokens

`Lexes` says without a scanner which tokens a line consists of. The scanner finds the tokens
of exactly the lines that have any, so that statements about tokens are proved by induction on
`Lexes`. Reading the parts of a field off the tokens is independent of the columns, and is
described by the row of lexemes that a field line has.
-/

namespace NestLayers

namespace FieldLine

open NestLayers.Text

/-- The text is that of an attribute with a name and arguments, and what follows continues
neither. -/
def IsAttribute (body rest : List Char) : Prop :=
  ∃ name arguments, body = '@' :: name ++ arguments ∧ IsAttributeName name ∧
    Stops isAttributeChar (arguments ++ rest) ∧
    (IsGroup arguments ∨ arguments = [] ∧ rest.head? ≠ some '(')

/-- How a lexeme stands in a line: `body` is its text and `rest` is what follows it. Comments
and the end of the line are not followed by anything and have rules of their own. -/
def IsLexeme : Lexeme → (body rest : List Char) → Prop
  | .name text, body, rest => text = String.ofList body ∧ IsName body ∧ Stops isWord rest
  | .array, body, _ => body = ['[', ']']
  | .optional, body, _ => body = ['?']
  | .attribute text, body, rest => text = String.ofList body ∧ IsAttribute body rest
  | .comment _, _, _ => False
  | .endOfLine, _, _ => False

/-- The line that starts at a column consists of the tokens. -/
inductive Lexes : (column : Nat) → List Char → List Token → Prop
  | endOfLine (column : Nat) : Lexes column [] [⟨.endOfLine, column⟩]
  | blank {column : Nat} {c : Char} {rest : List Char} {tokens : List Token} :
    isBlank c = true → Lexes (column + 1) rest tokens → Lexes column (c :: rest) tokens
  | comment (column : Nat) (rest : List Char) :
    Lexes column ('/' :: '/' :: rest)
      [⟨.comment (String.ofList (trimChars rest)), column⟩, ⟨.endOfLine, column + rest.length + 2⟩]
  | lexeme {column : Nat} {l : Lexeme} {body rest : List Char} {tokens : List Token} :
    IsLexeme l body rest → Lexes (column + body.length) rest tokens →
    Lexes column (body ++ rest) (⟨l, column⟩ :: tokens)

/-- What the scanner takes as an attribute is one. -/
theorem isAttribute_of_cutArguments {rest arguments remaining : List Char}
    (hstart : rest.head?.any isNameStart = true)
    (hcut : cutArguments (rest.dropWhile isAttributeChar) = some (arguments, remaining)) :
    IsAttribute ('@' :: rest.takeWhile isAttributeChar ++ arguments) remaining := by
  obtain ⟨hsplit, harguments⟩ := cutArguments_eq_some_iff.mp hcut
  refine ⟨_, arguments, rfl, isRun_takeWhile hstart fun _ => isAttributeChar_of_isNameStart, ?_,
    harguments⟩
  rw [← hsplit]
  exact stops_dropWhile _ _

/-! ## Turns of the scanner -/

section Turns

variable {column column' : Nat} {cs body rest : List Char} {found tokens : List Token} {l : Lexeme}

/-- The tokens of a line are those of a turn, and then those of the rest of the line. -/
theorem tokensFrom_eq_turn (column : Nat) (cs : List Char) :
    tokensFrom column cs =
      match turn column cs with
      | .last result => result
      | .next found column rest => (tokensFrom column rest).map (found ++ ·) := by
  rw [tokensFrom]
  split <;> rename_i hturn <;> rw [hturn]

/-- At the name of an attribute the scanner cuts off the arguments that follow it. -/
theorem turn_attributeName {name : List Char} (hname : IsAttributeName name)
    (hstop : Stops isAttributeChar rest) (column : Nat) :
    turn column ('@' :: name ++ rest) =
      match cutArguments rest with
      | none => .last (.error ⟨.unbalancedGroup, column + name.length + 1⟩)
      | some (arguments, remaining) =>
        .next [⟨.attribute (String.ofList ('@' :: name ++ arguments)), column⟩]
          (column + name.length + arguments.length + 1) remaining := by
  have hat : isBlank '@' = false := by decide
  have hslash : ¬ ('@' = '/' ∧ (name ++ rest).head? = some '/') := by simp
  have hhead : (name ++ rest).head?.any isNameStart = true := by
    cases name with
    | nil => exact hname.elim
    | cons c cs => simpa using hname.1
  have hall : ∀ c ∈ name, isAttributeChar c = true :=
    hname.all fun _ => isAttributeChar_of_isNameStart
  rw [List.cons_append, turn]
  cases hcut : cutArguments rest <;>
    simp only [hat, Bool.false_eq_true, if_false, if_neg hslash, hhead, if_true,
      takeWhile_append_stops hall hstop, dropWhile_append_stops hall hstop, hcut]

/-- The scanner takes a whole name. -/
private theorem turn_name (hbody : IsName body) (hstop : Stops isWord rest) (column : Nat) :
    turn column (body ++ rest) =
      .next [⟨.name (String.ofList body), column⟩] (column + body.length) rest := by
  cases body with
  | nil => exact hbody.elim
  | cons c cs =>
    obtain ⟨hc, hcs⟩ := hbody
    have hother : ∀ d, isNameStart d = false → c ≠ d := by
      rintro d hd rfl
      rw [hc] at hd
      cases hd
    rw [List.cons_append, turn, takeWhile_append_stops hcs hstop, dropWhile_append_stops hcs hstop]
    simp [isBlank_of_isNameStart hc, hother '/' (by decide), hother '@' (by decide),
      hother '[' (by decide), hother '?' (by decide), hc, Nat.add_assoc]

/-- **The scanner takes a whole lexeme** and goes on behind it. -/
theorem turn_lexeme (h : IsLexeme l body rest) (column : Nat) :
    turn column (body ++ rest) = .next [⟨l, column⟩] (column + body.length) rest := by
  cases l with
  | name text =>
    obtain ⟨rfl, hbody, hstop⟩ := h
    exact turn_name hbody hstop column
  | array =>
    obtain rfl := h
    have hblank : isBlank '[' = false := by decide
    simp [turn, hblank]
  | optional =>
    obtain rfl := h
    have hblank : isBlank '?' = false := by decide
    simp [turn, hblank]
  | «attribute» text =>
    obtain ⟨rfl, name, arguments, rfl, hname, hstop, hkind⟩ := h
    have hcut : cutArguments (arguments ++ rest) = some (arguments, rest) :=
      cutArguments_eq_some_iff.mpr ⟨rfl, hkind⟩
    rw [List.append_assoc, turn_attributeName hname hstop, hcut, List.length_append,
      List.length_cons]
    exact congrArg (Turn.next _ · rest) (by omega)
  | comment text => exact h.elim
  | endOfLine => exact h.elim

/-- A turn that is not the last one takes a blank or a whole lexeme. -/
theorem turn_eq_next (h : turn column cs = .next found column' rest) :
    (∃ c, isBlank c = true ∧ cs = c :: rest ∧ found = [] ∧ column' = column + 1) ∨
      ∃ l body, IsLexeme l body rest ∧ cs = body ++ rest ∧ found = [⟨l, column⟩] ∧
        column' = column + body.length := by
  cases cs with
  | nil => cases h
  | cons c tail =>
    rw [turn] at h
    split_ifs at h with hblank hcomment hat hstart harray hoptional hname
    · cases h
      exact .inl ⟨c, hblank, rfl, rfl, rfl⟩
    · subst hat
      split at h
      · cases h
      · rename_i arguments remaining hcut
        cases h
        refine .inr ⟨.attribute _, _, ⟨rfl, isAttribute_of_cutArguments hstart hcut⟩, ?_, rfl, ?_⟩
        · rw [List.append_assoc, cutArguments_append hcut, List.cons_append,
            List.takeWhile_append_dropWhile]
        · simp only [List.cons_append, List.length_cons, List.length_append]
          omega
    · obtain ⟨rfl, hbracket⟩ := harray
      obtain ⟨after, rfl⟩ := List.head?_eq_some_iff.mp hbracket
      cases h
      exact .inr ⟨.array, _, rfl, rfl, rfl, rfl⟩
    · subst hoptional
      cases h
      exact .inr ⟨.optional, _, rfl, rfl, rfl, rfl⟩
    · cases h
      have hbody : IsName (c :: tail.takeWhile isWord) :=
        ⟨hname, fun d hd => List.mem_takeWhile_imp hd⟩
      refine .inr ⟨.name _, _, ⟨rfl, hbody, stops_dropWhile isWord tail⟩, ?_, rfl, rfl⟩
      rw [List.cons_append, List.takeWhile_append_dropWhile]

/-- The last turn of a scan that succeeds finds the end of the line, or a comment. -/
theorem lexes_of_turn (h : turn column cs = .last (.ok tokens)) : Lexes column cs tokens := by
  cases cs with
  | nil =>
    cases h
    exact .endOfLine column
  | cons c tail =>
    rw [turn] at h
    split_ifs at h with hblank hcomment hat hstart harray hoptional hname
    · obtain ⟨rfl, hslash⟩ := hcomment
      obtain ⟨rest, rfl⟩ := List.head?_eq_some_iff.mp hslash
      cases h
      exact .comment column rest
    · split at h <;> cases h
    all_goals cases h

/-- A turn fails where it starts, or behind the name of an attribute. -/
theorem turn_eq_error {e : SyntaxError} (h : turn column cs = .last (.error e)) :
    ∃ front rest, cs = front ++ rest ∧ e.column = column + front.length ∧
      (front = [] ∨ ∃ l, IsLexeme l front []) := by
  cases cs with
  | nil => cases h
  | cons c tail =>
    rw [turn] at h
    split_ifs at h with hblank hcomment hat hstart harray hoptional hname
    · cases h
    · subst hat
      split at h
      · -- the name is a whole token if its arguments are taken away
        cases h
        have hname := isRun_takeWhile hstart fun _ => isAttributeChar_of_isNameStart
        refine ⟨'@' :: tail.takeWhile isAttributeChar, tail.dropWhile isAttributeChar, ?_, rfl,
          .inr ⟨.attribute _, rfl, _, [], (List.append_nil _).symm, hname, stops_nil _,
            .inr ⟨rfl, by simp⟩⟩⟩
        rw [List.cons_append, List.takeWhile_append_dropWhile]
      · cases h
    all_goals
      cases h
      exact ⟨[], _, rfl, rfl, .inl rfl⟩

/-- **Induction over a scan.** What holds of the last turn of a scan, and holds of a line if it
holds behind the blank or the lexeme that the line starts with, holds of what the scanner finds. -/
theorem tokensFrom_induction {motive : Nat → List Char → Except SyntaxError (List Token) → Prop}
    (last : ∀ {column cs result}, turn column cs = .last result → motive column cs result)
    (blank : ∀ {column c rest result}, isBlank c = true → motive (column + 1) rest result →
      motive column (c :: rest) result)
    (lexeme : ∀ {column l body rest result}, IsLexeme l body rest →
      motive (column + body.length) rest result →
      motive column (body ++ rest) (result.map (⟨l, column⟩ :: ·)))
    (column : Nat) (cs : List Char) : motive column cs (tokensFrom column cs) := by
  fun_induction tokensFrom column cs with
  | case1 column cs result hturn => exact last hturn
  | case2 column cs found column' rest hturn ih =>
    rcases turn_eq_next hturn with ⟨c, hc, rfl, rfl, rfl⟩ | ⟨l, body, hl, rfl, rfl, rfl⟩
    · have hmap : (tokensFrom (column + 1) rest).map ([] ++ ·) = tokensFrom (column + 1) rest := by
        cases tokensFrom (column + 1) rest <;> rfl
      rw [hmap]
      exact blank hc ih
    · exact lexeme hl ih

/-- The scanner finds tokens that the line consists of. -/
theorem lexes_of_tokensFrom (h : tokensFrom column cs = .ok tokens) : Lexes column cs tokens := by
  refine tokensFrom_induction
    (motive := fun column cs result => ∀ tokens, result = .ok tokens → Lexes column cs tokens)
    ?_ ?_ ?_ column cs tokens h
  · rintro column cs _ hturn tokens rfl
    exact lexes_of_turn hturn
  · intro column c rest result hc ih tokens htokens
    exact .blank hc (ih tokens htokens)
  · intro column l body rest result hl ih tokens htokens
    obtain ⟨found, hfound, rfl⟩ := except_map_eq_ok.mp htokens
    exact .lexeme hl (ih found hfound)

/-- The scanner finds the tokens that a line consists of. -/
theorem tokensFrom_of_lexes (h : Lexes column cs tokens) : tokensFrom column cs = .ok tokens := by
  induction h with
  | endOfLine column => rw [tokensFrom_eq_turn, turn]
  | blank hc _ ih =>
    rw [tokensFrom_eq_turn, turn, if_pos hc]
    exact congrArg (Except.map _) ih
  | comment column rest =>
    have hslash : isBlank '/' = false := by decide
    rw [tokensFrom_eq_turn, turn]
    simp [hslash, Nat.add_assoc]
  | lexeme hl _ ih =>
    rw [tokensFrom_eq_turn, turn_lexeme hl]
    exact congrArg (Except.map _) ih

end Turns

/-- A line consists of tokens with the given lexemes, whatever column it starts at. -/
def Spells (cs : List Char) (lexemes : List Lexeme) : Prop :=
  ∀ column, ∃ tokens, Lexes column cs tokens ∧ tokens.map Token.lexeme = lexemes

/-- Blanks spell nothing. -/
theorem Spells.blanks {blanks rest : List Char} {lexemes : List Lexeme} (hblanks : IsBlanks blanks)
    (h : Spells rest lexemes) : Spells (blanks ++ rest) lexemes := by
  induction blanks with
  | nil => exact h
  | cons c cs ih =>
    intro column
    obtain ⟨hc, hcs⟩ := List.forall_mem_cons.mp hblanks
    obtain ⟨tokens, htokens, hmap⟩ := ih hcs (column + 1)
    exact ⟨tokens, .blank hc htokens, hmap⟩

/-- A lexeme is spelled before the others. -/
theorem Spells.lexeme {l : Lexeme} {body rest : List Char} {lexemes : List Lexeme}
    (hl : IsLexeme l body rest) (h : Spells rest lexemes) :
    Spells (body ++ rest) (l :: lexemes) := by
  intro column
  obtain ⟨tokens, htokens, hmap⟩ := h (column + body.length)
  exact ⟨⟨l, column⟩ :: tokens, .lexeme hl htokens, by simp [hmap]⟩

/-- A comment goes to the end of the line. -/
theorem Spells.comment (remark : List Char) :
    Spells ('/' :: '/' :: remark) [.comment (String.ofList (trimChars remark)), .endOfLine] :=
  fun column => ⟨_, .comment column remark, rfl⟩

/-- Moving a line to another column keeps its lexemes. -/
theorem Lexes.spells {column : Nat} {cs : List Char} {tokens : List Token}
    (h : Lexes column cs tokens) : Spells cs (tokens.map Token.lexeme) := by
  induction h with
  | endOfLine column => exact fun column => ⟨_, .endOfLine column, rfl⟩
  | @blank column c rest tokens hc _ ih =>
    have hblank : IsBlanks [c] := by simpa [IsBlanks] using hc
    exact ih.blanks hblank
  | comment column remark => exact .comment remark
  | lexeme hl _ ih => exact ih.lexeme hl

/-- What a line can start with after its blanks: its end, a comment, or another lexeme. -/
theorem Lexes.first {column : Nat} {cs : List Char} {tokens : List Token}
    (h : Lexes column cs tokens) :
    ∃ blanks after, IsBlanks blanks ∧ cs = blanks ++ after ∧
      (after = [] ∧ tokens.map Token.lexeme = [.endOfLine] ∨
       (∃ remark, after = '/' :: '/' :: remark ∧
        tokens.map Token.lexeme = [.comment (String.ofList (trimChars remark)), .endOfLine]) ∨
       ∃ l body rest lexemes, after = body ++ rest ∧ IsLexeme l body rest ∧ Spells rest lexemes ∧
        tokens.map Token.lexeme = l :: lexemes) := by
  induction h with
  | endOfLine column => exact ⟨[], [], by simp [IsBlanks], rfl, .inl ⟨rfl, rfl⟩⟩
  | comment column remark =>
    exact ⟨[], _, by simp [IsBlanks], rfl, .inr (.inl ⟨remark, rfl, rfl⟩)⟩
  | @blank column c rest tokens hc _ ih =>
    obtain ⟨blanks, after, hblanks, rfl, hafter⟩ := ih
    exact ⟨c :: blanks, after, List.forall_mem_cons.mpr ⟨hc, hblanks⟩, rfl, hafter⟩
  | lexeme hl hrest _ =>
    exact ⟨[], _, by simp [IsBlanks], rfl, .inr (.inr ⟨_, _, _, _, rfl, hl, hrest.spells, rfl⟩)⟩

/-- A line whose first lexeme is neither a comment nor the end starts with it, after blanks. -/
theorem Spells.uncons {cs : List Char} {l : Lexeme} {lexemes : List Lexeme}
    (h : Spells cs (l :: lexemes)) (hcomment : ∀ text, l ≠ .comment text)
    (hend : l ≠ .endOfLine) :
    ∃ blanks body rest, IsBlanks blanks ∧ cs = blanks ++ (body ++ rest) ∧ IsLexeme l body rest ∧
      Spells rest lexemes := by
  obtain ⟨tokens, hlexes, hmap⟩ := h 1
  obtain ⟨blanks, after, hblanks, rfl, hafter⟩ := hlexes.first
  rw [hmap] at hafter
  rcases hafter with ⟨_, heq⟩ | ⟨remark, _, heq⟩ | ⟨l, body, rest, lexemes, rfl, hl, hrest, heq⟩
  · exact absurd (List.cons.inj heq).1 hend
  · exact absurd (List.cons.inj heq).1 (hcomment _)
  · obtain ⟨rfl, rfl⟩ := List.cons.inj heq
    exact ⟨blanks, body, rest, hblanks, rfl, hl, hrest⟩

/-- A line whose first lexeme is a comment consists of blanks, two slashes and the comment. -/
theorem Spells.uncons_comment {cs : List Char} {text : String} {lexemes : List Lexeme}
    (h : Spells cs (.comment text :: lexemes)) :
    ∃ blanks remark, IsBlanks blanks ∧ cs = blanks ++ '/' :: '/' :: remark ∧
      text = String.ofList (trimChars remark) := by
  obtain ⟨tokens, hlexes, hmap⟩ := h 1
  obtain ⟨blanks, after, hblanks, rfl, hafter⟩ := hlexes.first
  rw [hmap] at hafter
  rcases hafter with ⟨_, heq⟩ | ⟨remark, rfl, heq⟩ | ⟨l, body, rest, lexemes, _, hl, _, heq⟩
  · simp at heq
  · exact ⟨blanks, remark, hblanks, rfl, by simpa using (List.cons.inj heq).1⟩
  · obtain ⟨rfl, _⟩ := List.cons.inj heq
    exact hl.elim

/-- The lexemes of a line that holds the parts of a field, up to its comment. -/
def lexemes (field : FieldLine) : List Lexeme :=
  .name field.name :: .name field.typeName ::
    ((if field.isArray then [.array] else []) ++ ((if field.isOptional then [.optional] else []) ++
      (field.attributes.map .attribute ++ [.comment field.comment])))

/-- A name is taken if it is the next token. -/
theorem takeName_eq_ok {cause : Lexeme → Cause} {tokens rest : List Token} {text : String} :
    takeName cause tokens = .ok (text, rest) ↔ ∃ column, tokens = ⟨.name text, column⟩ :: rest := by
  constructor
  · intro h
    unfold takeName at h
    split at h
    · rename_i column _
      obtain ⟨rfl, rfl⟩ := Prod.mk.inj (Except.ok.inj h)
      exact ⟨column, rfl⟩
    · cases h
    · cases h
  · rintro ⟨column, rfl⟩
    rfl

/-- Taking a mark splits the lexemes into the mark, if it was there, and the others. -/
theorem map_takeMark (mark : Lexeme) (tokens : List Token) :
    tokens.map Token.lexeme = (if (takeMark mark tokens).1 then [mark] else []) ++
      (takeMark mark tokens).2.map Token.lexeme := by
  cases tokens with
  | nil => rfl
  | cons token rest =>
    by_cases h : token.lexeme = mark
    · simp [takeMark, h]
    · simp [takeMark, h]

/-- A mark is taken if it comes first, and is not taken from lexemes that start otherwise. -/
theorem takeMark_of_map {mark : Lexeme} {tokens : List Token} {present : Bool}
    {others : List Lexeme} (hothers : others.head? ≠ some mark)
    (h : tokens.map Token.lexeme = (if present then [mark] else []) ++ others) :
    (takeMark mark tokens).1 = present ∧ (takeMark mark tokens).2.map Token.lexeme = others := by
  cases present with
  | true =>
    obtain ⟨token, rest, rfl, htoken, hrest⟩ := List.map_eq_cons_iff.mp h
    simp [takeMark, htoken, hrest]
  | false =>
    cases tokens with
    | nil => simpa [takeMark] using h
    | cons token rest =>
      have hmap : token.lexeme :: rest.map Token.lexeme = others := by simpa using h
      have hne : token.lexeme ≠ mark := by
        rintro rfl
        exact hothers (by rw [← hmap, List.head?_cons])
      simpa [takeMark, hne] using hmap

/-- Taking the attributes splits the lexemes into the attributes and the others. -/
theorem map_takeAttributes (tokens : List Token) :
    tokens.map Token.lexeme = (takeAttributes tokens).1.map .attribute ++
      (takeAttributes tokens).2.map Token.lexeme := by
  fun_induction takeAttributes tokens with
  | case1 text column rest attributes remaining heq ih => simp_all
  | case2 tokens _ => simp

/-- All attributes that come first are taken. -/
theorem takeAttributes_of_map {tokens : List Token} {attributes : List String}
    {others : List Lexeme} (hothers : ∀ text, others.head? ≠ some (.attribute text))
    (h : tokens.map Token.lexeme = attributes.map .attribute ++ others) :
    (takeAttributes tokens).1 = attributes ∧
      (takeAttributes tokens).2.map Token.lexeme = others := by
  induction attributes generalizing tokens with
  | nil =>
    have hmap : tokens.map Token.lexeme = others := h
    have hnone : takeAttributes tokens = ([], tokens) := by
      unfold takeAttributes
      split
      · rename_i text column rest
        exact absurd (by rw [← hmap]; rfl) (hothers text)
      · rfl
    simp [hnone, hmap]
  | cons text texts ih =>
    obtain ⟨⟨_, column⟩, rest, rfl, rfl, hrest⟩ := List.map_eq_cons_iff.mp h
    obtain ⟨htexts, hmap⟩ := ih hrest
    simp [takeAttributes, htexts, hmap]

private theorem takeComment_eq_ok {tokens : List Token} {text : String} :
    takeComment tokens = .ok text ↔
      text ≠ "" ∧ ∃ others, tokens.map Token.lexeme = .comment text :: others := by
  constructor
  · intro h
    unfold takeComment at h
    split at h
    · rename_i found column rest
      split at h
      · cases h
      · rename_i hne
        obtain rfl := Except.ok.inj h
        exact ⟨hne, _, rfl⟩
    · cases h
    · cases h
  · rintro ⟨hne, others, h⟩
    obtain ⟨⟨_, column⟩, rest, rfl, rfl, _⟩ := List.map_eq_cons_iff.mp h
    simp [takeComment, hne]

/-- What follows the two names of a field is taken off step by step. -/
theorem ofTokens_names (name typeName : String) (column column' : Nat) (tokens : List Token) :
    ofTokens (⟨.name name, column⟩ :: ⟨.name typeName, column'⟩ :: tokens) = (do
      let array := takeMark .array tokens
      let optional := takeMark .optional array.2
      let attributes := takeAttributes optional.2
      let comment ← takeComment attributes.2
      return ⟨name, typeName, array.1, optional.1, attributes.1, comment⟩) := rfl

/-- Only tokens that start with two names hold the parts of a field. -/
theorem exists_names_of_ofTokens {tokens : List Token} {field : FieldLine}
    (h : ofTokens tokens = .ok field) :
    ∃ name typeName column column' rest,
      tokens = ⟨.name name, column⟩ :: ⟨.name typeName, column'⟩ :: rest := by
  obtain ⟨⟨name, afterName⟩, hname, h⟩ := except_bind_eq_ok.mp h
  obtain ⟨⟨typeName, rest⟩, htype, _⟩ := except_bind_eq_ok.mp h
  obtain ⟨column, rfl⟩ := takeName_eq_ok.mp hname
  obtain ⟨column', rfl⟩ := takeName_eq_ok.mp htype
  exact ⟨name, typeName, column, column', rest, rfl⟩

/-- Reading the parts of a field succeeds exactly on tokens with the lexemes of the field. -/
theorem ofTokens_eq_ok {tokens : List Token} {field : FieldLine} :
    ofTokens tokens = .ok field ↔
      field.comment ≠ "" ∧ ∃ others, tokens.map Token.lexeme = field.lexemes ++ others := by
  constructor
  · intro h
    obtain ⟨name, typeName, column, column', rest, rfl⟩ := exists_names_of_ofTokens h
    rw [ofTokens_names] at h
    obtain ⟨comment, hcomment, h⟩ := except_bind_eq_ok.mp h
    obtain rfl := Except.ok.inj h
    obtain ⟨hne, others, hothers⟩ := takeComment_eq_ok.mp hcomment
    refine ⟨hne, others, ?_⟩
    have harray := map_takeMark .array rest
    have hoptional := map_takeMark .optional (takeMark .array rest).2
    have hattributes := map_takeAttributes (takeMark .optional (takeMark .array rest).2).2
    simp only [lexemes, List.map_cons, List.cons_append, List.append_assoc, List.nil_append]
    rw [← hothers, ← hattributes, ← hoptional, ← harray]
  · rintro ⟨hne, others, h⟩
    obtain ⟨name, typeName, isArray, isOptional, attributes, comment⟩ := field
    simp only [lexemes, List.cons_append, List.append_assoc, List.nil_append] at h
    obtain ⟨⟨_, column⟩, afterName, rfl, rfl, hafterName⟩ := List.map_eq_cons_iff.mp h
    obtain ⟨⟨_, column'⟩, rest, rfl, rfl, hrest⟩ := List.map_eq_cons_iff.mp hafterName
    -- Each mark is taken because what follows it is another kind of lexeme.
    obtain ⟨harray, hafterArray⟩ := takeMark_of_map
      (by cases isOptional <;> cases attributes <;> simp) hrest
    obtain ⟨hoptional, hafterOptional⟩ := takeMark_of_map
      (by cases attributes <;> simp) hafterArray
    obtain ⟨hattributes, hafterAttributes⟩ := takeAttributes_of_map (by simp) hafterOptional
    have hcomment := takeComment_eq_ok.mpr ⟨hne, others, hafterAttributes⟩
    simp only [ofTokens_names, harray, hoptional, hattributes, hcomment]
    rfl

/-- **Reading a field line by its lexemes.** A line is read as a field exactly if it spells the
lexemes of the field, whose comment is not empty. -/
theorem parse_eq_ok_iff_spells {line : String} {field : FieldLine} :
    parse line = .ok field ↔
      field.comment ≠ "" ∧ ∃ others, Spells line.toList (field.lexemes ++ others) := by
  constructor
  · intro h
    obtain ⟨tokens, htokens, hfield⟩ := except_bind_eq_ok.mp h
    obtain ⟨hne, others, hmap⟩ := ofTokens_eq_ok.mp hfield
    refine ⟨hne, others, ?_⟩
    rw [← hmap]
    exact (lexes_of_tokensFrom htokens).spells
  · rintro ⟨hne, others, hspells⟩
    obtain ⟨tokens, hlexes, hmap⟩ := hspells 1
    have htokens : tokenize line = .ok tokens := tokensFrom_of_lexes hlexes
    exact except_bind_eq_ok.mpr ⟨tokens, htokens, ofTokens_eq_ok.mpr ⟨hne, others, hmap⟩⟩

end FieldLine

end NestLayers
