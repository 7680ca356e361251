import Mathlib.Logic.ExistsUnique
import NestLayers.Proofs.Lexing

/-!
# The grammar of field lines

A layout is a field line taken apart: the name, the type, the marks, the attributes and the
comment, with all the blanks between them. Reading a line succeeds exactly on the texts of
layouts, returns the parts of the layout, and no line has two layouts.
-/

namespace NestLayers.FieldLine

open NestLayers.Text

/-- An attribute in a line: its name after the `@`, its arguments, and the blanks after it. -/
@[ext] structure AttributePiece where
  name : List Char
  arguments : List Char
  blanks : List Char
  name_isName : IsAttributeName name
  arguments_isGroup : arguments = [] ∨ IsGroup arguments
  blanks_isBlanks : IsBlanks blanks

namespace AttributePiece

/-- The attribute itself. -/
def text (a : AttributePiece) : List Char :=
  '@' :: a.name ++ a.arguments

/-- The attribute with the blanks after it. -/
def chars (a : AttributePiece) : List Char :=
  a.text ++ a.blanks

end AttributePiece

/-- The parts of a field line with the blanks between them. A mark that is there comes with the
blanks after it. -/
@[ext] structure Layout where
  margin : List Char
  name : List Char
  gap : List Char
  typeName : List Char
  blanks : List Char
  array : Option (List Char)
  optional : Option (List Char)
  attributes : List AttributePiece
  /-- Everything after the two slashes. -/
  remark : List Char
  margin_isBlanks : IsBlanks margin
  name_isName : IsName name
  gap_isBlanks : IsBlanks gap
  gap_ne_nil : gap ≠ []
  typeName_isName : IsName typeName
  blanks_isBlanks : IsBlanks blanks
  array_isBlanks : ∀ after ∈ array, IsBlanks after
  optional_isBlanks : ∀ after ∈ optional, IsBlanks after
  comment_ne_nil : trimChars remark ≠ []

/-- A mark with the blanks after it, or nothing. -/
def markChars (mark : List Char) : Option (List Char) → List Char
  | none => []
  | some blanks => mark ++ blanks

namespace Layout

/-- The attributes and the comment of a line. -/
def tailChars (attributes : List AttributePiece) (remark : List Char) : List Char :=
  attributes.flatMap AttributePiece.chars ++ '/' :: '/' :: remark

/-- Everything behind the type of a line and the blanks after it. -/
def afterType (l : Layout) : List Char :=
  markChars ['[', ']'] l.array ++ (markChars ['?'] l.optional ++ tailChars l.attributes l.remark)

/-- The text of a layout. -/
def chars (l : Layout) : List Char :=
  l.margin ++ (l.name ++ (l.gap ++ (l.typeName ++ (l.blanks ++ l.afterType))))

/-- The field that a layout describes. -/
def field (l : Layout) : FieldLine :=
  { name := String.ofList l.name
    typeName := String.ofList l.typeName
    isArray := l.array.isSome
    isOptional := l.optional.isSome
    attributes := l.attributes.map fun a => String.ofList a.text
    comment := String.ofList (trimChars l.remark) }

end Layout

section Follow

variable {p : Char → Bool}

/-- Attributes and comment start with an `@` or a slash. -/
theorem stops_tailChars (hat : p '@' = false) (hslash : p '/' = false)
    (attributes : List AttributePiece) (remark : List Char) :
    Stops p (Layout.tailChars attributes remark) := by
  cases attributes with
  | nil => simpa [Layout.tailChars] using hslash
  | cons a rest => simpa [Layout.tailChars, AttributePiece.chars, AttributePiece.text] using hat

/-- A mark, or what follows where there is none, does not go on with a class. -/
theorem stops_markChars {c : Char} (hc : p c = false) {rest : List Char} (hrest : Stops p rest)
    (cs : List Char) (found : Option (List Char)) :
    Stops p (markChars (c :: cs) found ++ rest) := by
  cases found with
  | none => exact hrest
  | some blanks => simpa [markChars] using hc

/-- What follows the type of a field starts with one of four characters. -/
theorem Layout.stops_afterType (l : Layout) (hbracket : p '[' = false) (hmark : p '?' = false)
    (hat : p '@' = false) (hslash : p '/' = false) : Stops p l.afterType :=
  stops_markChars hbracket (stops_markChars hmark (stops_tailChars hat hslash _ _) _ _) _ _

/-- The type of a field ends before anything that would continue it. -/
theorem Layout.stops_typeName (l : Layout) : Stops isWord (l.blanks ++ l.afterType) :=
  l.blanks_isBlanks.stops (fun _ => isWord_of_isBlank)
    (l.stops_afterType (by decide) (by decide) (by decide) (by decide))

/-- The name of a field ends with a gap. -/
theorem Layout.stops_name (l : Layout) (rest : List Char) : Stops isWord (l.gap ++ rest) := by
  have hgap : Stops isWord l.gap := by
    simpa using l.gap_isBlanks.stops (fun _ => isWord_of_isBlank) (stops_nil isWord)
  exact hgap.append fun h => absurd h l.gap_ne_nil

end Follow

/-- An attribute of a layout is followed by nothing that would continue its name, so that the
name is as long as it can be. -/
theorem AttributePiece.stops (a : AttributePiece) (attributes : List AttributePiece)
    (remark : List Char) :
    Stops isAttributeChar (a.arguments ++ (a.blanks ++ Layout.tailChars attributes remark)) := by
  rcases a.arguments_isGroup with hnil | ⟨inner, _, hgroup⟩
  · rw [hnil]
    exact a.blanks_isBlanks.stops (fun _ => isAttributeChar_of_isBlank)
      (stops_tailChars (by decide) (by decide) _ _)
  · rw [hgroup]
    simp only [List.cons_append, stops_cons]
    decide

/-- An attribute of a layout without arguments is not followed by any. -/
theorem AttributePiece.isGroup_or (a : AttributePiece) (attributes : List AttributePiece)
    (remark : List Char) :
    IsGroup a.arguments ∨
      a.arguments = [] ∧ (a.blanks ++ Layout.tailChars attributes remark).head? ≠ some '(' := by
  have hopen : Stops (· == '(') (a.blanks ++ Layout.tailChars attributes remark) := by
    refine a.blanks_isBlanks.stops (fun c hc => ?_) (stops_tailChars (by decide) (by decide) _ _)
    simp only [beq_eq_false_iff_ne]
    rintro rfl
    exact absurd hc (by decide)
  refine a.arguments_isGroup.symm.imp_right fun hnil => ⟨hnil, fun hhead => ?_⟩
  have hfalse := hopen '(' hhead
  cases hfalse

/-- The attributes and the comment of a layout are spelled as such. -/
theorem spells_tailChars (attributes : List AttributePiece) (remark : List Char) :
    Spells (Layout.tailChars attributes remark)
      ((attributes.map fun a => String.ofList a.text).map .attribute ++
        [.comment (String.ofList (trimChars remark)), .endOfLine]) := by
  induction attributes with
  | nil => exact .comment remark
  | cons a rest ih =>
    have hlexeme : IsLexeme (.attribute (String.ofList a.text)) a.text _ :=
      ⟨rfl, a.name, a.arguments, rfl, a.name_isName, a.stops rest remark, a.isGroup_or rest remark⟩
    have hspells := (ih.blanks a.blanks_isBlanks).lexeme hlexeme
    simpa [Layout.tailChars, AttributePiece.chars] using hspells

/-- A mark is spelled where it is there. -/
theorem spells_markChars {l : Lexeme} {mark rest : List Char} {lexemes : List Lexeme}
    (hl : ∀ rest, IsLexeme l mark rest) {found : Option (List Char)}
    (hfound : ∀ after ∈ found, IsBlanks after) (h : Spells rest lexemes) :
    Spells (markChars mark found ++ rest) ((if found.isSome then [l] else []) ++ lexemes) := by
  cases found with
  | none => exact h
  | some blanks =>
    rw [markChars, List.append_assoc]
    exact (h.blanks (hfound blanks rfl)).lexeme (hl _)

/-- The text of a layout spells the lexemes of its field. -/
theorem Layout.spells (l : Layout) : Spells l.chars (l.field.lexemes ++ [.endOfLine]) := by
  have htail := spells_tailChars l.attributes l.remark
  have hoptional := spells_markChars (l := .optional) (fun _ => rfl) l.optional_isBlanks htail
  have harray := spells_markChars (l := .array) (fun _ => rfl) l.array_isBlanks hoptional
  have htype := (harray.blanks l.blanks_isBlanks).lexeme (l := .name (String.ofList l.typeName))
    ⟨rfl, l.typeName_isName, l.stops_typeName⟩
  have hname := (htype.blanks l.gap_isBlanks).lexeme (l := .name (String.ofList l.name))
    ⟨rfl, l.name_isName, l.stops_name _⟩
  simp only [FieldLine.lexemes, List.cons_append, List.append_assoc, List.nil_append]
  exact hname.blanks l.margin_isBlanks

/-- The text has blanks first, and `Q` holds of what follows them. -/
def AfterBlanks (Q : List Char → Prop) (cs : List Char) : Prop :=
  ∃ blanks after, IsBlanks blanks ∧ cs = blanks ++ after ∧ Q after

/-- The text consists of the attributes and the comment. -/
def IsTail (texts : List String) (comment : String) (cs : List Char) : Prop :=
  ∃ attributes remark, cs = Layout.tailChars attributes remark ∧
    (attributes.map fun a => String.ofList a.text) = texts ∧
    String.ofList (trimChars remark) = comment

/-- The text starts with a mark and blanks, if the mark is present, and `Q` holds of what
follows. -/
def IsMarked (mark : List Char) (present : Bool) (Q : List Char → Prop) (cs : List Char) : Prop :=
  ∃ found rest, (∀ after ∈ found, IsBlanks after) ∧ found.isSome = present ∧
    cs = markChars mark found ++ rest ∧ Q rest

/-- A line that spells attributes and a comment has them, after blanks. -/
theorem afterBlanks_isTail {cs : List Char} {texts : List String} {comment : String}
    {others : List Lexeme} (h : Spells cs (texts.map .attribute ++ .comment comment :: others)) :
    AfterBlanks (IsTail texts comment) cs := by
  induction texts generalizing cs with
  | nil =>
    obtain ⟨blanks, remark, hblanks, rfl, rfl⟩ := h.uncons_comment
    exact ⟨blanks, _, hblanks, rfl, [], remark, rfl, rfl, rfl⟩
  | cons text texts ih =>
    obtain ⟨blanks, body, rest, hblanks, rfl, hbody, hrest⟩ := h.uncons (by simp) (by simp)
    obtain ⟨rfl, name, arguments, rfl, hname, _, hkind⟩ := hbody
    obtain ⟨after, _, hafter, rfl, attributes, remark, rfl, rfl, rfl⟩ := ih hrest
    have harguments : arguments = [] ∨ IsGroup arguments := hkind.symm.imp_left And.left
    refine ⟨blanks, _, hblanks, rfl,
      ⟨name, arguments, after, hname, harguments, hafter⟩ :: attributes, remark, ?_, ?_, rfl⟩
    · simp [Layout.tailChars, AttributePiece.chars, AttributePiece.text]
    · simp [AttributePiece.text]

/-- A line that spells a mark, or none, before something else has it there. -/
theorem afterBlanks_isMarked {cs mark : List Char} {l : Lexeme} {present : Bool}
    {lexemes : List Lexeme} {Q : List Char → Prop}
    (hl : ∀ body rest, IsLexeme l body rest → body = mark)
    (hcomment : ∀ text, l ≠ .comment text) (hend : l ≠ .endOfLine)
    (hnext : ∀ {cs}, Spells cs lexemes → AfterBlanks Q cs)
    (h : Spells cs ((if present then [l] else []) ++ lexemes)) :
    AfterBlanks (IsMarked mark present Q) cs := by
  cases present with
  | false =>
    obtain ⟨blanks, after, hblanks, rfl, hafter⟩ := hnext h
    exact ⟨blanks, after, hblanks, rfl, none, after, by simp, rfl, rfl, hafter⟩
  | true =>
    obtain ⟨blanks, body, rest, hblanks, rfl, hbody, hrest⟩ := h.uncons hcomment hend
    obtain rfl := hl body rest hbody
    obtain ⟨found, after, hfound, rfl, hafter⟩ := hnext hrest
    exact ⟨blanks, _, hblanks, rfl, some found, after, by simpa using hfound, rfl,
      by simp [markChars], hafter⟩

/-- A line that spells the lexemes of a field has a layout of that field. -/
theorem exists_layout_of_spells {cs : List Char} {field : FieldLine} {others : List Lexeme}
    (hne : field.comment ≠ "") (h : Spells cs (field.lexemes ++ others)) :
    ∃ l : Layout, l.chars = cs ∧ l.field = field := by
  obtain ⟨name, typeName, isArray, isOptional, texts, comment⟩ := field
  simp only [FieldLine.lexemes, List.cons_append, List.append_assoc, List.nil_append] at h
  obtain ⟨margin, nameChars, rest, hmargin, rfl, ⟨rfl, hname, hafterName⟩, hrest⟩ :=
    h.uncons (by simp) (by simp)
  obtain ⟨gap, typeChars, rest, hgap, rfl, ⟨rfl, htype, _⟩, hrest⟩ :=
    hrest.uncons (by simp) (by simp)
  -- Without a gap the type would continue the name.
  have hgap_ne : gap ≠ [] := by
    rintro rfl
    cases typeChars with
    | nil => exact htype
    | cons c cs =>
      have hword := isWord_of_isNameStart htype.1
      simp [hword] at hafterName
  have hmarked : AfterBlanks (IsMarked ['[', ']'] isArray
      (IsMarked ['?'] isOptional (IsTail texts comment))) rest :=
    afterBlanks_isMarked (fun _ _ => id) (by simp) (by simp)
      (afterBlanks_isMarked (fun _ _ => id) (by simp) (by simp) afterBlanks_isTail) hrest
  obtain ⟨blanks, _, hblanks, rfl, array, _, harray, rfl, rfl, optional, _, hoptional, rfl, rfl,
    attributes, remark, rfl, rfl, rfl⟩ := hmarked
  have hremark : trimChars remark ≠ [] := by
    intro hnil
    simp [hnil] at hne
  exact ⟨⟨margin, nameChars, gap, typeChars, blanks, array, optional, attributes, remark, hmargin,
    hname, hgap, hgap_ne, htype, hblanks, harray, hoptional, hremark⟩, rfl, rfl⟩

/-- Attributes and comment can be told apart in one way. -/
theorem tailChars_inj {attributes attributes' : List AttributePiece} {remark remark' : List Char}
    (h : Layout.tailChars attributes remark = Layout.tailChars attributes' remark') :
    attributes = attributes' ∧ remark = remark' := by
  induction attributes generalizing attributes' with
  | nil =>
    cases attributes' with
    | nil => simpa [Layout.tailChars] using h
    | cons a' rest' => simp [Layout.tailChars, AttributePiece.chars, AttributePiece.text] at h
  | cons a rest ih =>
    cases attributes' with
    | nil => simp [Layout.tailChars, AttributePiece.chars, AttributePiece.text] at h
    | cons a' rest' =>
      have hchars : a.name ++ (a.arguments ++ (a.blanks ++ Layout.tailChars rest remark)) =
          a'.name ++ (a'.arguments ++ (a'.blanks ++ Layout.tailChars rest' remark')) := by
        simpa [Layout.tailChars, AttributePiece.chars, AttributePiece.text] using h
      have hall (a : AttributePiece) : ∀ c ∈ a.name, isAttributeChar c = true :=
        a.name_isName.all fun _ => isAttributeChar_of_isNameStart
      obtain ⟨hname, hafterName⟩ := append_stops_inj (hall a) (a.stops rest remark) (hall a')
        (a'.stops rest' remark') hchars
      -- Cutting the arguments off gives the same on both sides.
      have hcut := cutArguments_eq_some_iff.mpr ⟨rfl, a.isGroup_or rest remark⟩
      rw [hafterName, cutArguments_eq_some_iff.mpr ⟨rfl, a'.isGroup_or rest' remark'⟩] at hcut
      obtain ⟨harguments, hafterArguments⟩ := Prod.mk.inj (Option.some.inj hcut.symm)
      obtain ⟨hblanks, hrest⟩ := append_stops_inj a.blanks_isBlanks
        (stops_tailChars (by decide) (by decide) _ _) a'.blanks_isBlanks
        (stops_tailChars (by decide) (by decide) _ _) hafterArguments
      obtain ⟨rfl, rfl⟩ := ih hrest
      exact ⟨by rw [AttributePiece.ext hname harguments hblanks], rfl⟩

/-- Whether a mark is there can be told in one way, as nothing else starts like it. -/
theorem markChars_append_inj {c : Char} {cs rest rest' : List Char}
    {found found' : Option (List Char)}
    (hfound : ∀ after ∈ found, IsBlanks after) (hfound' : ∀ after ∈ found', IsBlanks after)
    (hrest : Stops isBlank rest) (hrest' : Stops isBlank rest')
    (hother : Stops (· == c) rest) (hother' : Stops (· == c) rest')
    (h : markChars (c :: cs) found ++ rest = markChars (c :: cs) found' ++ rest') :
    found = found' ∧ rest = rest' := by
  cases found with
  | none =>
    cases found' with
    | none => exact ⟨rfl, h⟩
    | some blanks' =>
      have hrest_eq : rest = c :: (cs ++ blanks' ++ rest') := h
      simp [hrest_eq] at hother
  | some blanks =>
    cases found' with
    | none =>
      have hrest_eq : c :: (cs ++ blanks ++ rest) = rest' := h
      simp [← hrest_eq] at hother'
    | some blanks' =>
      have hafter : blanks ++ rest = blanks' ++ rest' := by simpa [markChars] using h
      obtain ⟨rfl, rfl⟩ := append_stops_inj (hfound _ rfl) hrest (hfound' _ rfl) hrest' hafter
      exact ⟨rfl, rfl⟩

/-- **Unique layouts.** No line has two layouts. -/
theorem Layout.chars_injective : Function.Injective Layout.chars := by
  intro l l' h
  have hstart : ∀ c, isNameStart c = true → isBlank c = false := fun _ => isBlank_of_isNameStart
  obtain ⟨hmargin, h⟩ := append_stops_inj l.margin_isBlanks (l.name_isName.stops hstart)
    l'.margin_isBlanks (l'.name_isName.stops hstart) h
  obtain ⟨hname, h⟩ := append_stops_inj l.name_isName.isWord (l.stops_name _)
    l'.name_isName.isWord (l'.stops_name _) h
  obtain ⟨hgap, h⟩ := append_stops_inj l.gap_isBlanks (l.typeName_isName.stops hstart)
    l'.gap_isBlanks (l'.typeName_isName.stops hstart) h
  obtain ⟨htype, h⟩ := append_stops_inj l.typeName_isName.isWord l.stops_typeName
    l'.typeName_isName.isWord l'.stops_typeName h
  have hafter (l : Layout) : Stops isBlank l.afterType :=
    l.stops_afterType (by decide) (by decide) (by decide) (by decide)
  obtain ⟨hblanks, h⟩ := append_stops_inj l.blanks_isBlanks (hafter l) l'.blanks_isBlanks
    (hafter l') h
  have hoptional_stops {p : Char → Bool} (hmark : p '?' = false) (hat : p '@' = false)
      (hslash : p '/' = false) (l : Layout) :
      Stops p (markChars ['?'] l.optional ++ tailChars l.attributes l.remark) :=
    stops_markChars hmark (stops_tailChars hat hslash _ _) _ _
  obtain ⟨harray, h⟩ := markChars_append_inj l.array_isBlanks l'.array_isBlanks
    (hoptional_stops (by decide) (by decide) (by decide) l)
    (hoptional_stops (by decide) (by decide) (by decide) l')
    (hoptional_stops (by decide) (by decide) (by decide) l)
    (hoptional_stops (by decide) (by decide) (by decide) l') h
  obtain ⟨hoptional, h⟩ := markChars_append_inj l.optional_isBlanks l'.optional_isBlanks
    (stops_tailChars (by decide) (by decide) _ _) (stops_tailChars (by decide) (by decide) _ _)
    (stops_tailChars (by decide) (by decide) _ _) (stops_tailChars (by decide) (by decide) _ _) h
  obtain ⟨hattributes, hremark⟩ := tailChars_inj h
  exact Layout.ext hmargin hname hgap htype hblanks harray hoptional hattributes hremark

/-- A line is read as a field exactly if it is the text of a layout of that field. -/
theorem parse_eq_ok_iff {line : String} {field : FieldLine} :
    parse line = .ok field ↔ ∃ l : Layout, l.chars = line.toList ∧ l.field = field := by
  rw [parse_eq_ok_iff_spells]
  constructor
  · rintro ⟨hne, others, hspells⟩
    exact exists_layout_of_spells hne hspells
  · rintro ⟨l, hchars, rfl⟩
    refine ⟨?_, [.endOfLine], hchars ▸ l.spells⟩
    simpa [Layout.field] using l.comment_ne_nil

/-- **The grammar of field lines.** A line is read as a field exactly if it can be taken apart
into a layout of that field, and then in one way only; every other line is refused. -/
theorem parse_accepts_exactly_layouts (line : String) :
    (∀ field, parse line = .ok field ↔ ∃! l : Layout, l.chars = line.toList ∧ l.field = field) ∧
    ((∃ error, parse line = .error error) ↔ ¬ ∃ l : Layout, l.chars = line.toList) := by
  constructor
  · intro field
    rw [parse_eq_ok_iff]
    constructor
    · rintro ⟨l, hchars, hfield⟩
      refine ⟨l, ⟨hchars, hfield⟩, ?_⟩
      rintro l' ⟨hchars', _⟩
      exact Layout.chars_injective (hchars'.trans hchars.symm)
    · exact fun h => h.exists
  · cases h : parse line with
    | error error =>
      refine ⟨fun _ ⟨l, hchars⟩ => ?_, fun _ => ⟨error, rfl⟩⟩
      rw [parse_eq_ok_iff.mpr ⟨l, hchars, rfl⟩] at h
      cases h
    | ok field =>
      obtain ⟨l, hchars, _⟩ := parse_eq_ok_iff.mp h
      constructor
      · rintro ⟨_, hfalse⟩
        cases hfalse
      · intro hnone
        exact absurd ⟨l, hchars⟩ hnone

end NestLayers.FieldLine
