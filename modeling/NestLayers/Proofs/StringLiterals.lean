import Mathlib.Data.List.Basic
import NestLayers.Layer.Model
import NestLayers.Proofs.PlainClasses

/-!
# Reading string literals

Descriptions and messages stand in string literals. A literal is read from its first quotation mark
up to the next one that no backslash precedes, and it must end on its line. Read in this way a literal
gives its text back, whatever follows it, exactly if the text has no line end in it; so a description
neither ends its literal nor goes on behind it.
-/

namespace NestLayers.TypeScript

open NestLayers.Text

/-! ## Reading -/

/-- The character ends a line, which no string literal goes beyond. -/
def isLiteralEnd (c : Char) : Bool :=
  c == '\n' || c == '\r'

/-- The text up to the closing quotation mark of a literal, with what follows the mark. A backslash
takes the next character as it is. -/
def readQuoted : List Char → Option (List Char × List Char)
  | [] => none
  | '\x22' :: rest => some ([], rest)
  | '\x5c' :: c :: rest => (readQuoted rest).map fun (text, after) => (c :: text, after)
  | c :: rest =>
    if isLiteralEnd c then none
    else (readQuoted rest).map fun (text, after) => (c :: text, after)

/-- The text of the string literal that a text starts with, and what follows the literal. -/
def readLiteral? : List Char → Option (String × List Char)
  | '\x22' :: rest => (readQuoted rest).map fun (text, after) => (String.ofList text, after)
  | _ => none

/-- The text has no line end in it. -/
def FitsLiteral (text : String) : Prop :=
  ∀ c ∈ text.toList, isLiteralEnd c = false

/-- It is decided by the characters. -/
instance (text : String) : Decidable (FitsLiteral text) :=
  List.decidableBAll _ text.toList

/-- A character as it is written in a literal is read as this character, if it ends no line. -/
theorem readQuoted_escapeLiteralChar (c : Char) (rest : List Char) :
    readQuoted (escapeLiteralChar c ++ rest) =
      if isLiteralEnd c then none
      else (readQuoted rest).map fun (text, after) => (c :: text, after) := by
  unfold escapeLiteralChar
  split
  · rename_i hescaped
    have hend : isLiteralEnd c = false := by
      simp only [Bool.or_eq_true, decide_eq_true_eq] at hescaped
      rcases hescaped with rfl | rfl <;> decide
    simp [readQuoted, hend]
  · rename_i hplain
    simp only [Bool.or_eq_true, decide_eq_true_eq, not_or] at hplain
    rw [List.singleton_append, readQuoted]
    · exact hplain.2
    · rintro d after rfl
      exact absurd rfl hplain.1

/-- Escaped characters before a quotation mark are read up to it exactly if none of them ends a
line. -/
theorem readQuoted_flatMap (cs rest : List Char) :
    readQuoted (cs.flatMap escapeLiteralChar ++ '\x22' :: rest) =
      if cs.all (!isLiteralEnd ·) then some (cs, rest) else none := by
  induction cs with
  | nil => simp [readQuoted]
  | cons c cs ih =>
    rw [List.flatMap_cons, List.append_assoc, readQuoted_escapeLiteralChar, ih, List.all_cons]
    cases isLiteralEnd c with
    | true => rfl
    | false => cases cs.all (!isLiteralEnd ·) <;> rfl

/-- A literal is read as its text if this has no line end, and is no literal otherwise. -/
theorem readLiteral?_literal (text : String) (rest : List Char) :
    readLiteral? ((literal text).toList ++ rest) =
      if FitsLiteral text then some (text, rest) else none := by
  have hchars : (literal text).toList ++ rest =
      '\x22' :: (text.toList.flatMap escapeLiteralChar ++ '\x22' :: rest) := by
    simp [literal]
  have hfits : text.toList.all (!isLiteralEnd ·) = true ↔ FitsLiteral text := by
    simp [FitsLiteral]
  rw [hchars, readLiteral?, readQuoted_flatMap]
  by_cases h : FitsLiteral text
  · rw [if_pos h, if_pos (hfits.mpr h)]
    simp
  · rw [if_neg h, if_neg (mt hfits.mp h), Option.map_none]

/-- What follows a text does not change what is read off it. -/
theorem readQuoted_append {front text after : List Char} (h : readQuoted front = some (text, after))
    (back : List Char) : readQuoted (front ++ back) = some (text, after ++ back) := by
  fun_induction readQuoted front generalizing text after with
  | case1 => cases h
  | case2 rest =>
    obtain ⟨rfl, rfl⟩ : [] = text ∧ rest = after := by simpa using h
    simp [readQuoted]
  | case3 c rest ih =>
    obtain ⟨⟨inner, last⟩, hinner, hread⟩ := Option.map_eq_some_iff.mp h
    obtain ⟨rfl, rfl⟩ := Prod.mk.inj hread
    simp [readQuoted, ih hinner]
  | case4 => cases h
  | case5 c rest hquote hbackslash hend ih =>
    obtain ⟨⟨inner, last⟩, hinner, hread⟩ := Option.map_eq_some_iff.mp h
    obtain ⟨rfl, rfl⟩ := Prod.mk.inj hread
    rw [List.cons_append, readQuoted, if_neg hend, ih hinner]
    · rfl
    · exact hquote
    · rintro d after rfl hrest
      cases rest with
      | nil => simp [readQuoted] at hinner
      | cons e rest => exact hbackslash e rest rfl rfl

/-- **No literal ends early.** No part of a literal before its end is a literal. -/
theorem eq_nil_of_readLiteral? {text : String} {front back : List Char}
    (h : (literal text).toList = front ++ back) (hread : (readLiteral? front).isSome) :
    back = [] := by
  have hwhole := readLiteral?_literal text []
  rw [List.append_nil, h] at hwhole
  unfold readLiteral? at hread
  split at hread
  · rename_i rest
    obtain ⟨⟨inner, after⟩, hinner⟩ := Option.isSome_iff_exists.mp (Option.isSome_map ▸ hread)
    rw [List.cons_append, readLiteral?, readQuoted_append hinner] at hwhole
    split at hwhole
    · have hafter : after ++ back = [] := congrArg Prod.snd (Option.some.inj hwhole)
      exact (List.append_eq_nil_iff.mp hafter).2
    · cases hwhole
  · cases hread

/-! ## Writing -/

/-- A text with a backslash before each occurrence of a character. -/
def escapeEach (c : Char) (cs : List Char) : List Char :=
  cs.flatMap fun d => if d = c then ['\x5c', d] else [d]

/-- A literal is its text with the backslashes escaped and then the quotation marks, between
quotation marks. The order matters: the backslashes before the marks are not to be escaped. -/
theorem toList_literal (text : String) :
    (literal text).toList =
      '\x22' :: escapeEach '\x22' (escapeEach '\x5c' text.toList) ++ ['\x22'] := by
  have hescape (c : Char) :
      escapeEach '\x22' (if c = '\x5c' then ['\x5c', c] else [c]) = escapeLiteralChar c := by
    unfold escapeLiteralChar
    by_cases hbackslash : c = '\x5c'
    · rw [hbackslash]
      decide
    · by_cases hquote : c = '\x22'
      · rw [hquote]
        decide
      · simp [escapeEach, hbackslash, hquote]
  have hchars : escapeEach '\x22' (escapeEach '\x5c' text.toList) =
      text.toList.flatMap escapeLiteralChar := by
    rw [escapeEach, escapeEach, List.flatMap_assoc]
    exact List.flatMap_congr fun c _ => hescape c
  rw [hchars]
  simp [literal]

private theorem escapeLiteralChar_ne_nil (c : Char) : escapeLiteralChar c ≠ [] := by
  unfold escapeLiteralChar
  split <;> simp

/-- An escaped character is told from the text that follows it. -/
theorem escapeLiteralChar_append_inj {c d : Char} {cs ds : List Char}
    (h : escapeLiteralChar c ++ cs = escapeLiteralChar d ++ ds) : c = d ∧ cs = ds := by
  unfold escapeLiteralChar at h
  split at h
  · split at h
    · simpa using h
    · -- a backslash stands for itself nowhere
      rename_i hplain
      obtain ⟨rfl, -⟩ := List.cons.inj h
      exact absurd (by decide) hplain
  · rename_i hplain
    split at h
    · obtain ⟨rfl, -⟩ := List.cons.inj h
      exact absurd (by decide) hplain
    · simpa using h

private theorem flatMap_escapeLiteralChar_inj {cs ds : List Char}
    (h : cs.flatMap escapeLiteralChar = ds.flatMap escapeLiteralChar) : cs = ds := by
  induction cs generalizing ds with
  | nil =>
    cases ds with
    | nil => rfl
    | cons d ds => simp [escapeLiteralChar_ne_nil] at h
  | cons c cs ih =>
    cases ds with
    | nil => simp [escapeLiteralChar_ne_nil] at h
    | cons d ds =>
      obtain ⟨rfl, hrest⟩ := escapeLiteralChar_append_inj h
      rw [ih hrest]

/-- **Different texts have different literals.** -/
theorem literal_injective : Function.Injective literal := by
  intro text other h
  have hchars := congrArg String.toList h
  simp only [literal, String.toList_ofList, List.cons_append, List.cons.injEq, true_and] at hchars
  exact String.toList_inj.mp (flatMap_escapeLiteralChar_inj (List.append_cancel_right hchars))

end NestLayers.TypeScript

namespace NestLayers

open NestLayers.Text NestLayers.TypeScript

/-! ## Descriptions -/

/-- The description of a field that is read comes from one line. -/
theorem Definition.isLine_description {registry : Registry} {fileId text : String}
    {location : Location} {d : Definition} (h : parse registry fileId location text = .ok d)
    {f : Field} (hf : f ∈ d.fields) : IsLine f.description.toList := by
  obtain ⟨lines, hread, hfields, -⟩ := parse_eq_ok h
  obtain ⟨header, -, -, -, -, hbody, -, -⟩ := readUnit_eq_ok hread
  rw [hfields] at hf
  obtain ⟨m, hm, hf⟩ := List.mem_filterMap.mp hf
  obtain ⟨line, hmem, rfl⟩ := List.mem_map.mp hm
  obtain ⟨cs, hcs, hparse⟩ := exists_line_of_readBody hbody line hmem
  obtain ⟨-, -, hcomment⟩ := FieldLine.isName_of_parse hparse
  have hline := isLine_of_mem_splitLines (List.mem_of_mem_drop hcs)
  have hdescription : IsLine (FieldComment.read line.comment).description.toList := fun c hc =>
    hline c (by simpa using hcomment c (FieldComment.mem_of_mem_description hc))
  unfold FieldLine.member at hf
  dsimp only at hf
  split at hf
  · cases hf
  · obtain rfl := Option.some.inj hf
    exact hdescription

/-- A text of one line fits into a literal. -/
theorem fitsLiteral_of_isLine {text : String} (h : IsLine text.toList) : FitsLiteral text := by
  intro c hc
  have hbreak := h c hc
  by_contra hend
  simp only [isLiteralEnd, Bool.not_eq_false, Bool.or_eq_true, beq_iff_eq] at hend
  rcases hend with rfl | rfl <;> exact absurd hbreak (by decide)

/-- The message that a deed is done fits into its literal if what it is about does. -/
theorem Deed.readLiteral?_done (deed : Deed) {description : String} (h : FitsLiteral description)
    (rest : List Char) :
    readLiteral? ((deed.done description).toList ++ rest) =
      some (description ++ " " ++ deed.label ++ deed.particle ++ " 완료되었습니다.", rest) := by
  have hwords : FitsLiteral (" " ++ deed.label ++ deed.particle ++ " 완료되었습니다.") := by
    cases deed <;> decide
  have hmessage : FitsLiteral
      (description ++ " " ++ deed.label ++ deed.particle ++ " 완료되었습니다.") := by
    intro c hc
    simp only [String.toList_append, List.append_assoc, List.mem_append] at hc
    rcases hc with hc | hc
    · exact h c hc
    · exact hwords c (by simpa only [String.toList_append, List.append_assoc, List.mem_append] using hc)
  rw [done, readLiteral?_literal, if_pos hmessage]

namespace Layer.Model

variable {conventions : Conventions} {d : Definition} {f : Field}

/-- The lines of a property stand in the class of its model. -/
theorem indentLine_mem_lines_classOf (hf : f ∈ d.fields) (hexcluded : f.name ∉ conventions.excluded)
    {line : String} (hline : line ∈ (property f).lines) :
    indentLine step line ∈ (classOf conventions d).lines := by
  have hproperty : property f ∈
      (d.fields.filter (!conventions.excluded.contains ·.name)).map property :=
    List.mem_map_of_mem (List.mem_filter.mpr ⟨hf, by simpa using hexcluded⟩)
  have hsection : line ∈ (paragraphs ((classOf conventions d).sections.map Section.lines)) :=
    mem_paragraphs (List.mem_singleton_self _)
      (mem_paragraphs (List.mem_map_of_mem hproperty) hline)
  rw [ClassDecl.lines, if_neg (by simp [classOf])]
  simp only [List.mem_append, List.mem_cons]
  exact .inr (.inl (.inr (List.mem_map_of_mem hsection)))

/-- What follows the description of a field in its decorator. -/
def afterDescription (f : Field) : String :=
  ", " ++ (if f.type.isEnum then "enum" else "type") ++ ": " ++ f.type.documentation ++
    ", nullable: " ++ (if f.isRequired then "false" else "true") ++ " \x7d)"

/-- **The description of a field is read off the file of its model**, up to what follows it. -/
theorem exists_readLiteral?_description (hf : f ∈ d.fields) (hplain : f.IsPlain)
    (hdescription : IsLine f.description.toList) (hexcluded : f.name ∉ conventions.excluded) :
    ∃ quoted, "    @ApiProperty(\x7b description: ".toList ++ quoted ∈
        splitNewlines (source conventions d).artifact.content.toList ∧
      readLiteral? quoted = some (f.description, (afterDescription f).toList) := by
  refine ⟨(literal f.description).toList ++ (afterDescription f).toList, ?_,
    by rw [readLiteral?_literal, if_pos (fitsLiteral_of_isLine hdescription)]⟩
  have hlines : (property f).lines =
      ["@ApiProperty(\x7b description: " ++ literal f.description ++ afterDescription f,
        (property f).declaration] := by
    refine congrArg ([·, (property f).declaration]) (String.toList_inj.mp ?_)
    simp [Decorator.line, braced, afterDescription]
  have hindent : indentLine step
      ("@ApiProperty(\x7b description: " ++ literal f.description ++ afterDescription f) =
        "    @ApiProperty(\x7b description: " ++ literal f.description ++ afterDescription f := by
    have hblank : isBlankText
        ("@ApiProperty(\x7b description: " ++ literal f.description ++ afterDescription f) = false := by
      simp [isBlankText, isBlank]
    rw [indentLine, hblank]
    simp [step, ← String.append_assoc]
  have hone : IsOneLine
      ("    @ApiProperty(\x7b description: " ++ literal f.description ++ afterDescription f) := by
    have hkind : IsOneLine (if f.type.isEnum then "enum" else "type") := by split <;> decide
    have hnullable : IsOneLine (if f.isRequired then "false" else "true") := by split <;> decide
    simp only [afterDescription, isOneLine_append, isOneLine_literal, hplain.description, hkind,
      hnullable, hplain.isOneLine_response, and_true]
    decide
  have hmem := indentLine_mem_lines_classOf hf hexcluded (hlines ▸ List.mem_cons_self)
  rw [hindent] at hmem
  have hdeclaration : Declaration.class_ (classOf conventions d) ∈
      (source conventions d).source.declarations := by
    simp [source, SourceFile.ofClass, SourceFile.declarations]
  have hline := SourceFile.mem_splitNewlines_of_mem_declarations hdeclaration hmem hone
  rw [String.toList_append, String.toList_append, List.append_assoc] at hline
  exact hline

end Layer.Model

/-- **String literals are read back.** A literal is read as its text, up to what follows it, exactly
if the text has no line end in it. Different texts have different literals, and no part of a literal
before its end is a literal; it is made by escaping the backslashes and then the quotation marks. So
the message about a description is read back, and for every definition that is read the description
of each field is read off the file of its model. -/
theorem literal_readsBack :
    (∀ (text : String) (rest : List Char),
      readLiteral? ((literal text).toList ++ rest) = some (text, rest) ↔ FitsLiteral text) ∧
    Function.Injective literal ∧
    (∀ (text : String) (front back : List Char), (literal text).toList = front ++ back →
      (readLiteral? front).isSome → back = []) ∧
    (∀ text : String, (literal text).toList =
      '\x22' :: escapeEach '\x22' (escapeEach '\x5c' text.toList) ++ ['\x22']) ∧
    (∀ (deed : Deed) (description : String) (rest : List Char), FitsLiteral description →
      readLiteral? ((deed.done description).toList ++ rest) =
        some (description ++ " " ++ deed.label ++ deed.particle ++ " 완료되었습니다.", rest)) ∧
    ∀ (registry : Registry) (fileId : String) (location : Location) (unit : String)
      (d : Definition), Definition.parse registry fileId location unit = .ok d →
      ∀ (conventions : Conventions), ∀ f ∈ d.fields, f.name ∉ conventions.excluded →
        ∃ quoted, "    @ApiProperty(\x7b description: ".toList ++ quoted ∈
            splitNewlines (Layer.Model.source conventions d).artifact.content.toList ∧
          readLiteral? quoted =
            some (f.description, (Layer.Model.afterDescription f).toList) := by
  refine ⟨fun text rest => ?_, literal_injective, fun _ _ _ => eq_nil_of_readLiteral?,
    toList_literal, fun deed _ rest h => deed.readLiteral?_done h rest, ?_⟩
  · rw [readLiteral?_literal]
    by_cases h : FitsLiteral text <;> simp [h]
  · intro registry fileId location unit d hparse conventions f hf hexcluded
    exact Layer.Model.exists_readLiteral?_description hf
      ((Definition.isPlain_of_parse hparse).fields f hf)
      (Definition.isLine_description hparse hf) hexcluded

/-- A description with a quotation mark behind a backslash, and with a backslash at its end. -/
def quotedText : String := "a\\\"b\\"

/-- The model of a note whose key has this description. -/
def quotedNote : Definition where
  name := "Note"
  description := "Note"
  fields :=
    [{ name := "id", type := .ofDeclared "Int" false, isArray := false, isId := true
       isRequired := true, tags := {}, description := quotedText, unknownDirectives := [] }]
  relations := []
  fileId := "note"
  location := .primary

/-- The description of the note's key is read back from its literal, and from the file of the
model. -/
theorem literal_readsBack_quotedNote :
    FitsLiteral quotedText ∧ literal quotedText = "\"a\\\\\\\"b\\\\\"" ∧
      readLiteral? ((literal quotedText).toList ++ "\";".toList) =
        some (quotedText, "\";".toList) ∧
      Definition.parse {} "note" .primary
        ("// Note\nmodel Note \x7b\n  id Int @id // " ++ quotedText ++ "\n\x7d\n") =
          .ok quotedNote ∧
      ∃ quoted, "    @ApiProperty(\x7b description: ".toList ++ quoted ∈
          splitNewlines (Layer.Model.source {} quotedNote).artifact.content.toList ∧
        readLiteral? quoted = some (quotedText, ", type: Number, nullable: false \x7d)".toList) := by
  have hfits : FitsLiteral quotedText := by decide
  have hparse : Definition.parse {} "note" .primary
      ("// Note\nmodel Note \x7b\n  id Int @id // " ++ quotedText ++ "\n\x7d\n") =
        .ok quotedNote := by
    decide +kernel
  obtain ⟨hliteral, -, -, -, -, hmodel⟩ := literal_readsBack
  refine ⟨hfits, by decide, (hliteral _ _).mpr hfits, hparse, ?_⟩
  obtain ⟨quoted, hline, hread⟩ :=
    hmodel {} "note" .primary _ _ hparse {} _ List.mem_cons_self (by decide)
  exact ⟨quoted, hline, hread⟩

end NestLayers
