import NestLayers.Proofs.ParsedDefinition

/-!
# Printing and reading definition units

A definition unit printed from a name, a description and field lines is read back as these. The
printed form has one line per field; what may be printed is said here by `IsPrintable` and
`IsDescription`, without the reader.
-/

namespace NestLayers

open NestLayers.Text

namespace FieldLine

/-- The text is an attribute as a whole. -/
def IsAttributeText (cs : List Char) : Prop :=
  ∃ name arguments, cs = '@' :: name ++ arguments ∧ IsAttributeName name ∧
    (arguments = [] ∨ IsGroup arguments)

/-- A field that can be printed as a line: its parts are of their kinds, the comment has no
blanks at its ends, and nothing in it ends the line or makes a block attribute of it. -/
structure IsPrintable (f : FieldLine) : Prop where
  name : IsName f.name.toList
  typeName : IsName f.typeName.toList
  attributes : ∀ text ∈ f.attributes, IsAttributeText text.toList
  comment_ne_empty : f.comment ≠ ""
  comment_trim : trim f.comment = f.comment
  isLine : ∀ text ∈ f.comment :: f.attributes, IsLine text.toList
  noBlock : ∀ text ∈ f.comment :: f.attributes, occursIn ['@', '@'] text.toList = false

/-- The line of a field. -/
def print (f : FieldLine) : String :=
  "  " ++ f.name ++ " " ++ f.typeName ++ (if f.isArray then "[]" else "") ++
    (if f.isOptional then "?" else "") ++ " " ++ String.join (f.attributes.map (· ++ " ")) ++
    "// " ++ f.comment

/-- What is printed behind the type of a field. -/
def printMarks (f : FieldLine) : List Char :=
  (if f.isArray then ['[', ']'] else []) ++ (if f.isOptional then ['?'] else [])

/-- The characters of a printed line. -/
theorem toList_print (f : FieldLine) :
    f.print.toList = [' ', ' '] ++ (f.name.toList ++ ' ' :: (f.typeName.toList ++ f.printMarks ++
      ' ' :: ((f.attributes.flatMap fun text => text.toList ++ [' ']) ++
        '/' :: '/' :: ' ' :: f.comment.toList))) := by
  unfold print
  cases harray : f.isArray <;> cases hoptional : f.isOptional <;>
    simp [printMarks, harray, hoptional, List.flatMap_map]

/-- Attributes that are printed with a space after each stand in the line as such. -/
theorem exists_attributePieces {texts : List String}
    (h : ∀ text ∈ texts, IsAttributeText text.toList) :
    ∃ pieces : List AttributePiece, (pieces.map fun a => String.ofList a.text) = texts ∧
      pieces.flatMap AttributePiece.chars = texts.flatMap fun text => text.toList ++ [' '] := by
  induction texts with
  | nil => exact ⟨[], rfl, rfl⟩
  | cons text texts ih =>
    obtain ⟨⟨name, arguments, htext, hname, harguments⟩, hrest⟩ := List.forall_mem_cons.mp h
    obtain ⟨pieces, rfl, hchars⟩ := ih hrest
    refine ⟨⟨name, arguments, [' '], hname, harguments, by decide⟩ :: pieces, ?_, ?_⟩
    · have hofList : String.ofList ('@' :: name ++ arguments) = text := by
        rw [← htext, String.ofList_toList]
      rw [List.map_cons, AttributePiece.text, hofList]
    · rw [List.flatMap_cons, List.flatMap_cons, AttributePiece.chars, AttributePiece.text, htext,
        hchars]

/-- A comment without blanks at its ends is found again behind the slashes and a space. -/
theorem IsPrintable.trimChars_remark {f : FieldLine} (h : f.IsPrintable) :
    trimChars (' ' :: f.comment.toList) = f.comment.toList := by
  have htrim := congrArg String.toList h.comment_trim
  have hspace : IsBlanks [' '] := by decide
  rw [← List.singleton_append, trimChars_blanks hspace]
  simpa [trim] using htrim

/-- The layout of a printed line, given its attributes. One space follows the marks. -/
def IsPrintable.layout {f : FieldLine} (h : f.IsPrintable) (attributes : List AttributePiece) :
    Layout where
  margin := [' ', ' ']
  name := f.name.toList
  gap := [' ']
  typeName := f.typeName.toList
  blanks := if f.isArray || f.isOptional then [] else [' ']
  array := if f.isArray then some (if f.isOptional then [] else [' ']) else none
  optional := if f.isOptional then some [' '] else none
  attributes := attributes
  remark := ' ' :: f.comment.toList
  margin_isBlanks := by decide
  name_isName := h.name
  gap_isBlanks := by decide
  gap_ne_nil := by simp
  typeName_isName := h.typeName
  blanks_isBlanks := by split <;> decide
  array_isBlanks := by cases f.isArray <;> cases f.isOptional <;> decide
  optional_isBlanks := by cases f.isOptional <;> decide
  comment_ne_nil := by
    rw [h.trimChars_remark]
    simpa using h.comment_ne_empty

/-- A printed line is read back. -/
theorem IsPrintable.parse_print {f : FieldLine} (h : f.IsPrintable) :
    parse f.print = .ok f := by
  obtain ⟨pieces, htexts, hchars⟩ := exists_attributePieces h.attributes
  refine parse_eq_ok_iff.mpr ⟨h.layout pieces, ?_, ?_⟩
  · rw [toList_print]
    cases harray : f.isArray <;> cases hoptional : f.isOptional <;>
      simp [layout, Layout.chars, Layout.afterType, Layout.tailChars, markChars, printMarks, harray,
        hoptional, hchars]
  · have harray : (h.layout pieces).array.isSome = f.isArray := by
      simp only [layout]
      cases f.isArray <;> rfl
    have hoptional : (h.layout pieces).optional.isSome = f.isOptional := by
      simp only [layout]
      cases f.isOptional <;> rfl
    simp only [Layout.field, harray, hoptional]
    simp [layout, htexts, h.trimChars_remark]

/-- No character of a printed line ends it. -/
theorem IsPrintable.isLine_print {f : FieldLine} (h : f.IsPrintable) : IsLine f.print.toList := by
  obtain ⟨hcomment, hattributes⟩ := List.forall_mem_cons.mp h.isLine
  have hname := isLine_of_isWord h.name.isWord
  have htype := isLine_of_isWord h.typeName.isWord
  have hmarks : IsLine f.printMarks := by
    rw [printMarks]
    cases f.isArray <;> cases f.isOptional <;> decide
  have hrow : IsLine (f.attributes.flatMap fun text => text.toList ++ [' ']) := by
    intro c hc
    obtain ⟨text, htext, hc⟩ := List.mem_flatMap.mp hc
    rcases List.mem_append.mp hc with hc | hc
    · exact hattributes text htext c hc
    · obtain rfl := List.mem_singleton.mp hc
      decide
  have hspace : isLineBreak ' ' = false := by decide
  have hslash : isLineBreak '/' = false := by decide
  rw [toList_print]
  simp [hname, htype, hmarks, hrow, hspace, hslash, hcomment]

/-- A printed line starts, after its margin, with the first character of its name. -/
theorem IsPrintable.exists_print {f : FieldLine} (h : f.IsPrintable) :
    ∃ c rest, isNameStart c = true ∧ f.print.toList = [' ', ' '] ++ c :: rest := by
  have hname := h.name
  rw [toList_print]
  cases hchars : f.name.toList with
  | nil =>
    rw [hchars] at hname
    exact hname.elim
  | cons c rest =>
    rw [hchars] at hname
    exact ⟨c, _, hname.1, rfl⟩

/-- A printed line is not taken for the end of the body. -/
theorem IsPrintable.isClosing_print {f : FieldLine} (h : f.IsPrintable) :
    Definition.isClosing f.print.toList = false := by
  obtain ⟨c, rest, hc, hprint⟩ := h.exists_print
  have hmargin : IsBlanks [' ', ' '] := by decide
  have hne : c ≠ Header.closingBrace := by
    rintro rfl
    exact absurd hc (by decide)
  rw [Definition.isClosing, hprint, head?_trimChars hmargin (isBlank_of_isNameStart hc)]
  simpa using hne

/-- A name has no `@` in it. -/
theorem at_notMem_of_isName {cs : List Char} (h : IsName cs) : '@' ∉ cs := by
  intro hat
  exact absurd (h.isWord '@' hat) (by decide)

/-- A printed line is not passed over. -/
theorem IsPrintable.isSkipped_print {f : FieldLine} (h : f.IsPrintable) :
    Definition.isSkipped f.print.toList = false := by
  obtain ⟨c, rest, hc, hprint⟩ := h.exists_print
  obtain ⟨hcomment, hattributes⟩ := List.forall_mem_cons.mp h.noBlock
  have hall : f.print.toList.all isBlank = false := by
    rw [hprint]
    simp [isBlank_of_isNameStart hc]
  have hblock : occursIn ['@', '@'] f.print.toList = false := by
    have hspace : ' ' ≠ '@' := by decide
    have hslash : '/' ≠ '@' := by decide
    have hname : '@' ∉ [' ', ' '] ++ f.name.toList := by
      simpa using at_notMem_of_isName h.name
    have htype : '@' ∉ f.typeName.toList ++ f.printMarks := by
      have hmarks : '@' ∉ f.printMarks := by
        rw [printMarks]
        cases f.isArray <;> cases f.isOptional <;> decide
      simpa [hmarks] using at_notMem_of_isName h.typeName
    rw [toList_print, ← List.append_assoc, occursIn_at_append hspace, occursIn_at_append hspace,
      occursIn_at_of_notMem hname, occursIn_at_of_notMem htype, Bool.false_or, Bool.false_or]
    refine occursIn_at_flatMap hattributes ?_
    simp [occursIn, afterStart?, hcomment]
  simp only [Definition.isSkipped, hall, Bool.false_or]
  exact hblock

end FieldLine

/-- A description that can be printed as a comment line: it is not empty, ends no line, and
neither starts nor ends with a space or a tabulator. -/
structure IsDescription (description : List Char) : Prop where
  ne_nil : description ≠ []
  isLine : IsLine description
  start : ∀ c ∈ description.head?, isGap c = false
  stop : ∀ c ∈ description.getLast?, isGap c = false

/-- The definition unit of a model: its description, its header, one line per field, and the
closing brace. -/
def printUnit (name description : String) (fields : List FieldLine) : String :=
  "// " ++ description ++ "\n" ++ "model " ++ name ++ " \x7b\n" ++
    String.join (fields.map fun f => f.print ++ "\n") ++ "\x7d\n"

namespace Header

/-- The header line of a model. -/
def headerLine (name : List Char) : List Char :=
  ['m', 'o', 'd', 'e', 'l', ' '] ++ name ++ [' ', openingBrace]

/-- What follows a line feed starts a line. -/
theorem afterNewlines_line {line : List Char} (hline : '\n' ∉ line) (rest : List Char) :
    afterNewlines (line ++ '\n' :: rest) = rest :: afterNewlines rest := by
  induction line with
  | nil => simp [afterNewlines]
  | cons c cs ih =>
    obtain ⟨hc, hcs⟩ := not_or.mp (mt List.mem_cons.mpr hline)
    simp [afterNewlines, Ne.symm hc, ih hcs]

/-- The name in a header line is found. -/
theorem nameAt?_headerLine {name : List Char} (hname : IsModelName name) (rest : List Char) :
    nameAt? (headerLine name ++ rest) = some (String.ofList name) := by
  obtain ⟨hne, hword⟩ := hname
  have hafter : afterStart? "model".toList (headerLine name ++ rest) =
      some (' ' :: (name ++ ' ' :: openingBrace :: rest)) := by
    simp [headerLine, afterStart?]
  have hspace : isBlank ' ' = true := by decide
  have hbrace : isBlank openingBrace = false := by decide
  have hstart : Stops isBlank (name ++ ' ' :: openingBrace :: rest) := by
    cases name with
    | nil => exact absurd rfl hne
    | cons c cs => simpa using isBlank_of_isWord (hword c List.mem_cons_self)
  have hstop : Stops isWord (' ' :: openingBrace :: rest) := by
    simpa using isWord_of_isBlank hspace
  have hdrop : (' ' :: (name ++ ' ' :: openingBrace :: rest)).dropWhile isBlank =
      name ++ ' ' :: openingBrace :: rest := by
    rw [List.dropWhile_cons_of_pos hspace, hstart.dropWhile_eq]
  have hend : (' ' :: openingBrace :: rest).dropWhile isBlank = openingBrace :: rest := by
    simp [hspace, hbrace]
  have htake := takeWhile_append_stops hword hstop
  have hrest := dropWhile_append_stops hword hstop
  simp only [nameAt?, hafter, hdrop, htake, hrest, hend, List.head?_cons, Option.any_some, hspace,
    if_true, Option.bind_eq_bind, Option.bind_some]
  simp [hne]

/-- A text that starts with a slash does not start with a header. -/
theorem nameAt?_slash (rest : List Char) : nameAt? ('/' :: rest) = none := by
  simp [nameAt?, afterStart?]

/-- The text of a printed comment line is the description. -/
theorem commentText_description {description : List Char} (h : IsDescription description) :
    commentText ("// ".toList ++ description) = description := by
  have hreturn : description.getLast? ≠ some '\r' := by
    intro hlast
    have hline := h.isLine '\r' (List.mem_of_getLast? hlast)
    exact absurd hline (by decide)
  have hgap : isGap ' ' = true := by decide
  have hstart : Stops isGap description := h.start
  have htext : ("// ".toList ++ description).dropWhile (· == '/') = ' ' :: description := by
    simp
  rw [commentText]
  simp only [htext, List.dropWhile_cons_of_pos hgap, hstart.dropWhile_eq, if_neg hreturn]
  exact dropTail_of_getLast h.stop

/-- The header below a comment line is the first header. -/
theorem find?_below_comment {name comment : List Char} (hname : IsModelName name)
    (hcomment : '\n' ∉ comment) (rest : List Char) :
    find? ('/' :: comment ++ '\n' :: (headerLine name ++ rest)) = some ⟨String.ofList name, 1⟩ := by
  have hline : '\n' ∉ '/' :: comment := by simpa using hcomment
  have hslash : isGap '/' = false := by decide
  have hmodel : isGap 'm' = false := by decide
  have hheader : nameAt? ((headerLine name ++ rest).dropWhile isGap) =
      some (String.ofList name) := by
    have hstart : Stops isGap (headerLine name ++ rest) := by simpa [headerLine] using hmodel
    rw [hstart.dropWhile_eq, nameAt?_headerLine hname]
  rw [find?, lineStarts, afterNewlines_line hline]
  simp [List.zipIdx_cons, hslash, nameAt?_slash, hheader]

/-- The description in the comment line above the header is found. -/
theorem findDescription?_above_header {name description : List Char} (hname : IsModelName name)
    (hdescription : IsDescription description) (rest : List Char) :
    findDescription? ("// ".toList ++ description ++ '\n' :: (headerLine name ++ rest)) =
      some description := by
  have hline : ∀ c ∈ "// ".toList ++ description, (c != '\n') = true := by
    intro c hc
    have hisLine : IsLine ("// ".toList ++ description) :=
      isLine_append.mpr ⟨by decide, hdescription.isLine⟩
    simp only [bne_iff_ne]
    rintro rfl
    exact absurd (hisLine _ hc) (by decide)
  have hstop : Stops (· != '\n') ('\n' :: (headerLine name ++ rest)) := by simp
  have hstart : Stops isGap ("// ".toList ++ description ++ '\n' :: (headerLine name ++ rest)) := by
    simp [isGap]
  have hbelow : (headerLine name ++ rest).dropWhile isBlank = headerLine name ++ rest := by
    have hmodel : isBlank 'm' = false := by decide
    have hstops : Stops isBlank (headerLine name ++ rest) := by simpa [headerLine] using hmodel
    exact hstops.dropWhile_eq
  have hfirst : descriptionAt? ("// ".toList ++ description ++ '\n' :: (headerLine name ++ rest)) =
      some description := by
    have hslashes : afterStart? "//".toList
        ("// ".toList ++ description ++ '\n' :: (headerLine name ++ rest)) =
        some (' ' :: description ++ '\n' :: (headerLine name ++ rest)) := by
      simp [afterStart?]
    rw [descriptionAt?]
    simp only [hstart.dropWhile_eq, hslashes, dropWhile_append_stops hline hstop,
      takeWhile_append_stops hline hstop, hbelow, nameAt?_headerLine hname, Option.isSome_some,
      if_true, commentText_description hdescription]
  rw [findDescription?, lineStarts, List.findSome?_cons, hfirst]

end Header

namespace Definition

/-- Printed lines are read back up to the closing line. -/
theorem readBody_print {fields : List FieldLine} (hfields : ∀ f ∈ fields, f.IsPrintable)
    {closing : List Char} (hclosing : isClosing closing = true) (rest : List (List Char))
    (number : Nat) :
    readBody number ((fields.map fun f => f.print.toList) ++ closing :: rest) =
      .ok (fields, true) := by
  induction fields generalizing number with
  | nil => simp [readBody, hclosing]
  | cons f fields ih =>
    obtain ⟨hf, hrest⟩ := List.forall_mem_cons.mp hfields
    have hparse : FieldLine.parse (String.ofList f.print.toList) = .ok f := by
      rw [String.ofList_toList]
      exact hf.parse_print
    rw [List.map_cons, List.cons_append, readBody]
    simp only [hf.isClosing_print, hf.isSkipped_print, Bool.false_eq_true, if_false, hparse, ih hrest]
    rfl

/-- The characters of a printed unit: its lines, each with a line feed after it. -/
theorem toList_printUnit (name description : String) (fields : List FieldLine) :
    (printUnit name description fields).toList =
      "// ".toList ++ description.toList ++ '\n' :: (Header.headerLine name.toList ++
        '\n' :: ((fields.map fun f => f.print.toList) ++ [[Header.closingBrace]]).flatMap
          (· ++ ['\n'])) := by
  unfold printUnit
  simp [Header.headerLine, Header.openingBrace, Header.closingBrace, List.flatMap_map]

/-- The body of a printed unit is its field lines and the closing brace. -/
theorem bodyLines_printUnit {name description : String} {fields : List FieldLine}
    (hname : IsModelName name.toList) (hdescription : IsDescription description.toList)
    (hfields : ∀ f ∈ fields, f.IsPrintable) :
    bodyLines ⟨name, 1⟩ (printUnit name description fields).toList =
      (fields.map fun f => f.print.toList) ++ [[Header.closingBrace]] := by
  have hcomment : IsLine ("// ".toList ++ description.toList) :=
    isLine_append.mpr ⟨by decide, hdescription.isLine⟩
  have hheader : IsLine (Header.headerLine name.toList) := by
    rw [Header.headerLine, isLine_append, isLine_append]
    exact ⟨⟨by decide, isLine_of_isWord hname.2⟩, by decide⟩
  have hlines : ∀ line ∈ (fields.map fun f => f.print.toList) ++ [[Header.closingBrace]],
      IsLine line := by
    intro line hline
    rcases List.mem_append.mp hline with hline | hline
    · obtain ⟨f, hf, rfl⟩ := List.mem_map.mp hline
      exact (hfields f hf).isLine_print
    · obtain rfl := List.mem_singleton.mp hline
      decide
  rw [bodyLines, toList_printUnit, splitLines_line hcomment, splitLines_line hheader,
    splitLines_flatMap hlines]
  rfl

/-- The parts of a unit are read back as they were printed. -/
theorem readUnit_printUnit {name description : String} {fields : List FieldLine}
    (hname : IsModelName name.toList) (hdescription : IsDescription description.toList)
    (hfields : ∀ f ∈ fields, f.IsPrintable) :
    readUnit (printUnit name description fields) = .ok (name, description, fields) := by
  have hmark : withoutMark (printUnit name description fields).toList =
      (printUnit name description fields).toList := by
    simp [toList_printUnit, withoutMark]
  have hfind : Header.find? (printUnit name description fields).toList = some ⟨name, 1⟩ := by
    have hcomment : '\n' ∉ '/' :: ' ' :: description.toList := by
      have hnewline : '\n' ∉ description.toList := fun h =>
        absurd (hdescription.isLine _ h) (by decide)
      simpa using hnewline
    have hfirst := Header.find?_below_comment hname hcomment
      ('\n' :: ((fields.map fun f => f.print.toList) ++ [[Header.closingBrace]]).flatMap
        (· ++ ['\n']))
    rw [String.ofList_toList] at hfirst
    rw [toList_printUnit]
    exact hfirst
  have hfound : Header.findDescription? (printUnit name description fields).toList =
      some description.toList := by
    rw [toList_printUnit]
    exact Header.findDescription?_above_header hname hdescription _
  have hclosing : isClosing [Header.closingBrace] = true := by decide
  have hbody := readBody_print hfields hclosing [] 3
  have hne : description.toList.isEmpty = false := by simpa using hdescription.ne_nil
  rw [readUnit]
  simp only [hmark, hfind, hfound, Option.getD_some, hne, Bool.false_eq_true, if_false,
    bodyLines_printUnit hname hdescription hfields, hbody, String.ofList_toList]
  rfl

/-- The scalar fields of a list of members are the members that are scalar fields. -/
theorem map_field_filterMap (members : List Member) :
    (members.filterMap Member.field?).map Member.field = members.filter (·.field?.isSome) := by
  induction members with
  | nil => rfl
  | cons m members ih => cases m <;> simp [List.filterMap_cons, Member.field?, ih]

/-- The relations of a list of members are the members that are relations. -/
theorem map_relation_filterMap (members : List Member) :
    (members.filterMap Member.relation?).map Member.relation =
      members.filter (·.relation?.isSome) := by
  induction members with
  | nil => rfl
  | cons m members ih => cases m <;> simp [List.filterMap_cons, Member.relation?, ih]

/-- A line declares a scalar field if its type is no model, and a relation otherwise. -/
theorem isSome_member (registry : Registry) (line : FieldLine) :
    (line.member registry).field?.isSome = !registry.contains line.typeName ∧
      (line.member registry).relation?.isSome = registry.contains line.typeName := by
  cases h : registry.contains line.typeName <;>
    simp only [FieldLine.member, h] <;> exact ⟨rfl, rfl⟩

/-- **Reading undoes printing.** A printed definition unit is read as the model that was printed:
its scalar fields are what the lines whose type is no model declare, in order, and its relations
are what the other lines declare, in order. -/
theorem parse_printUnit (registry : Registry) (fileId : String) (location : Location)
    {name description : String} {fields : List FieldLine}
    (hname : IsModelName name.toList) (hdescription : IsDescription description.toList)
    (hfields : ∀ f ∈ fields, f.IsPrintable) :
    ∃ d, parse registry fileId location (printUnit name description fields) = .ok d ∧
      d.name = name ∧ d.description = description ∧ d.fileId = fileId ∧ d.location = location ∧
      d.fields.map Member.field =
        (fields.filter fun f => !registry.contains f.typeName).map (FieldLine.member registry) ∧
      d.relations.map Member.relation =
        (fields.filter fun f => registry.contains f.typeName).map (FieldLine.member registry) := by
  have hread := readUnit_printUnit hname hdescription hfields
  have hparse : parse registry fileId location (printUnit name description fields) =
      .ok { name, description, fileId, location
            fields := (fields.map (FieldLine.member registry)).filterMap Member.field?
            relations := (fields.map (FieldLine.member registry)).filterMap Member.relation? } := by
    rw [parse_eq, hread]
    rfl
  refine ⟨_, hparse, rfl, rfl, rfl, rfl, ?_, ?_⟩
  · simp only [map_field_filterMap, List.filter_map, Function.comp_def, isSome_member]
  · simp only [map_relation_filterMap, List.filter_map, Function.comp_def, isSome_member]

/-- The fields of an order: an identifier with a generated value, and the customers of the order,
whose attribute has a quoted parenthesis and slashes in its arguments. -/
def orderLines : List FieldLine :=
  [⟨"id", "Int", false, false, ["@id", "@default(autoincrement())"], "The number (int)"⟩,
    ⟨"customers", "Customer", true, true, ["@relation(\"a)//b\", fields: [id])"], "Who ordered"⟩]

private theorem isPrintable_orderLines : ∀ f ∈ orderLines, f.IsPrintable := by
  rw [orderLines, List.forall_mem_cons, List.forall_mem_singleton]
  constructor
  · constructor
    case attributes =>
      rw [List.forall_mem_cons, List.forall_mem_singleton]
      refine ⟨⟨"id".toList, [], ?_, ?_, .inl rfl⟩,
        ⟨"default".toList, "(autoincrement())".toList, ?_, ?_, .inr ?_⟩⟩
      all_goals decide +kernel
    all_goals decide +kernel
  · constructor
    case attributes =>
      rw [List.forall_mem_singleton]
      refine ⟨"relation".toList, "(\"a)//b\", fields: [id])".toList, ?_, ?_, .inr ?_⟩
      all_goals decide +kernel
    all_goals decide +kernel

/-- The unit of an order with its customers is read back. -/
theorem parse_printUnit_order :
    (IsModelName "Order".toList ∧ IsDescription "An order".toList ∧
      ∀ f ∈ orderLines, f.IsPrintable) ∧
    ∃ d, parse ⟨["Customer"], []⟩ "order.prisma" .primary
        (printUnit "Order" "An order" orderLines) = .ok d ∧
      d.name = "Order" ∧ d.description = "An order" ∧ d.fileId = "order.prisma" ∧
      d.location = .primary ∧
      d.fields.map Member.field =
        (orderLines.filter fun f => !(Registry.mk ["Customer"] []).contains f.typeName).map
          (FieldLine.member ⟨["Customer"], []⟩) ∧
      d.relations.map Member.relation =
        (orderLines.filter fun f => (Registry.mk ["Customer"] []).contains f.typeName).map
          (FieldLine.member ⟨["Customer"], []⟩) := by
  have hname : IsModelName "Order".toList := by decide +kernel
  have hdescription : IsDescription "An order".toList := by
    refine ⟨by decide, by decide +kernel, ?_, ?_⟩
    · rintro _ ⟨⟩
      decide
    · rintro _ ⟨⟩
      decide
  exact ⟨⟨hname, hdescription, isPrintable_orderLines⟩,
    parse_printUnit _ _ _ hname hdescription isPrintable_orderLines⟩

end Definition

end NestLayers
