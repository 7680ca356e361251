import Mathlib.Data.List.Basic
import NestLayers.Proofs.MethodTexts

/-!
# Reading classes and their members off a text

The body of the last exported class of a text is what stands behind the line that declares it,
whatever the lines above it are. Its methods, properties and decorators are read off its lines; the
classes that a text declares, and the members that are always set, are read off all lines.
-/

namespace NestLayers.TypeScript

open NestLayers.Text

/-! ## The body of the last class -/

/-- The line declares an exported class. -/
def isClassLine (line : List Char) : Bool :=
  "export class ".toList.isPrefixOf line

/-- The lines behind the last declaration of an exported class, without margins. -/
def bodyLines (text : String) : List (List Char) :=
  ((splitNewlines text.toList).reverse.takeWhile (!isClassLine ·)).reverse.map bare

/-- The methods of the last exported class. -/
def bodyMethods (text : String) : List MethodText :=
  methodsIn (bodyLines text)

/-- The lines of the last exported class that declare a property. -/
def propertyLines (text : String) : List String :=
  ((bodyLines text).filter (·.getLast? == some ';')).map String.ofList

/-- The decorators in the last exported class. -/
def decoratorNames (text : String) : List String :=
  ((bodyLines text).filter (·.head? == some '@')).map fun line =>
    String.ofList (line.tail.takeWhile (· != '('))

/-- A line that starts with another character declares no class. -/
theorem isClassLine_of_head {line : List Char} (h : line.head? ≠ some 'e') :
    isClassLine line = false := by
  rw [isClassLine, ← Bool.not_eq_true, List.isPrefixOf_iff_prefix]
  rintro ⟨rest, rfl⟩
  exact h rfl

/-- A line of a body starts with a space, if it is not blank. -/
theorem head?_indentLine (line : String) :
    ∀ c ∈ (indentLine step line).toList.head?, isBlank c = true := by
  intro c hc
  unfold indentLine at hc
  split at hc
  · rename_i hblank
    exact List.all_eq_true.mp hblank c (List.mem_of_head? hc)
  · obtain rfl : ' ' = c := by simpa [step] using hc
    decide

/-- **The body of a class is read off the text of its file**, whatever its imports are. -/
theorem bodyLines_ofClass (imports : Imports) {c : ClassDecl} (hexported : c.exported = true)
    (hc : c.HasLines) (hne : c.sections ≠ []) :
    bodyLines (SourceFile.ofClass imports c).text = bareLines c.inner ++ [['\x7d'], []] := by
  obtain ⟨above, habove⟩ : ∃ above, (SourceFile.ofClass imports c).lines =
      above ++ c.opening :: (c.inner ++ ["\x7d"]) := by
    rw [SourceFile.lines_ofClass, ClassDecl.lines_eq hne]
    split
    · exact ⟨c.decorators.map Decorator.line, by simp⟩
    · exact ⟨imports.lines ++ "" :: c.decorators.map Decorator.line, by simp⟩
  have hopening : isClassLine c.opening.toList = true := by
    rw [isClassLine, List.isPrefixOf_iff_prefix]
    simp [ClassDecl.opening, hexported]
  have hone := ClassDecl.isOneLine_opening hc.name hc.heritage
  have hsplit : splitNewlines (SourceFile.ofClass imports c).text.toList =
      (above.flatMap fun line => splitNewlines line.toList) ++
        c.opening.toList :: (c.inner.map String.toList ++ [['\x7d'], []]) := by
    rw [SourceFile.text, splitNewlines_joinLines (by simp), habove]
    simp only [List.append_assoc, List.cons_append, List.nil_append, List.flatMap_append,
      List.flatMap_cons, List.flatMap_nil, splitNewlines_of_isOneLine hone,
      flatMap_splitNewlines hc.areLines_inner]
    rfl
  have hbody : ∀ line ∈ (c.inner.map String.toList ++ [['\x7d'], []]).reverse,
      (!isClassLine line) = true := by
    simp only [List.mem_reverse, List.forall_mem_append, List.forall_mem_map, Bool.not_eq_true']
    refine ⟨fun line hline => isClassLine_of_head fun hhead => ?_, by decide⟩
    obtain ⟨inside, -, rfl⟩ := List.mem_map.mp hline
    exact absurd (head?_indentLine inside _ hhead) (by decide)
  rw [bodyLines, hsplit, List.reverse_append, List.reverse_cons, List.append_assoc,
    List.takeWhile_append_of_pos hbody, List.singleton_append, List.takeWhile_cons_of_neg
    (by simp [hopening]), List.append_nil, List.reverse_reverse, List.map_append, List.map_map,
    bareLines_of_areLines hc.areLines_inner]
  rfl

/-- **The methods of a class are read off the text of its file**, whatever its imports are. -/
theorem bodyMethods_ofClass (imports : Imports) {c : ClassDecl} (hexported : c.exported = true)
    (hc : c.IsReadable) :
    bodyMethods (SourceFile.ofClass imports c).text = c.methods.map Method.reading := by
  have hrest : methodsIn [['\x7d'], []] = [] := by decide
  rw [bodyMethods, bodyLines_ofClass imports hexported hc.hasLines hc.nonempty,
    hc.methodsIn_inner, hrest, List.append_nil]

/-- The name of a property starts with a character of a word. -/
def Property.IsNamed (p : Property) : Prop :=
  ∃ c rest, p.name.toList = c :: rest ∧ isWord c = true

/-- A property with the name of a field is named. -/
theorem Property.isNamed_of_isName {p : Property} (h : FieldLine.IsName p.name.toList) :
    p.IsNamed := by
  unfold IsNamed
  cases hchars : p.name.toList with
  | nil =>
    rw [hchars] at h
    exact h.elim
  | cons c rest =>
    rw [hchars] at h
    exact ⟨c, rest, rfl, isWord_of_isNameStart h.1⟩

/-- The declaration of a property has no margin. -/
theorem Property.IsNamed.bare_declaration {p : Property} (h : p.IsNamed) :
    bare p.declaration.toList = p.declaration.toList := by
  obtain ⟨c, rest, hname, hc⟩ := h
  simp [declaration, bare, hname, isBlank_of_isWord hc]

private theorem bare_docComment (text : String) : bare (docComment text).toList =
    (docComment text).toList := by
  simp [docComment, bare, isBlank]

private theorem Decorator.bare_line (d : Decorator) : bare d.line.toList = d.line.toList := by
  simp [line, bare, isBlank]

/-- The lines of a property have no margin. -/
theorem Property.IsNamed.bare_lines {p : Property} (h : p.IsNamed) :
    (p.lines.map fun line => bare line.toList) = p.lines.map String.toList := by
  refine List.map_congr_left fun line hline => ?_
  simp only [lines, List.mem_append, List.mem_singleton] at hline
  rcases hline with (hline | hline) | rfl
  · obtain ⟨doc, -, rfl⟩ := Option.map_eq_some_iff.mp (Option.mem_toList.mp hline)
    exact bare_docComment doc
  · obtain ⟨d, -, rfl⟩ := List.mem_map.mp hline
    exact d.bare_line
  · exact h.bare_declaration

private theorem getLast?_toList_append (before : String) {after : String} {c : Char}
    (h : after.toList.getLast? = some c) : (before ++ after).toList.getLast? = some c := by
  rw [String.toList_append, List.getLast?_append, h, Option.some_or]

/-- A comment ends with a slash. -/
theorem getLast?_docComment (text : String) : (docComment text).toList.getLast? = some '/' :=
  getLast?_toList_append _ (by decide)

/-- A decorator starts with its sign. -/
theorem Decorator.head?_line (d : Decorator) : d.line.toList.head? = some '@' := by
  simp [line]

private theorem Decorator.getLast?_line (d : Decorator) : d.line.toList.getLast? = some ')' :=
  getLast?_toList_append _ (by decide)

/-- A property ends with a semicolon. -/
theorem Property.getLast?_declaration (p : Property) : p.declaration.toList.getLast? = some ';' :=
  getLast?_toList_append _ (by decide)

/-- A property does not start as a decorator. -/
theorem Property.IsNamed.head?_declaration {p : Property} (h : p.IsNamed) :
    p.declaration.toList.head? ≠ some '@' := by
  obtain ⟨c, rest, hchars, hc⟩ := h
  simp only [declaration, String.toList_append, hchars, List.cons_append, List.head?_cons, ne_eq,
    Option.some.injEq]
  rintro rfl
  exact absurd hc (by decide)

/-- The name of the decorator in a line. -/
def decoratorName (line : List Char) : String :=
  String.ofList (line.tail.takeWhile (· != '('))

/-- The name of a decorator is read off its line. -/
theorem Decorator.decoratorName_line {d : Decorator} (h : '(' ∉ d.name.toList) :
    decoratorName d.line.toList = d.name := by
  have hchars : ∀ c ∈ d.name.toList, (c != '(') = true :=
    fun c hc => bne_iff_ne.mpr (ne_of_mem_of_not_mem hc h)
  simp [decoratorName, line, List.takeWhile_append_of_pos hchars]

/-- What is read off a class with one property. -/
structure ReadsProperty (text : String) (p : Property) : Prop where
  property : propertyLines text = [p.declaration]
  decorators : decoratorNames text = p.decorators.map (·.name)

/-- **The property of a class is read off the text of its file.** -/
theorem readsProperty_ofClass (imports : Imports) {name : String} {p : Property}
    (hname : IsOneLine name) (hp : AreLines p.texts) (hnamed : p.IsNamed)
    (hdecorators : ∀ d ∈ p.decorators, '(' ∉ d.name.toList) :
    ReadsProperty (SourceFile.ofClass imports { name, sections := [.properties [p]] }).text p := by
  have hc : ClassDecl.HasLines { name, sections := [.properties [p]] } := by
    refine ⟨by simp, hname, isOneLine_empty,
      List.forall_mem_singleton.mpr (Section.areLines_lines ?_)⟩
    simpa [AreLines, Section.texts] using hp
  have hsection : paragraphs [Section.lines (.properties [p])] = p.lines := rfl
  have hlines : bodyLines
      (SourceFile.ofClass imports { name, sections := [.properties [p]] }).text =
        (p.doc.map docComment).toList.map String.toList ++
          (p.decorators.map (fun d => d.line.toList) ++ [p.declaration.toList, ['\x7d'], []]) := by
    rw [bodyLines_ofClass imports rfl hc (by simp), hc.bareLines_inner, List.map_singleton,
      hsection, bareLines_of_areLines (Property.areLines_lines hp), hnamed.bare_lines]
    simp [Property.lines]
  have hdoc : ∀ line ∈ (p.doc.map docComment).toList.map String.toList,
      line.getLast? ≠ some ';' ∧ line.head? ≠ some '@' := by
    refine List.forall_mem_map.mpr fun line hline => ?_
    obtain ⟨doc, -, rfl⟩ := Option.map_eq_some_iff.mp (Option.mem_toList.mp hline)
    exact ⟨by simp [getLast?_docComment], by simp [docComment]⟩
  have hdecorated : ∀ line ∈ p.decorators.map (fun d => d.line.toList),
      line.getLast? ≠ some ';' ∧ line.head? = some '@' := by
    refine List.forall_mem_map.mpr fun d _ => ?_
    exact ⟨by simp [d.getLast?_line], d.head?_line⟩
  constructor
  · have hnone : ∀ line ∈ [['\x7d'], []], ¬ (line.getLast? == some ';') = true := by decide
    rw [propertyLines, hlines, List.filter_append, List.filter_append,
      List.filter_eq_nil_iff.mpr (by simpa using fun line hline => (hdoc line hline).1),
      List.filter_eq_nil_iff.mpr (by simpa using fun line hline => (hdecorated line hline).1),
      List.filter_cons_of_pos (by simp [p.getLast?_declaration]), List.filter_eq_nil_iff.mpr hnone]
    simp
  · have hnone : ∀ line ∈ [p.declaration.toList, ['\x7d'], []], ¬ (line.head? == some '@') = true := by
      simp [hnamed.head?_declaration]
    rw [decoratorNames, hlines, List.filter_append, List.filter_append,
      List.filter_eq_nil_iff.mpr (by simpa using fun line hline => (hdoc line hline).2),
      List.filter_eq_self.mpr (by simpa using fun line hline => (hdecorated line hline).2),
      List.filter_eq_nil_iff.mpr hnone, List.nil_append, List.append_nil, List.map_map]
    exact List.map_congr_left fun d hd => d.decoratorName_line (hdecorators d hd)

/-! ## The classes of a file and their members -/

/-- The class that a line declares. -/
def className? (line : List Char) : Option String :=
  ((afterStart? "export class ".toList line).or (afterStart? "class ".toList line)).map fun rest =>
    String.ofList (rest.takeWhile (· != ' '))

/-- The member that a line of a body declares as always set, with the name of its type. -/
def member? (line : List Char) : Option (String × String) :=
  if line.head? = some ' ' ∧ line.getLast? = some ';' then
    (afterStart? "!: ".toList ((bare line).dropWhile (· != '!'))).map fun type =>
      (String.ofList ((bare line).takeWhile (· != '!')),
        String.ofList (type.takeWhile fun c => c != ' ' && c != ';'))
  else none

/-- What is read off some lines. -/
def readings {α : Type} (read : List Char → Option α) (lines : List String) : List α :=
  lines.filterMap fun line => read line.toList

/-- The classes that a text declares. -/
def classNames (text : String) : List String :=
  (splitNewlines text.toList).filterMap className?

/-- The members that a text declares as always set. -/
def members (text : String) : List (String × String) :=
  (splitNewlines text.toList).filterMap member?

section Readings

variable {α : Type} {read : List Char → Option α}

private theorem readings_append (first second : List String) :
    readings read (first ++ second) = readings read first ++ readings read second :=
  List.filterMap_append

private theorem readings_of_forall_eq_none {lines : List String}
    (h : ∀ line ∈ lines, read line.toList = none) : readings read lines = [] :=
  List.filterMap_eq_nil_iff.mpr h

/-- What is read off paragraphs is read off each of them. -/
theorem readings_paragraphs (hempty : read [] = none) (ps : List (List String)) :
    readings read (paragraphs ps) = ps.flatMap (readings read) := by
  fun_induction paragraphs ps with
  | case1 => simp [readings, hempty]
  | case2 p => simp
  | case3 p ps hne ih =>
    rw [readings_append, List.flatMap_cons, ← ih]
    simp [readings, hempty]

/-- What is read off a file whose imports say nothing is read off its groups. -/
theorem filterMap_splitNewlines_text {f : SourceFile} (hlines : AreLines f.lines)
    (hempty : read [] = none) (himports : ∀ i ∈ f.imports.entries, read i.line.toList = none) :
    (splitNewlines f.text.toList).filterMap read =
      f.groups.flatMap fun g => readings read g.lines := by
  have himportLines : readings read f.imports.lines = [] :=
    readings_of_forall_eq_none
      (List.forall_mem_map.mpr fun i hi => himports i (List.mem_filter.mp hi).1)
  have hheader : (if f.imports.lines.isEmpty then [] else [f.imports.lines]).flatMap
      (readings read) = [] := by
    split <;> simp [himportLines]
  rw [SourceFile.splitNewlines_text hlines, List.filterMap_append, List.filterMap_map]
  have hfile := readings_paragraphs hempty
    ((if f.imports.lines.isEmpty then [] else [f.imports.lines]) ++ f.groups.map Group.lines)
  rw [List.flatMap_append, hheader, List.nil_append, List.flatMap_map] at hfile
  rw [← hfile, List.filterMap_cons, hempty, List.filterMap_nil, List.append_nil]
  rfl

end Readings

/-- A line that starts with another character declares no class. -/
theorem className?_of_head {line : List Char}
    (h : line.head? ≠ some 'e' ∧ line.head? ≠ some 'c') : className? line = none := by
  have hpiece {piece : List Char} (hpiece : ∀ c ∈ piece.head?, line.head? ≠ some c)
      (hne : piece ≠ []) : afterStart? piece line = none := by
    by_contra hstart
    obtain ⟨rest, hrest⟩ := Option.ne_none_iff_exists'.mp hstart
    cases piece with
    | nil => exact hne rfl
    | cons c piece =>
      refine hpiece c rfl ?_
      rw [append_of_afterStart? hrest]
      rfl
  rw [className?, hpiece (by simpa using h.1) (by decide), hpiece (by simpa using h.2) (by decide)]
  rfl

/-- A line at the margin declares no member. -/
theorem member?_of_head {line : List Char} (h : line.head? ≠ some ' ') : member? line = none := by
  rw [member?, if_neg fun hline => h hline.1]

/-- A line that does not end a declaration declares no member. -/
theorem member?_of_getLast {line : List Char} (h : line.getLast? ≠ some ';') :
    member? line = none := by
  rw [member?, if_neg fun hline => h hline.2]

/-- The name of a class can be told from what follows it. -/
structure ClassDecl.IsNamed (c : ClassDecl) : Prop where
  name : ' ' ∉ c.name.toList
  heritage : ∀ ch ∈ c.heritage.toList.head?, ch = ' '

private theorem ClassDecl.IsNamed.className?_opening {c : ClassDecl} (h : c.IsNamed)
    (after : String) : className? (c.opening ++ after).toList = some c.name := by
  have hname : ∀ ch ∈ c.name.toList, (ch != ' ') = true :=
    fun ch hch => bne_iff_ne.mpr (ne_of_mem_of_not_mem hch h.name)
  obtain ⟨rest, hrest⟩ : ∃ rest, (c.heritage ++ " \x7b" ++ after).toList = ' ' :: rest := by
    cases hchars : c.heritage.toList with
    | nil => exact ⟨'\x7b' :: after.toList, by simp [hchars]⟩
    | cons ch chars =>
      obtain rfl := h.heritage ch (by simp [hchars])
      exact ⟨chars ++ (" \x7b" ++ after).toList, by simp [hchars]⟩
  have hopening : (c.opening ++ after).toList =
      (if c.exported then "export class " else "class ").toList ++
        (c.name.toList ++ ' ' :: rest) := by
    rw [← hrest]
    simp [opening]
  have htake : (c.name.toList ++ ' ' :: rest).takeWhile (· != ' ') = c.name.toList := by
    simp [List.takeWhile_append_of_pos hname]
  rw [hopening, className?]
  cases c.exported
  · have hexport : afterStart? "export class ".toList ("class ".toList ++
        (c.name.toList ++ ' ' :: rest)) = none := by
      simp [afterStart?]
    simp only [Bool.false_eq_true, if_false, hexport, afterStart?_append, Option.none_or,
      Option.map_some, htake, String.ofList_toList]
  · simp only [if_true, afterStart?_append, Option.some_or, Option.map_some, htake,
      String.ofList_toList]

/-- The name of a class is read off its lines. -/
theorem ClassDecl.IsNamed.classNames_lines {c : ClassDecl} (h : c.IsNamed) :
    readings className? c.lines = [c.name] := by
  have hdecorators : readings className? (c.decorators.map Decorator.line) = [] :=
    readings_of_forall_eq_none
      (List.forall_mem_map.mpr fun d _ => className?_of_head (by simp [Decorator.line]))
  by_cases hempty : c.sections = []
  · rw [lines, if_pos (by simpa using hempty), readings_append, hdecorators, List.nil_append,
      readings, List.filterMap_cons, h.className?_opening]
    rfl
  · have hinner : readings className? c.inner = [] := by
      refine readings_of_forall_eq_none (List.forall_mem_map.mpr fun line _ =>
        className?_of_head ⟨fun hhead => ?_, fun hhead => ?_⟩)
      · exact absurd (head?_indentLine line _ hhead) (by decide)
      · exact absurd (head?_indentLine line _ hhead) (by decide)
    have hopening := h.className?_opening ""
    rw [String.append_empty] at hopening
    rw [lines_eq hempty, readings_append, readings_append, hdecorators, List.nil_append,
      ← List.singleton_append, readings_append, hinner, List.append_nil]
    simp [readings, hopening, className?_of_head]

/-- Only what stands between the braces of a class declares members. -/
theorem ClassDecl.members_lines (c : ClassDecl) :
    readings member? c.lines = if c.sections = [] then [] else readings member? c.inner := by
  have hdecorators : readings member? (c.decorators.map Decorator.line) = [] :=
    readings_of_forall_eq_none
      (List.forall_mem_map.mpr fun d _ => member?_of_head (by simp [Decorator.line]))
  have hopening (after : String) : member? (c.opening ++ after).toList = none := by
    refine member?_of_head ?_
    unfold opening
    cases c.exported <;> simp
  have hplain := hopening ""
  rw [String.append_empty] at hplain
  split
  · rename_i hempty
    rw [lines, if_pos (by simpa using hempty), readings_append, hdecorators, List.nil_append,
      readings, List.filterMap_cons, hopening]
    rfl
  · rename_i hne
    rw [lines_eq hne, readings_append, readings_append, hdecorators, List.nil_append,
      ← List.singleton_append, readings_append]
    have hclosing : member? ['\x7d'] = none := by decide
    simp [readings, hplain, hclosing]

/-- The members of a class with properties are those of each property. -/
theorem ClassDecl.members_inner {c : ClassDecl} {ps : List Property}
    (h : c.sections = [.properties ps]) :
    readings member? c.inner =
      ps.flatMap fun p => readings member? (p.lines.map (indentLine step)) := by
  have hread (lines : List String) : readings member? (lines.map (indentLine step)) =
      readings (fun cs => member? (indentLine step (String.ofList cs)).toList) lines := by
    simp [readings, List.filterMap_map]
  have hparagraphs : paragraphs (c.sections.map Section.lines) =
      paragraphs (ps.map Property.lines) := by
    rw [h]
    rfl
  rw [inner, hparagraphs, hread, readings_paragraphs (by decide), List.flatMap_map]
  simp only [hread]

private theorem getLast?_indentLine {line : String} {c : Char} (h : line.toList.getLast? = some c) :
    (indentLine step line).toList.getLast? = some c := by
  unfold indentLine
  split
  · exact h
  · exact getLast?_toList_append _ h

/-- Only the declaration of a property can declare a member. -/
theorem Property.members_lines (p : Property) :
    readings member? (p.lines.map (indentLine step)) =
      (member? (indentLine step p.declaration).toList).toList := by
  have hheading : readings member? (((p.doc.map docComment).toList ++
      p.decorators.map Decorator.line).map (indentLine step)) = [] := by
    refine readings_of_forall_eq_none (List.forall_mem_map.mpr fun line hline => ?_)
    rcases List.mem_append.mp hline with hline | hline
    · obtain ⟨doc, -, rfl⟩ := Option.map_eq_some_iff.mp (Option.mem_toList.mp hline)
      exact member?_of_getLast (by simp [getLast?_indentLine (getLast?_docComment doc)])
    · obtain ⟨d, -, rfl⟩ := List.mem_map.mp hline
      exact member?_of_getLast (by simp [getLast?_indentLine d.getLast?_line])
  rw [lines, List.map_append, readings_append, hheading, List.nil_append, readings,
    List.map_singleton]
  cases hmember : member? (indentLine step p.declaration).toList <;> simp [hmember]

/-- In a body the declaration of a property stands one step to the right. -/
theorem Property.IsNamed.indentLine_declaration {p : Property} (h : p.IsNamed) :
    indentLine step p.declaration = step ++ p.declaration := by
  obtain ⟨c, rest, hname, hc⟩ := h
  have hblank : isBlankText p.declaration = false := by
    simp [isBlankText, declaration, hname, isBlank_of_isWord hc]
  rw [indentLine, if_neg (by simp [hblank])]

/-- A property that may be missing is no member that is always set. -/
theorem Property.IsNamed.member?_unmarked {p : Property} (h : p.IsNamed)
    (hmark : '!' ∉ p.declaration.toList) :
    member? (indentLine step p.declaration).toList = none := by
  have hdrop : p.declaration.toList.dropWhile (· != '!') = [] := by
    refine List.dropWhile_eq_nil_iff.mpr fun c hc => bne_iff_ne.mpr ?_
    exact ne_of_mem_of_not_mem hc hmark
  have hbare : bare (step ++ p.declaration).toList = p.declaration.toList := by
    rw [← h.indentLine_declaration, bare_indentLine, h.bare_declaration]
  rw [h.indentLine_declaration, member?, hbare, hdrop]
  simp [afterStart?]

/-- **A member is read off its declaration**, with the name of its type. -/
theorem Property.IsNamed.member?_marked {p : Property} {type after : String} (h : p.IsNamed)
    (hname : '!' ∉ p.name.toList) (hmark : p.mark = "!") (hp : p.type = type ++ after)
    (htype : ∀ c ∈ type.toList, c ≠ ' ' ∧ c ≠ ';') (hafter : ∀ c ∈ after.toList.head?, c = ' ') :
    member? (indentLine step p.declaration).toList = some (p.name, type) := by
  have hbare : bare (step ++ p.declaration).toList = p.declaration.toList := by
    rw [← h.indentLine_declaration, bare_indentLine, h.bare_declaration]
  have hdeclaration : p.declaration.toList =
      p.name.toList ++ '!' :: (": ".toList ++ (type.toList ++ (after.toList ++ [';']))) := by
    simp [declaration, hmark, hp]
  have hlast : (step ++ p.declaration).toList.getLast? = some ';' :=
    getLast?_toList_append _ p.getLast?_declaration
  have hchars : ∀ c ∈ p.name.toList, (c != '!') = true :=
    fun c hc => bne_iff_ne.mpr (ne_of_mem_of_not_mem hc hname)
  have htypeChars : ∀ c ∈ type.toList, (c != ' ' && c != ';') = true :=
    fun c hc => by simpa using htype c hc
  have hstops : Stops (fun c => c != ' ' && c != ';') (after.toList ++ [';']) := by
    cases hcs : after.toList with
    | nil => simp
    | cons c cs =>
      obtain rfl := hafter c (by simp [hcs])
      simp
  have hmarkStops (rest : List Char) : Stops (· != '!') ('!' :: rest) := by simp
  have hfollows (rest : List Char) :
      afterStart? "!: ".toList ('!' :: (": ".toList ++ rest)) = some rest := by
    simp [afterStart?]
  rw [h.indentLine_declaration, member?, if_pos ⟨by simp [step], hlast⟩, hbare, hdeclaration,
    dropWhile_append_stops hchars (hmarkStops _), takeWhile_append_stops hchars (hmarkStops _),
    hfollows, Option.map_some, takeWhile_append_stops htypeChars hstops, String.ofList_toList,
    String.ofList_toList]

/-! ## Groups and files -/

/-- A group of classes. -/
def Group.HasClasses (g : Group) (cs : List ClassDecl) : Prop :=
  g.declarations = cs.map .class_

section Groups

variable {g : Group} {cs : List ClassDecl}

private theorem Group.HasClasses.lines_eq (h : g.HasClasses cs) :
    g.lines = (g.doc.map docComment).toList ++ cs.flatMap ClassDecl.lines := by
  rw [lines, h, List.flatMap_map]
  rfl

/-- A group of classes consists of lines. -/
theorem Group.HasClasses.areLines_lines (h : g.HasClasses cs) (hdoc : ∀ doc ∈ g.doc, IsOneLine doc)
    (hcs : ∀ c ∈ cs, c.HasLines) : AreLines g.lines := by
  intro line hline
  rw [h.lines_eq] at hline
  rcases List.mem_append.mp hline with hline | hline
  · obtain ⟨doc, hmem, rfl⟩ := Option.map_eq_some_iff.mp (Option.mem_toList.mp hline)
    exact isOneLine_docComment (hdoc doc hmem)
  · obtain ⟨c, hc, hline⟩ := List.mem_flatMap.mp hline
    exact (hcs c hc).areLines_lines line hline

private theorem readings_flatMap {α β : Type} {read : List Char → Option α} (items : List β)
    (lines : β → List String) :
    readings read (items.flatMap lines) = items.flatMap fun item => readings read (lines item) := by
  induction items with
  | nil => rfl
  | cons item items ih => rw [List.flatMap_cons, readings_append, ih, List.flatMap_cons]

/-- What a group tells is told by its classes, if the comment above it tells nothing. -/
theorem Group.HasClasses.readings_lines {α : Type} {read : List Char → Option α}
    (h : g.HasClasses cs) (hdoc : ∀ text, read (docComment text).toList = none) :
    readings read g.lines = cs.flatMap fun c => readings read c.lines := by
  have hcomment : readings read (g.doc.map docComment).toList = [] := by
    cases g.doc <;> simp [readings, hdoc]
  rw [h.lines_eq, readings_append, hcomment, List.nil_append, readings_flatMap]

end Groups

/-- The lines of a file are one line each if those of its imports and groups are. -/
theorem SourceFile.areLines_lines {f : SourceFile}
    (himports : ∀ i ∈ f.imports.entries, IsOneLine i.line)
    (hgroups : ∀ g ∈ f.groups, AreLines g.lines) : AreLines f.lines := by
  refine areLines_paragraphs (List.forall_mem_append.mpr ⟨?_, List.forall_mem_map.mpr hgroups⟩)
  split
  · simp
  · exact List.forall_mem_singleton.mpr
      (List.forall_mem_map.mpr fun i hi => himports i (List.mem_filter.mp hi).1)

private theorem Import.head?_line (i : Import) : i.line.toList.head? = some 'i' := by
  simp [line]

section Files

variable (f : SourceFile) (himports : ∀ i ∈ f.imports.entries, IsOneLine i.line)
  (hgroups : ∀ g ∈ f.groups, AreLines g.lines)
include himports hgroups

/-- **The classes of a file are read off its text**, group by group. -/
theorem SourceFile.classNames_text :
    classNames f.text = f.groups.flatMap fun g => readings className? g.lines :=
  filterMap_splitNewlines_text (areLines_lines himports hgroups) (by decide) fun i _ =>
    className?_of_head (by simp [i.head?_line])

/-- **The members of the classes of a file are read off its text**, group by group. -/
theorem SourceFile.members_text :
    members f.text = f.groups.flatMap fun g => readings member? g.lines :=
  filterMap_splitNewlines_text (areLines_lines himports hgroups) (by decide) fun i _ =>
    member?_of_head (by simp [i.head?_line])

end Files

/-- The class of a file with one class is read off its text. -/
theorem classNames_ofClass {imports : Imports} {c : ClassDecl}
    (himports : ∀ i ∈ imports.entries, IsOneLine i.line) (hc : c.HasLines) (hnamed : c.IsNamed) :
    classNames (SourceFile.ofClass imports c).text = [c.name] := by
  have hgroup : Group.HasClasses { declarations := [.class_ c] } [c] := rfl
  have hlines : ∀ g ∈ (SourceFile.ofClass imports c).groups, AreLines g.lines :=
    List.forall_mem_singleton.mpr
      (hgroup.areLines_lines (by simp) (List.forall_mem_singleton.mpr hc))
  rw [SourceFile.classNames_text _ himports hlines, SourceFile.ofClass, List.flatMap_singleton,
    hgroup.readings_lines fun text => className?_of_head (by simp [docComment]),
    List.flatMap_singleton, hnamed.classNames_lines]

/-! ## Imports -/

/-- The imports that are read off a text. -/
def importsIn (text : String) : List Import :=
  (splitNewlines text.toList).filterMap Import.ofLine?

/-- An import of a file that takes each name once is read off its text. -/
theorem mem_importsIn_text (f : SourceFile) {i : Import} (hi : i ∈ f.imports.entries)
    (hread : i.IsReadable) (hone : IsOneLine i.line)
    (honce : firstOccurrences i.names = i.names) : i ∈ importsIn f.text := by
  have himports : i.line ∈ f.imports.lines :=
    List.mem_map_of_mem (List.mem_filter.mpr ⟨hi, by simpa using hread.names_ne_nil⟩)
  have hheader : f.imports.lines ∈
      (if f.imports.lines.isEmpty then [] else [f.imports.lines]) := by
    rw [if_neg (by simpa using List.ne_nil_of_mem himports)]
    exact List.mem_singleton_self _
  have hline : i.line ∈ f.lines := mem_paragraphs (List.mem_append_left _ hheader) himports
  refine List.mem_filterMap.mpr ⟨i.line.toList, ?_, by rw [Import.ofLine?_line hread, honce]⟩
  refine SourceFile.mem_splitNewlines_text.mpr (.inr ⟨i.line, hline, ?_⟩)
  rw [splitNewlines_of_isOneLine hone]
  exact List.mem_singleton_self _

/-- The names that a text imports from an origin. -/
def namesFrom (text origin : String) : List String :=
  ((importsIn text).filter (·.origin == origin)).flatMap (·.names)

/-- All names that a text imports. -/
def importedNames (text : String) : List String :=
  (importsIn text).flatMap (·.names)

/-- No import is read off a line that is not one. -/
theorem Import.ofLine?_of_not_isImportLine {line : List Char} (h : ¬ IsImportLine line) :
    Import.ofLine? line = none := by
  have hstart : afterStart? "import \x7b ".toList line = none := by
    by_contra hsome
    obtain ⟨rest, hrest⟩ := Option.ne_none_iff_exists'.mp hsome
    exact h ⟨" \x7b ".toList ++ rest, (append_of_afterStart? hrest).symm⟩
  rw [ofLine?, hstart]
  rfl

/-- **The imports of a class are read off the text of its file**, each name once. -/
theorem importsIn_ofClass {imports : Imports} {c : ClassDecl} (hc : c.IsPlain)
    (hdecorators : c.decorators = [])
    (himports : ∀ i ∈ imports.entries, i.IsReadable ∧ IsOneLine i.line) :
    importsIn (SourceFile.ofClass imports c).text =
      imports.entries.map fun i => ⟨i.origin, firstOccurrences i.names⟩ := by
  have hlines : AreLines c.lines := (hc.hasLines hdecorators).areLines_lines
  have hclass : readings Import.ofLine? c.lines = [] := by
    refine readings_of_forall_eq_none fun line hline =>
      Import.ofLine?_of_not_isImportLine (hc.noImport line hline line.toList ?_)
    rw [splitNewlines_of_isOneLine (hlines line hline)]
    exact List.mem_singleton_self _
  have hentries : imports.lines = imports.entries.map Import.line := by
    rw [Imports.lines, List.filter_eq_self.mpr]
    exact fun i hi => by simpa using (himports i hi).1.names_ne_nil
  have hread : readings Import.ofLine? imports.lines =
      imports.entries.map fun i => ⟨i.origin, firstOccurrences i.names⟩ := by
    rw [hentries, readings, List.filterMap_map, ← List.filterMap_eq_map]
    exact List.filterMap_congr fun i hi => Import.ofLine?_line (himports i hi).1
  have hempty : Import.ofLine? [] = none := by decide
  have hfile : AreLines (SourceFile.ofClass imports c).lines := by
    rw [SourceFile.lines_ofClass]
    split
    · exact hlines
    · refine List.forall_mem_append.mpr ⟨?_, List.forall_mem_cons.mpr ⟨isOneLine_empty, hlines⟩⟩
      rw [hentries]
      exact List.forall_mem_map.mpr fun i hi => (himports i hi).2
  have hall : readings Import.ofLine? (SourceFile.ofClass imports c).lines =
      readings Import.ofLine? imports.lines := by
    rw [SourceFile.lines_ofClass]
    split
    · rename_i hnone
      rw [hclass, List.isEmpty_iff.mp hnone]
      rfl
    · rw [readings_append, ← List.singleton_append, readings_append, hclass]
      simp [readings, hempty]
  rw [importsIn, SourceFile.splitNewlines_text hfile, List.filterMap_append, List.filterMap_map,
    List.filterMap_cons, hempty, List.filterMap_nil, List.append_nil, ← hread, ← hall]
  rfl

end NestLayers.TypeScript
