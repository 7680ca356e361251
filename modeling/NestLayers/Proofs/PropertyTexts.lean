import Mathlib.Data.List.Basic
import NestLayers.Proofs.ContractTexts

/-!
# Reading properties off a text

A property is read off the lines of a class without knowing how they were made: it is declared by a
line that starts with its name and ends with a semicolon, and the decorators in the lines above it
are its own. Read in this way, the text of a class has the properties of the class, in order,
whatever its comments and the arguments of its decorators say.
-/

namespace NestLayers.TypeScript

open NestLayers.Text

/-- A property as it is read: its decorators, its name, the mark behind the name, and its type. -/
structure PropertyText where
  decorators : List String
  name : String
  mark : String
  type : String
  deriving DecidableEq, Repr

/-- The property that a line without a margin declares, with the decorators above it. -/
def PropertyText.ofLine? (decorators : List String) (line : List Char) : Option PropertyText :=
  if line.getLast? = some ';' then
    let afterName := line.dropWhile isWord
    (afterStart? ": ".toList (afterName.dropWhile (· != ':'))).map fun type =>
      { decorators
        name := String.ofList (line.takeWhile isWord)
        mark := String.ofList (afterName.takeWhile (· != ':'))
        type := String.ofList type.dropLast }
  else none

/-- The properties in some lines without margins. The decorators in `held` belong to the first. -/
def propertiesIn (held : List String) : List (List Char) → List PropertyText
  | [] => []
  | line :: rest =>
    if line.head? = some '@' then propertiesIn (held ++ [decoratorName line]) rest
    else
      match PropertyText.ofLine? held line with
      | some p => p :: propertiesIn [] rest
      | none => propertiesIn held rest

/-- The properties of the last exported class of a text. -/
def propertiesOf (text : String) : List PropertyText :=
  propertiesIn [] (bodyLines text)

/-- How a property is read. -/
def Property.reading (p : Property) : PropertyText :=
  ⟨p.decorators.map (·.name), p.name, p.mark, p.type⟩

/-- A property whose text can be read. -/
structure Property.IsReadable (p : Property) : Prop where
  texts : AreLines p.texts
  name : FieldLine.IsName p.name.toList
  mark : p.mark ∈ ["", "!", "?"]
  decorators : ∀ d ∈ p.decorators, '(' ∉ d.name.toList

/-! ## One property -/

/-- A line that starts no decorator and ends no declaration is passed over. -/
theorem propertiesIn_of_ne (held : List String) {line : List Char} (hhead : line.head? ≠ some '@')
    (hlast : line.getLast? ≠ some ';') (rest : List (List Char)) :
    propertiesIn held (line :: rest) = propertiesIn held rest := by
  rw [propertiesIn, if_neg hhead, PropertyText.ofLine?, if_neg hlast]

/-- Decorators are held for the declaration that follows them. -/
theorem propertiesIn_decorators (held : List String) {decorators : List Decorator}
    (h : ∀ d ∈ decorators, '(' ∉ d.name.toList) (rest : List (List Char)) :
    propertiesIn held (decorators.map (fun d => d.line.toList) ++ rest) =
      propertiesIn (held ++ decorators.map (·.name)) rest := by
  induction decorators generalizing held with
  | nil => simp
  | cons d decorators ih =>
    obtain ⟨hd, hrest⟩ := List.forall_mem_cons.mp h
    rw [List.map_cons, List.cons_append, propertiesIn, if_pos d.head?_line,
      d.decoratorName_line hd, ih _ hrest, List.map_cons, List.append_assoc,
      List.singleton_append]

namespace Property.IsReadable

variable {p : Property}

private theorem isNamed (h : p.IsReadable) : p.IsNamed :=
  isNamed_of_isName h.name

/-- The parts of a property are read off its declaration. -/
theorem ofLine?_declaration (h : p.IsReadable) (held : List String) :
    PropertyText.ofLine? held p.declaration.toList = some ⟨held, p.name, p.mark, p.type⟩ := by
  have hdeclaration : p.declaration.toList =
      p.name.toList ++ (p.mark.toList ++ (": ".toList ++ (p.type.toList ++ [';']))) := by
    simp [declaration]
  have hname : ∀ c ∈ p.name.toList, isWord c = true := h.name.isWord
  have hmarks : ∀ mark ∈ ["", "!", "?"],
      Stops isWord (mark.toList ++ [':']) ∧ mark.toList.all (· != ':') = true := by
    decide
  obtain ⟨hstop, hcolon⟩ := hmarks p.mark h.mark
  have hmark : ∀ c ∈ p.mark.toList, (c != ':') = true := List.all_eq_true.mp hcolon
  have hnameStops : Stops isWord
      (p.mark.toList ++ (": ".toList ++ (p.type.toList ++ [';']))) := by
    intro c hc
    exact hstop c (by simpa using hc)
  have hmarkStops : Stops (· != ':') (": ".toList ++ (p.type.toList ++ [';'])) := by simp
  rw [PropertyText.ofLine?, if_pos p.getLast?_declaration, hdeclaration]
  simp only [dropWhile_append_stops hname hnameStops, takeWhile_append_stops hname hnameStops,
    dropWhile_append_stops hmark hmarkStops, takeWhile_append_stops hmark hmarkStops,
    afterStart?_append, Option.map_some, List.dropLast_concat, String.ofList_toList]

/-- **A property is read off its lines.** -/
theorem propertiesIn_lines (h : p.IsReadable) (rest : List (List Char)) :
    propertiesIn [] (bareLines p.lines ++ rest) = p.reading :: propertiesIn [] rest := by
  have hdoc : propertiesIn [] ((p.doc.map docComment).toList.map String.toList ++
      (p.decorators.map (fun d => d.line.toList) ++ p.declaration.toList :: rest)) =
        propertiesIn [] (p.decorators.map (fun d => d.line.toList) ++ p.declaration.toList :: rest) := by
    cases p.doc with
    | none => rfl
    | some doc =>
      exact propertiesIn_of_ne [] (by simp [docComment]) (by simp [getLast?_docComment]) _
  have hlines : bareLines p.lines ++ rest = (p.doc.map docComment).toList.map String.toList ++
      (p.decorators.map (fun d => d.line.toList) ++ p.declaration.toList :: rest) := by
    rw [bareLines_of_areLines (Property.areLines_lines h.texts), h.isNamed.bare_lines]
    simp [lines]
  rw [hlines, hdoc, propertiesIn_decorators [] h.decorators, propertiesIn,
    if_neg h.isNamed.head?_declaration, h.ofLine?_declaration]
  rfl

end Property.IsReadable

/-! ## The properties of a class -/

/-- Properties are read off their lines, one after the other. -/
theorem propertiesIn_paragraphs {ps : List Property} (h : ∀ p ∈ ps, p.IsReadable)
    (rest : List (List Char)) :
    propertiesIn [] (bareLines (paragraphs (ps.map Property.lines)) ++ rest) =
      ps.map Property.reading ++ propertiesIn [] rest := by
  have hblank (lines : List (List Char)) :
      propertiesIn [] (bareLines [""] ++ lines) = propertiesIn [] lines := by
    have hbare : bareLines [""] = [[]] := by decide
    rw [hbare]
    exact propertiesIn_of_ne [] (by simp) (by simp) lines
  induction ps with
  | nil => exact hblank rest
  | cons p ps ih =>
    obtain ⟨hp, hps⟩ := List.forall_mem_cons.mp h
    cases ps with
    | nil => exact hp.propertiesIn_lines rest
    | cons next ps =>
      have hparagraphs : paragraphs ((p :: next :: ps).map Property.lines) =
          p.lines ++ ([""] ++ paragraphs ((next :: ps).map Property.lines)) := rfl
      rw [hparagraphs, bareLines_append, bareLines_append, List.append_assoc, List.append_assoc,
        hp.propertiesIn_lines, hblank, ih hps]
      rfl

/-- Nothing stands behind the line of a class without sections. -/
theorem bodyLines_ofClass_of_sections_eq_nil (imports : Imports) {c : ClassDecl}
    (hexported : c.exported = true) (hname : IsOneLine c.name) (hheritage : IsOneLine c.heritage)
    (hempty : c.sections = []) : bodyLines (SourceFile.ofClass imports c).text = [[]] := by
  obtain ⟨above, habove⟩ : ∃ above, (SourceFile.ofClass imports c).lines =
      above ++ [c.opening ++ "\x7d"] := by
    have hlines : c.lines = c.decorators.map Decorator.line ++ [c.opening ++ "\x7d"] := by
      rw [ClassDecl.lines, if_pos (by simpa using hempty)]
    rw [SourceFile.lines_ofClass, hlines]
    split
    · exact ⟨c.decorators.map Decorator.line, rfl⟩
    · exact ⟨imports.lines ++ "" :: c.decorators.map Decorator.line, by simp⟩
  have hclass : isClassLine (c.opening ++ "\x7d").toList = true := by
    rw [isClassLine, List.isPrefixOf_iff_prefix]
    simp [ClassDecl.opening, hexported]
  have hone : IsOneLine (c.opening ++ "\x7d") :=
    isOneLine_append.mpr ⟨ClassDecl.isOneLine_opening hname hheritage, by decide⟩
  have hend : isClassLine [] = false := by decide
  rw [bodyLines, SourceFile.text, splitNewlines_joinLines (by simp), habove]
  simp only [List.append_assoc, List.flatMap_append, List.flatMap_cons,
    List.flatMap_nil, splitNewlines_of_isOneLine hone, String.toList_empty, splitNewlines,
    List.reverse_append, List.reverse_cons, List.reverse_nil, List.nil_append, List.cons_append,
    List.takeWhile_cons, hclass, hend, Bool.not_true, Bool.not_false]
  rfl

/-- **The properties of a class are read off the text of its file**, whatever its imports are. -/
theorem propertiesOf_ofClass (imports : Imports) {c : ClassDecl} {ps : List Property}
    (hexported : c.exported = true) (hc : c.HasLines)
    (hsections : c.sections = [.properties ps] ∨ c.sections = [] ∧ ps = [])
    (hps : ∀ p ∈ ps, p.IsReadable) :
    propertiesOf (SourceFile.ofClass imports c).text = ps.map Property.reading := by
  have hrest : propertiesIn [] [['\x7d'], []] = [] := by decide
  rcases hsections with hsections | ⟨hempty, rfl⟩
  · rw [propertiesOf, bodyLines_ofClass imports hexported hc (by simp [hsections]),
      hc.bareLines_inner, hsections]
    have hread := propertiesIn_paragraphs hps [['\x7d'], []]
    rw [hrest, List.append_nil] at hread
    exact hread
  · rw [propertiesOf,
      bodyLines_ofClass_of_sections_eq_nil imports hexported hc.name hc.heritage hempty]
    decide

end NestLayers.TypeScript

namespace NestLayers.Layer.Model

open NestLayers.Text NestLayers.TypeScript

/-- The text of a property of a model can be read. -/
theorem isReadable_property {f : Field} (hf : f.IsPlain) : (property f).IsReadable :=
  ⟨areLines_property hf, hf.name, by simp [property], by simp [property]⟩

/-- **The fields that a model declares are read off the text of its file**: they are those that are
not left out. -/
theorem propertiesOf_source (conventions : Conventions) {d : Definition} (hd : d.IsPlain) :
    propertiesOf (source conventions d).artifact.content =
      (d.fields.filter (!conventions.excluded.contains ·.name)).map fun f =>
        (property f).reading := by
  have hfields : ∀ p ∈ (d.fields.filter (!conventions.excluded.contains ·.name)).map property,
      p.IsReadable := by
    refine List.forall_mem_map.mpr fun f hf => isReadable_property (hd.fields f ?_)
    exact (List.mem_filter.mp hf).1
  have hname : IsOneLine (Conventions.modelClass d.name) :=
    isOneLine_append.mpr ⟨isOneLine_of_isWord hd.name.2, by decide⟩
  have hlines : (classOf conventions d).HasLines := by
    refine ⟨by simp [classOf], hname, isOneLine_empty, List.forall_mem_singleton.mpr ?_⟩
    refine Section.areLines_lines fun text htext => ?_
    obtain ⟨p, hp, htext⟩ := List.mem_flatMap.mp htext
    exact (hfields p hp).texts text htext
  have hread := propertiesOf_ofClass
    (Imports.ofList
      [("@prisma/client", ["$Enums", "Prisma"]), ("@nestjs/swagger", ["ApiProperty"])])
    rfl hlines (.inl rfl) hfields
  rw [List.map_map] at hread
  exact hread

/-- A model declares a field exactly if its name is not excluded. -/
theorem mem_properties_iff (conventions : Conventions) {d : Definition}
    (hd : d.IsPlain) {f : Field} (hf : f ∈ d.fields) :
    f.name ∈ (propertiesOf (source conventions d).artifact.content).map (·.name) ↔
      f.name ∉ conventions.excluded := by
  rw [propertiesOf_source conventions hd, List.map_map, List.mem_map]
  constructor
  · rintro ⟨other, hother, hname⟩
    have hname : other.name = f.name := hname
    rw [← hname]
    simpa using (List.mem_filter.mp hother).2
  · intro hincluded
    exact ⟨f, List.mem_filter.mpr ⟨hf, by simpa using hincluded⟩, rfl⟩

end NestLayers.Layer.Model
