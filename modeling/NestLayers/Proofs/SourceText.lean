import NestLayers.Proofs.ImportLines
import NestLayers.TypeScript.SourceFile

/-!
# The lines of source files

What can be read off the text of a source file. A file is plain if nothing in its declarations
ends a line or starts one with an import. The lines of a plain file that start with an import are
the lines of its imports, and each of its exported names stands in a line of its own.
-/

namespace NestLayers.Text

/-- Splitting at line feeds is the library's splitting of a list. -/
theorem splitNewlines_eq_splitOn (cs : List Char) : splitNewlines cs = cs.splitOn '\n' := by
  induction cs with
  | nil => rfl
  | cons c cs ih =>
    have hne := List.splitOnP_ne_nil (· == '\n') cs
    simp only [List.splitOn] at ih ⊢
    rw [splitNewlines, ih, List.splitOnP_cons_eq_if_modifyHead]
    by_cases hc : c = '\n'
    · simp [hc]
    · cases h : cs.splitOnP (· == '\n') with
      | nil => exact absurd h hne
      | cons line lines => simp [hc, consLine]

/-- A text without a line feed is one piece. -/
theorem splitNewlines_of_isOneLine {s : String} (h : IsOneLine s) :
    splitNewlines s.toList = [s.toList] := by
  rw [splitNewlines_eq_splitOn, List.splitOn]
  refine List.splitOnP_eq_singleton fun c hc => ?_
  rw [beq_eq_false_iff_ne]
  rintro rfl
  exact h hc

/-- The pieces of joined texts are the pieces of the texts. -/
theorem splitNewlines_joinLines {lines : List String} (hne : lines ≠ []) :
    splitNewlines (joinLines lines).toList = lines.flatMap fun line => splitNewlines line.toList := by
  induction lines with
  | nil => exact absurd rfl hne
  | cons line lines ih =>
    cases lines with
    | nil => simp [joinLines]
    | cons next lines =>
      have hjoin : (joinLines (line :: next :: lines)).toList =
          line.toList ++ '\n' :: (joinLines (next :: lines)).toList := by
        simp [joinLines]
      have hnewline : ('\n' == '\n') = true := by decide
      rw [List.flatMap_cons, ← ih (by simp), hjoin]
      simp only [splitNewlines_eq_splitOn, List.splitOn]
      exact List.splitOnP_append_cons _ _ hnewline

end NestLayers.Text

namespace NestLayers.TypeScript

open NestLayers.Text

/-- The line is an import statement. -/
def IsImportLine (line : List Char) : Prop :=
  "import".toList <+: line

/-- A line of the text declares an exported class or interface of the name. -/
def Declares (text name : String) : Prop :=
  ∃ line ∈ splitNewlines text.toList,
    ("export class " ++ name ++ " ").toList <+: line ∨
      ("export interface " ++ name ++ " ").toList <+: line

/-- No piece of the text is an import statement. -/
def NoImport (text : String) : Prop :=
  ∀ piece ∈ splitNewlines text.toList, ¬ IsImportLine piece

/-- What starts with another character is no import. -/
theorem not_isImportLine {line : List Char} (h : line.head? ≠ some 'i') : ¬ IsImportLine line := by
  rintro ⟨rest, rfl⟩
  exact h rfl

/-- A line that does not start as an import is none. -/
theorem noImport_of_head {s : String} (hs : IsOneLine s) (hhead : s.toList.head? ≠ some 'i') :
    NoImport s := by
  intro piece hpiece
  rw [splitNewlines_of_isOneLine hs] at hpiece
  obtain rfl := List.mem_singleton.mp hpiece
  exact not_isImportLine hhead

/-- Lines without an import are joined to a text without one. -/
theorem noImport_joinLines {lines : List String} (hne : lines ≠ [])
    (h : ∀ line ∈ lines, NoImport line) : NoImport (joinLines lines) := by
  intro piece hpiece
  rw [splitNewlines_joinLines hne] at hpiece
  obtain ⟨line, hline, hpiece⟩ := List.mem_flatMap.mp hpiece
  exact h line hline piece hpiece

/-- A line of a body is blank or starts with a space. -/
theorem noImport_indentLine {s : String} (hs : IsOneLine s) : NoImport (indentLine step s) := by
  unfold indentLine
  split
  · rename_i hblank
    refine noImport_of_head hs fun hhead => ?_
    have hi := List.all_eq_true.mp hblank 'i' (List.mem_of_head? hhead)
    exact absurd hi (by decide)
  · refine noImport_of_head (isOneLine_append.mpr ⟨by decide, hs⟩) ?_
    simp [step]

/-- The lines of paragraphs are those of each paragraph and empty lines. -/
theorem mem_of_mem_paragraphs {line : String} {ps : List (List String)}
    (h : line ∈ paragraphs ps) : line = "" ∨ ∃ p ∈ ps, line ∈ p := by
  fun_induction paragraphs ps with
  | case1 => exact .inl (List.mem_singleton.mp h)
  | case2 p => exact .inr ⟨p, List.mem_singleton_self p, h⟩
  | case3 p ps hne ih =>
    rcases List.mem_append.mp h with h | h
    · exact .inr ⟨p, List.mem_cons_self, h⟩
    rcases List.mem_cons.mp h with h | h
    · exact .inl h
    rcases ih h with h | ⟨q, hq, hline⟩
    · exact .inl h
    · exact .inr ⟨q, List.mem_cons_of_mem _ hq, hline⟩

/-- Every line of a paragraph is among the lines of all paragraphs. -/
theorem mem_paragraphs {line : String} {p : List String} {ps : List (List String)} (hp : p ∈ ps)
    (hline : line ∈ p) : line ∈ paragraphs ps := by
  fun_induction paragraphs ps with
  | case1 => cases hp
  | case2 q =>
    obtain rfl := List.mem_singleton.mp hp
    exact hline
  | case3 q ps hne ih =>
    rcases List.mem_cons.mp hp with rfl | hp
    · exact List.mem_append_left _ hline
    · exact List.mem_append_right _ (List.mem_cons_of_mem _ (ih hp))

/-- No line of a list of lines has a line feed in it. -/
def AreLines (lines : List String) : Prop :=
  ∀ line ∈ lines, IsOneLine line

/-- Paragraphs of lines consist of lines. -/
theorem areLines_paragraphs {ps : List (List String)} (h : ∀ p ∈ ps, AreLines p) :
    AreLines (paragraphs ps) := by
  intro line hline
  rcases mem_of_mem_paragraphs hline with rfl | ⟨p, hp, hline⟩
  · decide
  · exact h p hp line hline

/-- A class of which only the first lines stand at the margin, and no line starts an import. -/
structure ClassDecl.IsPlain (c : ClassDecl) : Prop where
  decorators : ∀ d ∈ c.decorators, NoImport d.line
  name : IsOneLine c.name
  heritage : IsOneLine c.heritage
  heritage_head : ∀ ch ∈ c.heritage.toList.head?, ch = ' '
  sections : ∀ s ∈ c.sections, AreLines s.lines

/-- The line that declares a class is one line if its name and its heritage are. -/
theorem ClassDecl.isOneLine_opening {c : ClassDecl} (hname : IsOneLine c.name)
    (hheritage : IsOneLine c.heritage) : IsOneLine c.opening := by
  have hkeyword : IsOneLine (if c.exported then "export class " else "class ") := by
    split <;> decide
  unfold opening
  exact isOneLine_append.mpr
    ⟨isOneLine_append.mpr ⟨isOneLine_append.mpr ⟨hkeyword, hname⟩, hheritage⟩, by decide⟩

private theorem ClassDecl.head?_opening (c : ClassDecl) (after : String) :
    (c.opening ++ after).toList.head? ≠ some 'i' := by
  unfold opening
  cases c.exported <;> simp

/-- A plain class has no import in it. -/
theorem ClassDecl.IsPlain.noImport {c : ClassDecl} (h : c.IsPlain) :
    ∀ line ∈ c.lines, NoImport line := by
  intro line hline
  have hclosing : NoImport "\x7d" := noImport_of_head (by decide) (by decide)
  have hopening : NoImport c.opening := by
    have hhead := c.head?_opening ""
    rw [String.append_empty] at hhead
    exact noImport_of_head (isOneLine_opening h.name h.heritage) hhead
  unfold lines at hline
  rcases List.mem_append.mp hline with hline | hline
  · obtain ⟨d, hd, rfl⟩ := List.mem_map.mp hline
    exact h.decorators d hd
  split at hline
  · obtain rfl := List.mem_singleton.mp hline
    have hline : IsOneLine (c.opening ++ "\x7d") :=
      isOneLine_append.mpr ⟨(isOneLine_opening h.name h.heritage), by decide⟩
    exact noImport_of_head hline (c.head?_opening _)
  rcases List.mem_append.mp hline with hline | hline
  · rcases List.mem_cons.mp hline with rfl | hline
    · exact hopening
    obtain ⟨bodyLine, hbody, rfl⟩ := List.mem_map.mp hline
    have hlines : AreLines (paragraphs (c.sections.map Section.lines)) := by
      refine areLines_paragraphs fun p hp => ?_
      obtain ⟨s, hs, rfl⟩ := List.mem_map.mp hp
      exact h.sections s hs
    exact noImport_indentLine (hlines bodyLine hbody)
  · obtain rfl := List.mem_singleton.mp hline
    exact hclosing

/-- A declaration with no import in it. -/
def Declaration.IsPlain : Declaration → Prop
  | .class_ c => c.IsPlain
  | .interface name base => IsOneLine name ∧ IsOneLine base

private theorem Declaration.IsPlain.noImport {d : Declaration} (h : d.IsPlain) :
    ∀ line ∈ d.lines, NoImport line := by
  cases d with
  | class_ c => exact ClassDecl.IsPlain.noImport h
  | interface name base =>
    intro line hline
    obtain rfl := List.mem_singleton.mp hline
    refine noImport_of_head ?_ (by simp)
    simp only [isOneLine_append, h.1, h.2, and_true]
    decide

/-- A group of plain declarations has no import in it. -/
theorem Group.noImport (g : Group) (hdoc : ∀ doc ∈ g.doc, IsOneLine doc)
    (hdeclarations : ∀ d ∈ g.declarations, d.IsPlain) : ∀ line ∈ g.lines, NoImport line := by
  intro line hline
  rcases List.mem_append.mp hline with hline | hline
  · obtain ⟨doc, hmem, rfl⟩ := Option.map_eq_some_iff.mp (Option.mem_toList.mp hline)
    have hdoc := hdoc doc hmem
    refine noImport_of_head ?_ ?_
    · unfold docComment
      exact isOneLine_append.mpr ⟨isOneLine_append.mpr ⟨by decide, hdoc⟩, by decide⟩
    · unfold docComment
      simp
  · obtain ⟨d, hd, hline⟩ := List.mem_flatMap.mp hline
    exact (hdeclarations d hd).noImport line hline

/-- A source file in which only the imports are import statements. -/
structure SourceFile.IsPlain (f : SourceFile) : Prop where
  imports : ∀ i ∈ f.imports.entries, IsOneLine i.line
  docs : ∀ g ∈ f.groups, ∀ doc ∈ g.doc, IsOneLine doc
  declarations : ∀ d ∈ f.declarations, d.IsPlain

namespace SourceFile.IsPlain

variable {f : SourceFile}

/-- The declarations of a plain file have no import in them. -/
theorem noImport_group (h : f.IsPlain) {g : Group} (hg : g ∈ f.groups) :
    ∀ line ∈ g.lines, NoImport line :=
  g.noImport (h.docs g hg) fun d hd => h.declarations d (List.mem_flatMap.mpr ⟨g, hg, hd⟩)

end SourceFile.IsPlain

/-- The pieces of the text of a file are the pieces of its lines, and an empty one. -/
theorem SourceFile.mem_splitNewlines_text {f : SourceFile} {piece : List Char} :
    piece ∈ splitNewlines f.text.toList ↔
      piece = [] ∨ ∃ line ∈ f.lines, piece ∈ splitNewlines line.toList := by
  rw [text, splitNewlines_joinLines (by simp), List.flatMap_append, List.mem_append,
    List.mem_flatMap, or_comm]
  simp [splitNewlines]

/-- A line that starts with an import is part of the line of an import, if the groups have none. -/
theorem SourceFile.exists_entry {f : SourceFile}
    (h : ∀ g ∈ f.groups, ∀ line ∈ g.lines, NoImport line) {piece : List Char}
    (hpiece : piece ∈ splitNewlines f.text.toList) (himport : IsImportLine piece) :
    ∃ i ∈ f.imports.entries, i.names ≠ [] ∧ piece ∈ splitNewlines i.line.toList := by
  rcases mem_splitNewlines_text.mp hpiece with rfl | ⟨line, hline, hpiece⟩
  · exact absurd himport (not_isImportLine (by simp))
  rcases mem_of_mem_paragraphs hline with rfl | ⟨p, hp, hline⟩
  · exact absurd himport (noImport_of_head (s := "") (by decide) (by decide) piece hpiece)
  rcases List.mem_append.mp hp with hp | hp
  · -- a line of the imports
    split at hp
    · cases hp
    obtain rfl := List.mem_singleton.mp hp
    obtain ⟨i, hi, rfl⟩ := List.mem_map.mp hline
    obtain ⟨hi, hnames⟩ := List.mem_filter.mp hi
    exact ⟨i, hi, by simpa using hnames, hpiece⟩
  · -- a line of a group
    obtain ⟨g, hg, rfl⟩ := List.mem_map.mp hp
    exact absurd himport (h g hg line hline piece hpiece)

/-- **Import statements.** The lines of a plain file that start with an import are the lines of
its imports. -/
theorem SourceFile.IsPlain.exists_import {f : SourceFile} (h : f.IsPlain) {piece : List Char}
    (hpiece : piece ∈ splitNewlines f.text.toList) (himport : IsImportLine piece) :
    ∃ i ∈ f.imports.entries, i.names ≠ [] ∧ piece = i.line.toList := by
  obtain ⟨i, hi, hnames, hline⟩ := f.exists_entry (fun _ => h.noImport_group) hpiece himport
  rw [splitNewlines_of_isOneLine (h.imports i hi)] at hline
  exact ⟨i, hi, hnames, List.mem_singleton.mp hline⟩

/-- The line that declares a class starts with its name and a space. -/
theorem ClassDecl.exists_line {c : ClassDecl} (hexported : c.exported) (hname : IsOneLine c.name)
    (hheritage : IsOneLine c.heritage) (hhead : ∀ ch ∈ c.heritage.toList.head?, ch = ' ') :
    ∃ line ∈ c.lines, IsOneLine line ∧ ("export class " ++ c.name ++ " ").toList <+: line.toList := by
  have hspace (after : List Char) :
      ∃ rest, c.heritage.toList ++ ' ' :: after = ' ' :: rest := by
    cases hchars : c.heritage.toList with
    | nil => exact ⟨after, rfl⟩
    | cons ch rest =>
      rw [hchars] at hhead
      obtain rfl := hhead ch rfl
      exact ⟨rest ++ ' ' :: after, rfl⟩
  have hopening (after : String) :
      ("export class " ++ c.name ++ " ").toList <+: (c.opening ++ after).toList := by
    obtain ⟨rest, hrest⟩ := hspace ('\x7b' :: after.toList)
    refine ⟨rest, ?_⟩
    unfold opening
    simp [hexported, hrest]
  have hone := isOneLine_opening hname hheritage
  unfold lines
  split
  · exact ⟨c.opening ++ "\x7d", by simp, isOneLine_append.mpr ⟨hone, by decide⟩, hopening _⟩
  · have hprefix := hopening ""
    rw [String.append_empty] at hprefix
    exact ⟨c.opening, by simp, hone, hprefix⟩

/-- A line of a declaration is a line of the text of its file. -/
theorem SourceFile.mem_splitNewlines_of_mem_declarations {f : SourceFile} {d : Declaration}
    (hd : d ∈ f.declarations) {line : String} (hline : line ∈ d.lines) (hone : IsOneLine line) :
    line.toList ∈ splitNewlines f.text.toList := by
  obtain ⟨g, hg, hdg⟩ := List.mem_flatMap.mp hd
  have hgroup : line ∈ g.lines := List.mem_append_right _ (List.mem_flatMap.mpr ⟨d, hdg, hline⟩)
  have hlines : line ∈ f.lines :=
    mem_paragraphs (List.mem_append_right _ (List.mem_map_of_mem hg)) hgroup
  refine mem_splitNewlines_text.mpr (.inr ⟨line, hlines, ?_⟩)
  rw [splitNewlines_of_isOneLine hone]
  exact List.mem_singleton_self _

/-- **Exported names.** The text of a plain file declares each name that the file exports. -/
theorem SourceFile.IsPlain.declares {f : SourceFile} (h : f.IsPlain) {name : String}
    (hname : name ∈ f.exportedNames) : Declares f.text name := by
  obtain ⟨d, hd, hexported⟩ := List.mem_filterMap.mp hname
  have hplain := h.declarations d hd
  obtain ⟨line, hline, hone, hprefix⟩ : ∃ line ∈ d.lines, IsOneLine line ∧
      (("export class " ++ name ++ " ").toList <+: line.toList ∨
        ("export interface " ++ name ++ " ").toList <+: line.toList) := by
    cases d with
    | class_ c =>
      obtain ⟨hc, rfl⟩ : c.exported = true ∧ c.name = name := by
        simpa [Declaration.exportedName?] using hexported
      have hplain : c.IsPlain := hplain
      obtain ⟨line, hline, hone, hprefix⟩ :=
        ClassDecl.exists_line hc hplain.name hplain.heritage hplain.heritage_head
      exact ⟨line, hline, hone, .inl hprefix⟩
    | interface own base =>
      obtain rfl : own = name := by simpa [Declaration.exportedName?] using hexported
      refine ⟨_, List.mem_singleton_self _, ?_,
        .inr ⟨"extends ".toList ++ base.toList ++ " \x7b\x7d".toList, ?_⟩⟩
      · simp only [isOneLine_append, hplain.1, hplain.2, and_true]
        decide
      · simp
  exact ⟨line.toList, mem_splitNewlines_of_mem_declarations hd hline hone, hprefix⟩

end NestLayers.TypeScript
