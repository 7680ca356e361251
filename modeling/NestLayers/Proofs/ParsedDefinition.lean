import NestLayers.Proofs.FieldLineGrammar
import NestLayers.Proofs.Lines
import NestLayers.Proofs.UnitReading

/-!
# What a definition that was read holds

The stages of reading a definition unit, taken apart for a unit that is read without an error:
the header and the description that were found, and the lines of the body that its members come
from. Whatever is read off a line has no line feed in it, and names are names.
-/

namespace NestLayers

open NestLayers.Text

namespace Text

/-- The lines that a text splits into have no line end in them. -/
theorem isLine_of_mem_splitLines {line cs : List Char} (h : line ∈ splitLines cs) :
    IsLine line := by
  fun_induction splitLines cs generalizing line with
  | case1 => cases h
  | case2 rest ih =>
    rcases List.mem_cons.mp h with rfl | h
    · exact isLine_nil
    · exact ih h
  | case3 c rest _ hbreak ih =>
    rcases List.mem_cons.mp h with rfl | h
    · exact isLine_nil
    · exact ih h
  | case4 c rest _ hbreak ih =>
    have hc : isLineBreak c = false := Bool.not_eq_true _ ▸ hbreak
    cases hlines : splitLines rest with
    | nil =>
      rw [hlines] at h
      obtain rfl := List.mem_singleton.mp h
      simpa using hc
    | cons first lines =>
      rw [hlines] at h ih
      rcases List.mem_cons.mp h with rfl | h
      · exact isLine_cons.mpr ⟨hc, ih List.mem_cons_self⟩
      · exact ih (List.mem_cons_of_mem _ h)

/-- A text without line ends is one line. -/
theorem IsLine.newline_notMem {cs : List Char} (h : IsLine cs) : '\n' ∉ cs :=
  fun hnewline => absurd (h _ hnewline) (by decide)

/-- Leaving blanks out at the ends of a text adds nothing to it. -/
theorem mem_of_mem_trimChars {c : Char} {cs : List Char} (h : c ∈ trimChars cs) : c ∈ cs := by
  rw [trimChars, dropTail, List.mem_reverse] at h
  exact (List.dropWhile_suffix _).mem
    (List.mem_reverse.mp ((List.dropWhile_suffix _).mem h))

end Text

/-- The name of a model: one or more word characters. -/
def IsModelName (name : List Char) : Prop :=
  name ≠ [] ∧ ∀ c ∈ name, isWord c = true

/-- It is decided by the characters. -/
instance (name : List Char) : Decidable (IsModelName name) :=
  @instDecidableAnd _ _ _ (List.decidableBAll _ name)

namespace Header

/-- The name of a header is a name of a model. -/
theorem isModelName_of_nameAt? {cs : List Char} {name : String} (h : nameAt? cs = some name) :
    IsModelName name.toList := by
  simp only [nameAt?, Option.bind_eq_bind, Option.bind_eq_some_iff] at h
  obtain ⟨rest, -, h⟩ := h
  split at h
  · split at h
    · cases h
    rename_i hne
    split at h
    · obtain rfl := Option.some.inj h
      rw [String.toList_ofList]
      exact ⟨by simpa using hne, fun c hc => List.mem_takeWhile_imp hc⟩
    · cases h
  · cases h

private theorem isModelName_of_find? {cs : List Char} {header : Header}
    (h : find? cs = some header) : IsModelName header.name.toList := by
  obtain ⟨⟨start, line⟩, -, hstart⟩ := List.exists_of_findSome?_eq_some h
  obtain ⟨name, hname, rfl⟩ := Option.map_eq_some_iff.mp hstart
  exact isModelName_of_nameAt? hname

/-- The text of a comment line is part of the line. -/
theorem mem_of_mem_commentText {c : Char} {line : List Char} (h : c ∈ commentText line) :
    c ∈ line := by
  have htext : ∀ d ∈ (line.dropWhile (· == '/')).dropWhile isGap, d ∈ line := fun d hd =>
    (List.dropWhile_suffix _).mem ((List.dropWhile_suffix _).mem hd)
  rw [commentText, dropTail, List.mem_reverse] at h
  have hkept := List.mem_reverse.mp ((List.dropWhile_suffix _).mem h)
  split at hkept
  · exact htext c ((List.dropLast_prefix _).mem hkept)
  · exact htext c hkept

/-- A description has no line feed in it. -/
theorem newline_notMem_of_findDescription? {cs description : List Char}
    (h : findDescription? cs = some description) : '\n' ∉ description := by
  obtain ⟨start, -, hstart⟩ := List.exists_of_findSome?_eq_some h
  unfold descriptionAt? at hstart
  dsimp only at hstart
  split at hstart
  · split at hstart
    · obtain rfl := Option.some.inj hstart
      intro hnewline
      have hkept := List.mem_takeWhile_imp (mem_of_mem_commentText hnewline)
      exact absurd hkept (by decide)
    · cases hstart
  · cases hstart

end Header

namespace FieldLine

/-- A field that was read has names for its name and its type, and a comment from its line. -/
theorem isName_of_parse {line : String} {f : FieldLine} (h : parse line = .ok f) :
    IsName f.name.toList ∧ IsName f.typeName.toList ∧ ∀ c ∈ f.comment.toList, c ∈ line.toList := by
  obtain ⟨l, hchars, rfl⟩ := parse_eq_ok_iff.mp h
  simp only [Layout.field, String.toList_ofList]
  refine ⟨l.name_isName, l.typeName_isName, fun c hc => ?_⟩
  have hremark := mem_of_mem_trimChars hc
  rw [← hchars, Layout.chars, Layout.afterType, Layout.tailChars]
  simp only [List.mem_append, List.mem_cons, hremark, or_true]

end FieldLine

namespace Definition

/-- The stages of a unit that is read. -/
theorem readUnit_eq_ok {text name description : String} {lines : List FieldLine}
    (h : readUnit text = .ok (name, description, lines)) :
    ∃ header chars, Header.find? (withoutMark text.toList) = some header ∧
      Header.findDescription? (withoutMark text.toList) = some chars ∧ chars ≠ [] ∧
      readBody (header.line + 2) (bodyLines header (withoutMark text.toList)) = .ok (lines, true) ∧
      name = header.name ∧ description = String.ofList chars := by
  unfold readUnit at h
  cases hfind : Header.find? (withoutMark text.toList) with
  | none => simp [hfind] at h
  | some header =>
    simp only [hfind] at h
    cases hdescription : Header.findDescription? (withoutMark text.toList) with
    | none => simp [hdescription, bind, Except.bind] at h
    | some chars =>
      simp only [hdescription, Option.getD_some] at h
      split at h
      · cases h
      rename_i hne
      split at h
      · cases h
      · cases h
      · rename_i fields hbody
        obtain ⟨rfl, rfl, rfl⟩ : header.name = name ∧ String.ofList chars = description ∧
            fields = lines := by simpa using Except.ok.inj h
        exact ⟨header, chars, rfl, rfl, by simpa using hne, hbody, rfl, rfl⟩

/-- Each field of a body is read from one of its lines. -/
theorem exists_line_of_readBody {number : Nat} {body : List (List Char)} {fields : List FieldLine}
    {closed : Bool} (h : readBody number body = .ok (fields, closed)) :
    ∀ f ∈ fields, ∃ line ∈ body, FieldLine.parse (String.ofList line) = .ok f := by
  induction body generalizing number fields closed with
  | nil =>
    obtain ⟨rfl, -⟩ : [] = fields ∧ false = closed := by simpa [readBody] using h
    simp
  | cons line body ih =>
    have hlater {fields : List FieldLine} {closed : Bool}
        (h : readBody (number + 1) body = .ok (fields, closed)) :
        ∀ f ∈ fields, ∃ l ∈ line :: body, FieldLine.parse (String.ofList l) = .ok f := by
      intro f hf
      obtain ⟨l, hl, hparse⟩ := ih h f hf
      exact ⟨l, List.mem_cons_of_mem _ hl, hparse⟩
    rw [readBody] at h
    split at h
    · obtain ⟨rfl, -⟩ : [] = fields ∧ true = closed := by simpa using h
      simp
    split at h
    · exact hlater h
    split at h
    · cases h
    · rename_i f hf
      obtain ⟨⟨others, end_⟩, hrest, hfields⟩ := except_bind_eq_ok.mp h
      obtain ⟨rfl, -⟩ : f :: others = fields ∧ end_ = closed := by
        simpa using Except.ok.inj hfields
      exact List.forall_mem_cons.mpr ⟨⟨line, List.mem_cons_self, hf⟩, hlater hrest⟩

/-- The names in the field lines of a unit are names, and their comments are one line each. -/
theorem isName_of_readUnit {text name description : String} {lines : List FieldLine}
    (h : readUnit text = .ok (name, description, lines)) :
    ∀ line ∈ lines, FieldLine.IsName line.name.toList ∧ FieldLine.IsName line.typeName.toList ∧
      IsOneLine line.comment := by
  obtain ⟨header, -, -, -, -, hbody, -, -⟩ := readUnit_eq_ok h
  intro line hmem
  obtain ⟨cs, hcs, hparse⟩ := exists_line_of_readBody hbody line hmem
  obtain ⟨hlineName, htype, hcomment⟩ := FieldLine.isName_of_parse hparse
  have hisLine := isLine_of_mem_splitLines (List.mem_of_mem_drop hcs)
  refine ⟨hlineName, htype, fun hnewline => hisLine.newline_notMem ?_⟩
  simpa using hcomment _ hnewline

/-- The stages of a definition that is read. -/
theorem parse_eq_ok {registry : Registry} {fileId text : String} {location : Location}
    {d : Definition} (h : parse registry fileId location text = .ok d) :
    ∃ lines, readUnit text = .ok (d.name, d.description, lines) ∧
      d.fields = (lines.map (FieldLine.member registry)).filterMap Member.field? ∧
      d.relations = (lines.map (FieldLine.member registry)).filterMap Member.relation? := by
  rw [parse_eq] at h
  obtain ⟨⟨name, description, lines⟩, hread, hd⟩ := except_bind_eq_ok.mp h
  obtain rfl := Except.ok.inj hd
  exact ⟨lines, hread, rfl, rfl⟩

end Definition

/-- What a field comment leaves as a description is part of the comment. -/
theorem FieldComment.mem_of_mem_description {comment : String} {c : Char}
    (h : c ∈ (FieldComment.read comment).description.toList) : c ∈ comment.toList := by
  simp only [FieldComment.read, String.toList_ofList] at h
  obtain ⟨piece, hpiece, hc⟩ := List.mem_flatMap.mp (mem_of_mem_trimChars h)
  generalize comment.toList = cs at hpiece ⊢
  fun_induction commentPieces cs with
  | case1 => cases hpiece
  | case2 c' rest hword ih =>
    rcases List.mem_cons.mp hpiece with rfl | hpiece
    · simp only [CommentPiece.remainder] at hc
      split at hc
      · cases hc
      · rcases List.mem_cons.mp hc with rfl | hc
        · rw [hword.1]
          exact List.mem_cons_self
        · exact List.mem_cons_of_mem _ ((List.takeWhile_prefix _).mem hc)
    · exact List.mem_cons_of_mem _ ((List.dropWhile_suffix _).mem (ih hpiece))
  | case3 c' rest hword ih =>
    rcases List.mem_cons.mp hpiece with rfl | hpiece
    · obtain rfl := List.mem_singleton.mp hc
      exact List.mem_cons_self
    · exact List.mem_cons_of_mem _ (ih hpiece)

/-- A scalar field as a definition that was read has it. -/
structure Field.IsPlain (f : Field) : Prop where
  name : FieldLine.IsName f.name.toList
  description : IsOneLine f.description
  type : ∃ declared isArray, FieldLine.IsName declared.toList ∧
    f.type = Representation.ofDeclared declared isArray

/-- A definition as it is read: names are names, and no text has a line feed in it. -/
structure Definition.IsPlain (d : Definition) : Prop where
  name : IsModelName d.name.toList
  description : IsOneLine d.description
  fields : ∀ f ∈ d.fields, f.IsPlain
  relations : ∀ r ∈ d.relations, FieldLine.IsName r.model.toList

/-- A relation of a definition that is read leads to a registered model, and its texts are one line
each. -/
theorem Definition.of_mem_relations {registry : Registry} {fileId text : String}
    {location : Location} {d : Definition} (h : parse registry fileId location text = .ok d)
    {r : Relation} (hr : r ∈ d.relations) :
    registry.contains r.model = true ∧ FieldLine.IsName r.name.toList ∧
      FieldLine.IsName r.model.toList ∧ IsOneLine r.description := by
  obtain ⟨lines, hread, -, hrelations⟩ := parse_eq_ok h
  rw [hrelations] at hr
  obtain ⟨m, hm, hr⟩ := List.mem_filterMap.mp hr
  obtain ⟨line, hmem, rfl⟩ := List.mem_map.mp hm
  obtain ⟨hname, htype, hcomment⟩ := isName_of_readUnit hread line hmem
  unfold FieldLine.member at hr
  dsimp only at hr
  split at hr
  · rename_i hregistered
    obtain rfl := Option.some.inj hr
    exact ⟨hregistered, hname, htype,
      fun hnewline => hcomment (FieldComment.mem_of_mem_description hnewline)⟩
  · cases hr

/-- **Definitions that are read are plain.** -/
theorem Definition.isPlain_of_parse {registry : Registry} {fileId text : String}
    {location : Location} {d : Definition} (h : parse registry fileId location text = .ok d) :
    d.IsPlain := by
  obtain ⟨lines, hread, hfields, -⟩ := parse_eq_ok h
  obtain ⟨header, chars, hfind, hdescription, -, -, hname, hchars⟩ := readUnit_eq_ok hread
  have hline := isName_of_readUnit hread
  refine ⟨?_, ?_, ?_, ?_⟩
  · rw [hname]
    exact Header.isModelName_of_find? hfind
  · rw [hchars, isOneLine_ofList]
    exact Header.newline_notMem_of_findDescription? hdescription
  · intro f hf
    rw [hfields] at hf
    obtain ⟨m, hm, hf⟩ := List.mem_filterMap.mp hf
    obtain ⟨line, hmem, rfl⟩ := List.mem_map.mp hm
    obtain ⟨hlineName, htype, hcomment⟩ := hline line hmem
    unfold FieldLine.member at hf
    dsimp only at hf
    split at hf
    · cases hf
    · obtain rfl := Option.some.inj hf
      exact ⟨hlineName, fun hnewline => hcomment (FieldComment.mem_of_mem_description hnewline),
        line.typeName, line.isArray, htype, rfl⟩
  · exact fun r hr => (of_mem_relations h hr).2.2.1

end NestLayers
