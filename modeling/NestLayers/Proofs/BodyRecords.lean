import Mathlib.Data.List.Basic
import NestLayers.Proofs.HeaderPlaces

/-!
# Which lines of a unit declare members

The reader takes the lines below the line of the header, up to the line that closes the body. It
passes over the lines with a block attribute before it asks whether they are field lines. Here
this is put together: the members of a definition are what the remaining field lines between the
opening brace and the closing line declare, in order. The header may be spread over several
lines; those that the reader takes for lines of the body declare nothing.
-/

namespace NestLayers

open NestLayers.Text

namespace Text

/-- A text with a character in it has a line. -/
theorem splitLines_ne_nil {cs : List Char} (h : cs ≠ []) : splitLines cs ≠ [] := by
  fun_induction splitLines cs with
  | case1 => exact absurd rfl h
  | case2 rest ih => exact List.cons_ne_nil _ _
  | case3 c rest _ hbreak ih => exact List.cons_ne_nil _ _
  | case4 c rest _ hbreak ih => cases splitLines rest <;> exact List.cons_ne_nil _ _

/-- A line break that is no part of a longer one ends a line. -/
theorem splitLines_break {c : Char} (hc : isLineBreak c = true) {cs : List Char}
    (hcs : c = '\r' → cs.head? ≠ some '\n') : splitLines (c :: cs) = [] :: splitLines cs := by
  rw [splitLines]
  · simp [hc]
  · rintro rest rfl rfl
    exact hcs rfl rfl

/-- The lines of a text that starts with whole lines are these lines and the others. -/
theorem splitLines_append {above : List Char} (h : Header.StartsLine above) (cs : List Char) :
    splitLines (above ++ cs) = splitLines above ++ splitLines cs := by
  fun_induction splitLines above with
  | case1 => rfl
  | case2 rest ih =>
    rw [List.cons_append, List.cons_append, splitLines,
      ih h.of_cons.of_cons, List.cons_append]
  | case3 c rest hpair hbreak ih =>
    rw [List.cons_append, splitLines_break hbreak, ih h.of_cons, List.cons_append]
    rintro rfl
    cases rest with
    | nil => exact absurd (h.eq_newline) (by decide)
    | cons d rest =>
      intro hd
      exact hpair rest rfl (by rw [Option.some.inj hd])
  | case4 c rest hpair hbreak ih =>
    rw [List.cons_append, splitLines_cons (by simpa using hbreak), ih h.of_cons]
    have hrest : rest ≠ [] := by
      rintro rfl
      rw [h.eq_newline] at hbreak
      exact hbreak (by decide)
    cases hlines : splitLines rest with
    | nil => exact absurd hlines (splitLines_ne_nil hrest)
    | cons line lines => rfl

/-- A character that ends no line splits a text into the lines before it, which do not depend on
what follows, the line that it stands in, and the lines below. -/
theorem exists_splitLines_append_cons (before : List Char) {c : Char}
    (hc : isLineBreak c = false) :
    ∃ lines start, (∀ line ∈ lines, line ⊆ before) ∧ start ⊆ before ∧
      ∀ rest, ∃ remainder, splitLines (before ++ c :: rest) =
        lines ++ (start ++ c :: remainder) :: (splitLines rest).drop 1 := by
  fun_induction splitLines before with
  | case1 =>
    refine ⟨[], [], by simp, by simp, fun rest => ?_⟩
    rw [List.nil_append, splitLines_cons hc]
    cases splitLines rest with
    | nil => exact ⟨[], rfl⟩
    | cons line lines => exact ⟨line, rfl⟩
  | case2 before ih =>
    obtain ⟨lines, start, hlines, hstart, hsplit⟩ := ih
    have hsub : before ⊆ '\r' :: '\n' :: before := by simp
    refine ⟨[] :: lines, start, ?_, List.Subset.trans hstart hsub, fun rest => ?_⟩
    · simpa using fun line hline => List.Subset.trans (hlines line hline) hsub
    · obtain ⟨remainder, hremainder⟩ := hsplit rest
      exact ⟨remainder, by
        rw [List.cons_append, List.cons_append, splitLines, hremainder, List.cons_append]⟩
  | case3 d before hpair hbreak ih =>
    obtain ⟨lines, start, hlines, hstart, hsplit⟩ := ih
    have hsub : before ⊆ d :: before := List.subset_cons_self _ _
    refine ⟨[] :: lines, start, ?_, List.Subset.trans hstart hsub, fun rest => ?_⟩
    · simpa using fun line hline => List.Subset.trans (hlines line hline) hsub
    · obtain ⟨remainder, hremainder⟩ := hsplit rest
      refine ⟨remainder, ?_⟩
      rw [List.cons_append, splitLines_break hbreak, hremainder, List.cons_append]
      rintro rfl hnext
      cases before with
      | nil =>
        obtain rfl := Option.some.inj hnext
        cases hc
      | cons e before => exact hpair before rfl (by rw [Option.some.inj hnext])
  | case4 d before hpair hbreak ih =>
    obtain ⟨lines, start, hlines, hstart, hsplit⟩ := ih
    have hd : isLineBreak d = false := by simpa using hbreak
    have hsub : before ⊆ d :: before := List.subset_cons_self _ _
    cases lines with
    | nil =>
      refine ⟨[], d :: start, by simp, List.cons_subset_cons _ hstart, fun rest => ?_⟩
      obtain ⟨remainder, hremainder⟩ := hsplit rest
      exact ⟨remainder, by rw [List.cons_append, splitLines_cons hd, hremainder]; rfl⟩
    | cons line lines =>
      obtain ⟨hline, hlines⟩ := List.forall_mem_cons.mp hlines
      refine ⟨(d :: line) :: lines, start, ?_, List.Subset.trans hstart hsub, fun rest => ?_⟩
      · exact List.forall_mem_cons.mpr ⟨List.cons_subset_cons _ hline,
          fun line hline => List.Subset.trans (hlines line hline) hsub⟩
      · obtain ⟨remainder, hremainder⟩ := hsplit rest
        exact ⟨remainder, by rw [List.cons_append, splitLines_cons hd, hremainder]; rfl⟩

end Text

namespace Header

/-- A character that the header of a model may have before its opening brace. -/
def isHeaderChar (c : Char) : Bool :=
  isBlank c || isWord c

/-- A line of a header: characters of a header, and maybe the opening brace with what follows on
its line. -/
def IsHeaderLine (line : List Char) : Prop :=
  ∃ start remainder, line = start ++ remainder ∧ (∀ c ∈ start, isHeaderChar c = true) ∧
    (remainder = [] ∨ ∃ rest, remainder = openingBrace :: rest)

/-- The first character of a header line that is neither blank nor part of a word is the opening
brace. -/
theorem IsHeaderLine.eq_openingBrace {line start rest : List Char} {c : Char}
    (h : IsHeaderLine line) (hline : line = start ++ c :: rest)
    (hstart : ∀ d ∈ start, isHeaderChar d = true) (hc : isHeaderChar c = false) :
    c = openingBrace := by
  obtain ⟨start', remainder, rfl, hstart', hremainder⟩ := h
  have hstops : Stops isHeaderChar remainder := by
    rcases hremainder with rfl | ⟨rest', rfl⟩
    · exact stops_nil _
    · exact stops_cons.mpr (by decide)
  obtain ⟨-, hremainder'⟩ :=
    append_stops_inj hstart' hstops hstart (stops_cons.mpr hc) hline
  rcases hremainder with rfl | ⟨rest', rfl⟩
  · cases hremainder'
  · exact (List.cons.inj hremainder').1.symm

/-- All characters of a header before its opening brace are of its kind. -/
theorem Place.isHeaderChar {cs : List Char} (p : Place cs) :
    ∀ c ∈ p.margin ++ (Layout.keyword ++ (p.header.gap ++ (p.header.name ++ p.header.blanks))),
      isHeaderChar c = true := by
  have hblank {c : Char} (hc : isBlank c = true) : Header.isHeaderChar c = true := by
    simp [Header.isHeaderChar, hc]
  have hgap : ∀ c, isGap c = true → isBlank c = true := by
    intro c hc
    rcases Bool.or_eq_true_iff.mp hc with hc | hc <;> rw [eq_of_beq hc] <;> decide
  have hkeyword : ∀ c ∈ Layout.keyword, Header.isHeaderChar c = true :=
    List.all_eq_true.mp (by decide)
  intro c hc
  simp only [List.mem_append] at hc
  rcases hc with hc | hc | hc | hc | hc
  · exact hblank (hgap c (p.margin_isGaps c hc))
  · exact hkeyword c hc
  · exact hblank (p.header.gap_isBlanks c hc)
  · simp [Header.isHeaderChar, p.header.name_isModelName.2 c hc]
  · exact hblank (p.header.blanks_isBlanks c hc)

end Header

namespace FieldLine

/-- Behind its type, a field line goes on with a mark, an attribute or the comment. -/
theorem Layout.exists_afterType (l : Layout) :
    ∃ c rest, l.afterType = c :: rest ∧ c ∈ ['[', '?', '@', '/'] := by
  unfold afterType
  cases l.array with
  | some blanks => exact ⟨'[', _, rfl, by simp⟩
  | none =>
    cases l.optional with
    | some blanks => exact ⟨'?', _, rfl, by simp⟩
    | none =>
      unfold tailChars
      cases l.attributes with
      | nil => exact ⟨'/', _, rfl, by simp⟩
      | cons a attributes => exact ⟨'@', _, rfl, by simp⟩

/-- No line of a header is a field line. -/
theorem parse_ne_ok_of_isHeaderLine {line : List Char} (h : Header.IsHeaderLine line)
    (field : FieldLine) : parse (String.ofList line) ≠ .ok field := by
  intro hparse
  obtain ⟨l, hchars, -⟩ := parse_eq_ok_iff.mp hparse
  obtain ⟨c, rest, hafter, hc⟩ := l.exists_afterType
  have hblanks {cs : List Char} (hcs : IsBlanks cs) :
      ∀ c ∈ cs, Header.isHeaderChar c = true := fun c hc => by
    simp [Header.isHeaderChar, hcs c hc]
  have hname {cs : List Char} (hcs : IsName cs) :
      ∀ c ∈ cs, Header.isHeaderChar c = true := fun c hc => by
    simp [Header.isHeaderChar, hcs.isWord c hc]
  have hstart : ∀ d ∈ l.margin ++ (l.name ++ (l.gap ++ (l.typeName ++ l.blanks))),
      Header.isHeaderChar d = true := by
    simp only [List.forall_mem_append]
    exact ⟨hblanks l.margin_isBlanks, hname l.name_isName, hblanks l.gap_isBlanks,
      hname l.typeName_isName, hblanks l.blanks_isBlanks⟩
  have hline : line = l.margin ++ (l.name ++ (l.gap ++ (l.typeName ++ l.blanks))) ++ c :: rest := by
    rw [String.toList_ofList] at hchars
    simp [← hchars, Layout.chars, hafter]
  have hmarks : ['[', '?', '@', '/'].all fun c =>
      !Header.isHeaderChar c && c != Header.openingBrace := by
    decide
  have hmark := List.all_eq_true.mp hmarks c hc
  simp only [Bool.and_eq_true, Bool.not_eq_true', bne_iff_ne] at hmark
  exact hmark.2 (h.eq_openingBrace hline hstart hmark.1)

/-- No line of blanks is a field line. -/
theorem parse_ne_ok_of_isBlanks {line : List Char} (h : IsBlanks line) (field : FieldLine) :
    parse (String.ofList line) ≠ .ok field :=
  parse_ne_ok_of_isHeaderLine ⟨line, [], by simp, fun c hc => by
    simp [Header.isHeaderChar, h c hc], .inl rfl⟩ field

end FieldLine

namespace Definition

/-- A line closes the body if its first character that is not blank is the closing brace. -/
theorem exists_of_isClosing {line : List Char} (h : isClosing line = true) :
    ∃ blanks rest, line = blanks ++ Header.closingBrace :: rest ∧ IsBlanks blanks := by
  have hblanks : IsBlanks (line.takeWhile isBlank) := fun c hc => List.mem_takeWhile_imp hc
  have hline := List.takeWhile_append_dropWhile (p := isBlank) (l := line)
  have hstops := stops_dropWhile isBlank line
  cases hdrop : line.dropWhile isBlank with
  | nil => simp [isClosing, trimChars, hdrop, dropTail] at h
  | cons c rest =>
    rw [hdrop] at hline hstops
    have hhead := head?_trimChars hblanks (stops_cons.mp hstops) rest
    rw [hline] at hhead
    rw [isClosing, hhead, beq_iff_eq] at h
    exact ⟨_, rest, Option.some.inj h ▸ hline.symm, hblanks⟩

/-- No line of a header closes the body. -/
theorem isClosing_of_isHeaderLine {line : List Char} (h : Header.IsHeaderLine line) :
    isClosing line = false := by
  rw [Bool.eq_false_iff]
  intro hclosing
  obtain ⟨blanks, rest, hline, hblanks⟩ := exists_of_isClosing hclosing
  have hbrace := h.eq_openingBrace hline
    (fun c hc => by simp [Header.isHeaderChar, hblanks c hc]) (by decide)
  exact absurd hbrace (by decide)

/-- The field that a line is read as. -/
def acceptedField? (line : List Char) : Option FieldLine :=
  (FieldLine.parse (String.ofList line)).toOption

/-- A line that is not parsed declares no field. -/
theorem acceptedField?_eq_none {line : List Char}
    (h : ∀ field, FieldLine.parse (String.ofList line) ≠ .ok field) :
    acceptedField? line = none := by
  unfold acceptedField?
  cases hparse : FieldLine.parse (String.ofList line) with
  | error error => rfl
  | ok field => exact absurd hparse (h field)

/-- **What is read from a closed body.** Its lines before the first closing one are passed over or
are field lines, and the fields are those of the lines that are not passed over. -/
theorem readBody_eq_ok {number : Nat} {lines : List (List Char)} {fields : List FieldLine}
    (h : readBody number lines = .ok (fields, true)) :
    ∃ body closing after, lines = body ++ closing :: after ∧ isClosing closing = true ∧
      (∀ line ∈ body, isClosing line = false) ∧
      (∀ line ∈ body, isSkipped line = true ∨ (acceptedField? line).isSome = true) ∧
      fields = (body.filter fun line => !isSkipped line).filterMap acceptedField? := by
  induction lines generalizing number fields with
  | nil => simp [readBody] at h
  | cons line lines ih =>
    rw [readBody] at h
    split at h
    · rename_i hclosing
      obtain rfl : [] = fields := by simpa using h
      exact ⟨[], line, lines, rfl, hclosing, by simp, by simp, rfl⟩
    rename_i hclosing
    have hopen : isClosing line = false := by simpa using hclosing
    split at h
    · rename_i hskipped
      obtain ⟨body, closing, after, rfl, hclose, hbody, haccepted, rfl⟩ := ih h
      refine ⟨line :: body, closing, after, rfl, hclose, ?_, ?_, by simp [hskipped]⟩
      · exact List.forall_mem_cons.mpr ⟨hopen, hbody⟩
      · exact List.forall_mem_cons.mpr ⟨.inl hskipped, haccepted⟩
    rename_i hskipped
    split at h
    · cases h
    rename_i field hfield
    obtain ⟨⟨others, closed⟩, hrest, hfields⟩ := except_bind_eq_ok.mp h
    obtain ⟨rfl, rfl⟩ : field :: others = fields ∧ closed = true := by
      simpa using Except.ok.inj hfields
    have hline : acceptedField? line = some field := by
      rw [acceptedField?, hfield]
      rfl
    obtain ⟨body, closing, after, rfl, hclose, hbody, haccepted, rfl⟩ := ih hrest
    refine ⟨line :: body, closing, after, rfl, hclose, ?_, ?_, by simp [hskipped, hline]⟩
    · exact List.forall_mem_cons.mpr ⟨hopen, hbody⟩
    · exact List.forall_mem_cons.mpr ⟨.inr (by simp [hline]), haccepted⟩

/-- Blank lines need not be told from lines with a block attribute: they are no field lines. -/
theorem filterMap_acceptedField? (body : List (List Char)) :
    (body.filter fun line => !isSkipped line).filterMap acceptedField? =
      (body.filter fun line => !occursIn "@@".toList line).filterMap acceptedField? := by
  rw [List.filterMap_filter, List.filterMap_filter]
  refine List.filterMap_congr fun line _ => ?_
  cases hblank : line.all isBlank with
  | false => simp [isSkipped, hblank]
  | true =>
    have hnone := acceptedField?_eq_none (FieldLine.parse_ne_ok_of_isBlanks
      (fun c hc => List.all_eq_true.mp hblank c hc))
    simp [hnone]

/-- Lines before the closing one that do not close the body belong to it. -/
theorem exists_body_append {first lines body after : List (List Char)} {closing : List Char}
    (h : first ++ lines = body ++ closing :: after) (hclosing : isClosing closing = true)
    (hfirst : ∀ line ∈ first, isClosing line = false) :
    ∃ body', body = first ++ body' ∧ lines = body' ++ closing :: after := by
  rcases List.append_eq_append_iff.mp h with ⟨body', rfl, hrest⟩ | ⟨others, rfl, hrest⟩
  · exact ⟨body', rfl, hrest⟩
  · cases others with
    | nil => exact ⟨[], by simp, hrest.symm⟩
    | cons line others =>
      obtain ⟨rfl, -⟩ := List.cons.inj hrest
      rw [hfirst closing (by simp)] at hclosing
      cases hclosing

/-- The lines of the body that belong to the header come before all others, and the fields are
those of the others. -/
theorem readBody_header {number : Nat} {header lines : List (List Char)} {fields : List FieldLine}
    (hheader : ∀ line ∈ header, Header.IsHeaderLine line)
    (h : readBody number (header ++ lines) = .ok (fields, true)) :
    ∃ body closing after, lines = body ++ closing :: after ∧ isClosing closing = true ∧
      (∀ line ∈ body, isClosing line = false) ∧
      (∀ line ∈ body, isSkipped line = true ∨ (acceptedField? line).isSome = true) ∧
      fields = (body.filter fun line => !isSkipped line).filterMap acceptedField? := by
  obtain ⟨body, closing, after, hlines, hclosing, hbody, haccepted, rfl⟩ := readBody_eq_ok h
  obtain ⟨body', rfl, rfl⟩ := exists_body_append hlines hclosing fun line hline =>
    isClosing_of_isHeaderLine (hheader line hline)
  obtain ⟨-, hbody⟩ := List.forall_mem_append.mp hbody
  obtain ⟨-, haccepted⟩ := List.forall_mem_append.mp haccepted
  have hnone : (header.filter fun line => !isSkipped line).filterMap acceptedField? = [] := by
    rw [List.filterMap_eq_nil_iff]
    intro line hline
    exact acceptedField?_eq_none (FieldLine.parse_ne_ok_of_isHeaderLine
      (hheader line (List.mem_filter.mp hline).1))
  refine ⟨body', closing, after, rfl, hclosing, hbody, haccepted, ?_⟩
  rw [List.filter_append, List.filterMap_append, hnone, List.nil_append]

/-- The lines of a text are those above a header in it, those of the header, and those below the one
with the opening brace. -/
theorem splitLines_place {cs : List Char} (p : Header.Place cs) :
    ∃ first others, (∀ line ∈ first :: others, Header.IsHeaderLine line) ∧
      splitLines cs =
        splitLines p.above ++ first :: (others ++ (splitLines p.header.rest).drop 1) := by
  have hbrace : isLineBreak Header.openingBrace = false := by decide
  obtain ⟨lines, start, hlines, hstart, hsplit⟩ := exists_splitLines_append_cons
    (p.margin ++ (Header.Layout.keyword ++ (p.header.gap ++ (p.header.name ++ p.header.blanks))))
    hbrace
  obtain ⟨remainder, hsplit⟩ := hsplit p.header.rest
  have hcs : splitLines cs = splitLines p.above ++ (lines ++
      (start ++ Header.openingBrace :: remainder) :: (splitLines p.header.rest).drop 1) := by
    rw [← hsplit, ← splitLines_append p.startsLine]
    congr 1
    refine p.chars_eq.symm.trans ?_
    simp only [Header.Layout.chars, List.append_assoc]
  have hheader : ∀ line ∈ lines ++ [start ++ Header.openingBrace :: remainder],
      Header.IsHeaderLine line := by
    rw [List.forall_mem_append, List.forall_mem_singleton]
    refine ⟨fun line hmem => ⟨line, [], by simp, ?_, .inl rfl⟩, start, _, rfl, ?_,
      .inr ⟨remainder, rfl⟩⟩
    · exact fun c hc => p.isHeaderChar c (hlines line hmem hc)
    · exact fun c hc => p.isHeaderChar c (hstart hc)
  cases lines with
  | nil => exact ⟨_, [], hheader, hcs⟩
  | cons first lines => exact ⟨first, _, hheader, by simp [hcs]⟩

/-- If the lines above the header are counted by their line feeds, the reader takes the lines below
the one with the opening brace, and before them only lines of the header. -/
theorem bodyLines_eq {cs : List Char} (p : Header.Place cs) (header : Header)
    (hline : (splitLines p.above).length = header.line) :
    ∃ lines, (∀ line ∈ lines, Header.IsHeaderLine line) ∧
      bodyLines header cs = lines ++ (splitLines p.header.rest).drop 1 := by
  obtain ⟨first, others, hheader, hcs⟩ := splitLines_place p
  refine ⟨others, (List.forall_mem_cons.mp hheader).2, ?_⟩
  rw [bodyLines, ← hline, hcs, ← List.drop_drop, List.drop_left]
  rfl

/-- **The members of a definition are what the field lines of its body declare.** Let `p` be the
first header of the text, and let the lines above it be counted by their line feeds. The lines
below the one with the opening brace start with a body and a closing line. The members are what
the lines of the body declare that are field lines and have no block attribute, in order, one for
each; no other line of the body is anything but blank. -/
theorem members_of_body (registry : Registry) (fileId : String) (location : Location)
    (text : String) (d : Definition) (p : Header.Place (withoutMark text.toList)) (hp : p.IsFirst)
    (habove : (splitLines p.above).length = p.above.count '\n')
    (hparse : parse registry fileId location text = .ok d) :
    ∃ body closing after, (splitLines p.header.rest).drop 1 = body ++ closing :: after ∧
      isClosing closing = true ∧ (∀ line ∈ body, isClosing line = false) ∧
      (∀ line ∈ body, isSkipped line = true ∨ (acceptedField? line).isSome = true) ∧
      ∃ members : List Member,
        members = ((body.filter fun line => !occursIn "@@".toList line).filterMap
          acceptedField?).map (FieldLine.member registry) ∧
        d.fields = members.filterMap Member.field? ∧
        d.relations = members.filterMap Member.relation? := by
  obtain ⟨lines, hread, hfields, hrelations⟩ := parse_eq_ok hparse
  obtain ⟨header, chars, hheader, -, -, hbody, -, -⟩ := readUnit_eq_ok hread
  have hfind : Header.find? (withoutMark text.toList) =
      some ⟨String.ofList p.header.name, p.above.count '\n'⟩ :=
    Header.find?_eq_some_iff.mpr ⟨p, hp, rfl, rfl⟩
  obtain rfl := Option.some.inj (hfind.symm.trans hheader)
  obtain ⟨headerLines, hheaderLines, hlines⟩ := bodyLines_eq p
    ⟨String.ofList p.header.name, p.above.count '\n'⟩ habove
  rw [hlines] at hbody
  obtain ⟨body, closing, after, hsplit, hclosing, hopen, haccepted, rfl⟩ :=
    readBody_header hheaderLines hbody
  rw [filterMap_acceptedField?] at hfields hrelations
  exact ⟨body, closing, after, hsplit, hclosing, hopen, haccepted, _, rfl, hfields, hrelations⟩

/-- The unit of a contact, with a field on the line of the header, and one whose comment looks
like a block attribute. -/
def contactUnit : String :=
  "// Contact\nmodel Contact \x7b name String // who\n  id Int @id // key\n" ++
    "  mail String // work @@ home\n\x7d\n"

/-- The header of the contact. -/
def contactPlace : Header.Place (withoutMark contactUnit.toList) where
  above := "// Contact\n".toList
  margin := []
  header := .spaced "Contact".toList (contactUnit.toList.drop 26) (by decide +kernel)
  chars_eq := by decide +kernel
  startsLine := .inr ⟨"// Contact".toList, by decide +kernel⟩
  margin_isGaps := Header.isGaps_nil

private theorem isFirst_contactPlace : contactPlace.IsFirst := by
  have hfind : Header.find? (withoutMark contactUnit.toList) = some ⟨"Contact", 1⟩ := by
    decide +kernel
  exact contactPlace.isFirst_of_find? hfind (by decide +kernel)

/-- What is read from the unit of a contact. -/
def contactDefinition : Definition where
  name := "Contact"
  description := "Contact"
  fields :=
    [{ name := "id", type := .ofDeclared "Int" false, isArray := false, isId := true
       isRequired := true, tags := {}, description := "key", unknownDirectives := [] }]
  relations := []
  fileId := "contact"
  location := .primary

private theorem parse_contactUnit :
    parse {} "contact" .primary contactUnit = .ok contactDefinition := by
  decide +kernel

/-- A unit with form feeds and a closing brace above the header. -/
def pagedUnit : String :=
  "// old\x0c\x0c\x0c\x7d\n// Contact\nmodel Contact \x7b\n  id Int @id // key\n\x7d\n"

/-- Three field lines stand between the braces, and one of them declares a member. Where lines
above the header end otherwise than by a line feed, the body is looked for too early, and none
may declare a member. -/
theorem fields_of_contact_are_lost :
    (contactPlace.IsFirst ∧
      splitLines contactPlace.header.rest =
        [" name String // who".toList, "  id Int @id // key".toList,
          "  mail String // work @@ home".toList, [Header.closingBrace]] ∧
      (∀ line ∈ (splitLines contactPlace.header.rest).take 3,
        isClosing line = false ∧ (acceptedField? line).isSome = true) ∧
      parse {} "contact" .primary contactUnit = .ok contactDefinition ∧
      contactDefinition.fields.map (·.name) = ["id"] ∧ contactDefinition.relations = []) ∧
    (splitLines pagedUnit.toList).drop 5 =
      ["model Contact \x7b".toList, "  id Int @id // key".toList, [Header.closingBrace]] ∧
    parse {} "contact" .primary pagedUnit = .ok { contactDefinition with fields := [] } := by
  refine ⟨⟨isFirst_contactPlace, ?_, ?_, parse_contactUnit, rfl, rfl⟩, ?_, ?_⟩ <;> decide +kernel

/-- The members of the contact are those of the lines below its header that have no block
attribute. -/
theorem members_of_body_contact :
    contactPlace.IsFirst ∧
    (splitLines contactPlace.above).length = contactPlace.above.count '\n' ∧
    parse {} "contact" .primary contactUnit = .ok contactDefinition ∧
    ∃ body closing after,
      (splitLines contactPlace.header.rest).drop 1 = body ++ closing :: after ∧
      isClosing closing = true ∧ (∀ line ∈ body, isClosing line = false) ∧
      contactDefinition.fields = (((body.filter fun line => !occursIn "@@".toList line).filterMap
        acceptedField?).map (FieldLine.member {})).filterMap Member.field? := by
  have habove : (splitLines contactPlace.above).length = contactPlace.above.count '\n' := by
    decide +kernel
  obtain ⟨body, closing, after, hlines, hclosing, hopen, -, members, rfl, hfields, -⟩ :=
    members_of_body {} "contact" .primary contactUnit contactDefinition contactPlace
      isFirst_contactPlace habove parse_contactUnit
  exact ⟨isFirst_contactPlace, habove, parse_contactUnit, body, closing, after, hlines, hclosing,
    hopen, hfields⟩

end Definition

end NestLayers
