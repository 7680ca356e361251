import NestLayers.Failure
import NestLayers.Proofs.BodyRecords

/-!
# Where errors are reported

A field line that cannot be read is reported with its number, its text and a column, and the report
draws a mark below the character that the column is about. The column comes from the scanner, or
from a token that is not the one expected. It is that of a character of the line, or the one just
behind its end. The line is the first one of the body that is neither passed over nor a field line.
-/

namespace NestLayers

open NestLayers.Text

/-! ## Columns -/

namespace FieldLine

variable {column k : Nat} {cs : List Char} {tokens : List Token} {e : SyntaxError}

/-- The column `k` is that of a character of a text that starts at a column, or the one behind the
text. -/
def IsColumn (column : Nat) (cs : List Char) (k : Nat) : Prop :=
  column ≤ k ∧ k ≤ column + cs.length

/-- A column of the rest of a text is one of the whole text. -/
theorem IsColumn.of_rest {column' : Nat} {rest : List Char} (h : IsColumn column' rest k)
    (hstart : column ≤ column') (hend : column' + rest.length ≤ column + cs.length) :
    IsColumn column cs k :=
  ⟨hstart.trans h.1, h.2.trans hend⟩

/-- The scanner fails at a character of the line. -/
theorem isColumn_of_tokensFrom_eq_error (h : tokensFrom column cs = .error e) :
    IsColumn column cs e.column := by
  refine tokensFrom_induction
    (motive := fun column cs result => result = .error e → IsColumn column cs e.column)
    ?_ ?_ ?_ column cs h
  · rintro column cs _ hturn rfl
    obtain ⟨front, rest, rfl, hcolumn, -⟩ := turn_eq_error hturn
    rw [IsColumn, List.length_append]
    omega
  · intro column c rest result hc ih herror
    exact (ih herror).of_rest (Nat.le_succ column) (by rw [List.length_cons]; omega)
  · intro column l body rest result hl ih herror
    cases result with
    | ok found => cases herror
    | error other => exact (ih herror).of_rest (by omega) (by rw [List.length_append]; omega)

/-- The tokens of a line start at its characters, or at its end. -/
theorem Lexes.isColumn (h : Lexes column cs tokens) :
    ∀ token ∈ tokens, IsColumn column cs token.column := by
  induction h with
  | endOfLine column => simp [IsColumn]
  | blank _ _ ih =>
    intro token htoken
    exact (ih token htoken).of_rest (by omega) (by rw [List.length_cons]; omega)
  | comment column rest =>
    simp only [List.mem_cons, List.not_mem_nil, or_false, forall_eq_or_imp, forall_eq, IsColumn,
      List.length_cons]
    omega
  | lexeme _ _ ih =>
    refine List.forall_mem_cons.mpr ⟨⟨le_rfl, Nat.le_add_right _ _⟩, fun token htoken => ?_⟩
    exact (ih token htoken).of_rest (by omega) (by rw [List.length_append]; omega)

/-! ## Tokens that are not expected -/

/-- The error is at one of the tokens, or at the first column if there are none. -/
def IsAtToken (tokens : List Token) (e : SyntaxError) : Prop :=
  e.column = 1 ∨ ∃ token ∈ tokens, e.column = token.column

private theorem IsAtToken.of_suffix {rest : List Token} (h : IsAtToken rest e)
    (hrest : rest <:+ tokens) : IsAtToken tokens e :=
  h.imp_right fun ⟨token, htoken, heq⟩ => ⟨token, hrest.subset htoken, heq⟩

private theorem isAtToken_of_takeName {cause : Lexeme → Cause}
    (h : takeName cause tokens = .error e) : IsAtToken tokens e := by
  unfold takeName at h
  split at h
  · cases h
  · obtain rfl := Except.error.inj h
    exact .inr ⟨_, List.mem_cons_self, rfl⟩
  · obtain rfl := Except.error.inj h
    exact .inl rfl

private theorem isAtToken_of_takeComment (h : takeComment tokens = .error e) :
    IsAtToken tokens e := by
  unfold takeComment at h
  split at h
  · split at h
    · obtain rfl := Except.error.inj h
      exact .inr ⟨_, List.mem_cons_self, rfl⟩
    · cases h
  · obtain rfl := Except.error.inj h
    exact .inr ⟨_, List.mem_cons_self, rfl⟩
  · obtain rfl := Except.error.inj h
    exact .inl rfl

/-- A mark is taken from the front. -/
theorem takeMark_suffix (mark : Lexeme) (tokens : List Token) :
    (takeMark mark tokens).2 <:+ tokens := by
  fun_cases takeMark mark tokens with
  | case1 token rest _ => exact List.suffix_cons token rest
  | case2 => exact List.suffix_rfl
  | case3 => exact List.suffix_rfl

/-- Attributes are taken from the front. -/
theorem takeAttributes_suffix (tokens : List Token) : (takeAttributes tokens).2 <:+ tokens := by
  fun_induction takeAttributes tokens with
  | case1 text column rest attributes remaining heq ih =>
    rw [heq] at ih
    exact ih.trans (List.suffix_cons _ rest)
  | case2 => exact List.suffix_rfl

/-- Tokens that are no field line are rejected at one of them. -/
theorem isAtToken_of_ofTokens (h : ofTokens tokens = .error e) : IsAtToken tokens e := by
  rcases except_bind_eq_error.mp h with h | ⟨⟨name, afterName⟩, hname, hafter⟩
  · exact isAtToken_of_takeName h
  obtain ⟨column, rfl⟩ := takeName_eq_ok.mp hname
  rcases except_bind_eq_error.mp hafter with h | ⟨⟨typeName, rest⟩, htype, hrest⟩
  · exact (isAtToken_of_takeName h).of_suffix (List.suffix_cons _ _)
  obtain ⟨column', rfl⟩ := takeName_eq_ok.mp htype
  rcases except_bind_eq_error.mp hrest with h | ⟨comment, -, hdone⟩
  · have hsuffix := (takeAttributes_suffix _).trans
      ((takeMark_suffix .optional _).trans (takeMark_suffix .array rest))
    exact (isAtToken_of_takeComment h).of_suffix
      (hsuffix.trans ((List.suffix_cons _ _).trans (List.suffix_cons _ _)))
  · cases hdone

/-- **Columns.** A line that is no field line is rejected at one of its characters, or at its
end. -/
theorem isColumn_of_parse_eq_error {line : List Char} (h : parse (String.ofList line) = .error e) :
    IsColumn 1 line e.column := by
  rcases except_bind_eq_error.mp h with h | ⟨tokens, htokens, h⟩
  · rw [tokenize, String.toList_ofList] at h
    exact isColumn_of_tokensFrom_eq_error h
  · rw [tokenize, String.toList_ofList] at htokens
    rcases isAtToken_of_ofTokens h with h | ⟨token, htoken, h⟩
    · rw [h]
      exact ⟨le_rfl, Nat.le_add_right _ _⟩
    · rw [h]
      exact (lexes_of_tokensFrom htokens).isColumn token htoken

end FieldLine

/-! ## Lines -/

namespace Definition

variable {number n : Nat} {line : List Char} {lines : List (List Char)} {e : FieldLine.SyntaxError}
  {snippet : String}

/-- A body is read on behind the line: the line does not close it, and is passed over or a field
line. -/
def IsReadPast (line : List Char) : Prop :=
  isClosing line = false ∧
    (isSkipped line = true ∨ ∃ field, FieldLine.parse (String.ofList line) = .ok field)

/-- The line belongs to the body, is not passed over, and is no field line. -/
structure IsFaulty (line : List Char) (e : FieldLine.SyntaxError) : Prop where
  isClosing_eq : isClosing line = false
  isSkipped_eq : isSkipped line = false
  parse_eq : FieldLine.parse (String.ofList line) = .error e

/-- **Step.** A body with an error starts with the faulty line, or is read past its first line. -/
theorem isFaulty_or_isReadPast (h : readBody number (line :: lines) = .error (e, n, snippet)) :
    IsFaulty line e ∧ n = number ∧ snippet = String.ofList line ∨
      IsReadPast line ∧ readBody (number + 1) lines = .error (e, n, snippet) := by
  rw [readBody] at h
  split at h
  · cases h
  rename_i hclosing
  rw [Bool.not_eq_true] at hclosing
  split at h
  · rename_i hskipped
    exact .inr ⟨⟨hclosing, .inl hskipped⟩, h⟩
  rename_i hskipped
  rw [Bool.not_eq_true] at hskipped
  split at h
  · rename_i hparse
    obtain ⟨rfl, rfl, rfl⟩ := Prod.mk.inj (Except.error.inj h)
    exact .inl ⟨⟨hclosing, hskipped, hparse⟩, rfl, rfl⟩
  · rename_i field hparse
    rcases except_bind_eq_error.mp h with h | ⟨fields, -, h⟩
    · exact .inr ⟨⟨hclosing, .inr ⟨field, hparse⟩⟩, h⟩
    · cases h

/-- **Run.** A body with an error is read past all lines above the faulty one. -/
theorem readBody_eq_error (h : readBody number lines = .error (e, n, snippet)) :
    ∃ before line after, lines = before ++ line :: after ∧ n = number + before.length ∧
      snippet = String.ofList line ∧ IsFaulty line e ∧ ∀ other ∈ before, IsReadPast other := by
  induction lines generalizing number with
  | nil => cases h
  | cons line lines ih =>
    rcases isFaulty_or_isReadPast h with ⟨hfaulty, rfl, rfl⟩ | ⟨hpast, hrest⟩
    · exact ⟨[], line, lines, rfl, rfl, rfl, hfaulty, List.forall_mem_nil _⟩
    · obtain ⟨before, bad, after, rfl, rfl, hsnippet, hfaulty, hbefore⟩ := ih hrest
      refine ⟨line :: before, bad, after, rfl, ?_, hsnippet, hfaulty,
        List.forall_mem_cons.mpr ⟨hpast, hbefore⟩⟩
      rw [List.length_cons]
      omega

/-- The lines below the header do not depend on a byte-order mark. -/
theorem bodyLines_withoutMark (header : Header) (cs : List Char) :
    bodyLines header (withoutMark cs) = bodyLines header cs := by
  cases cs with
  | nil => rfl
  | cons c rest =>
    by_cases hmark : c.toNat = 0xFEFF
    · have hbreak : isLineBreak c = false := by simp [isLineBreak, hmark]
      rw [withoutMark, if_pos hmark, bodyLines, bodyLines, splitLines_cons hbreak]
      cases splitLines rest with
      | nil => simp [consLine]
      | cons line lines => rfl
    · rw [withoutMark, if_neg hmark]

/-- The line of a unit that is in error: the first one below the header that is neither passed over
nor a field line. -/
structure FaultyLine (text : String) where
  header : Header
  find?_eq : Header.find? (withoutMark text.toList) = some header
  /-- The number of lines above the line. -/
  index : Nat
  line : List Char
  getElem?_eq : (splitLines text.toList)[index]? = some line
  line_lt : header.line < index
  error : FieldLine.SyntaxError
  isFaulty : IsFaulty line error
  isReadPast : ∀ k other, header.line < k → k < index →
    (splitLines text.toList)[k]? = some other → IsReadPast other

namespace FaultyLine

variable {text : String}

private theorem index_lt (fault : FaultyLine text) :
    fault.index < (splitLines text.toList).length :=
  (List.getElem?_eq_some_iff.mp fault.getElem?_eq).1

private theorem isLine (fault : FaultyLine text) : IsLine fault.line :=
  isLine_of_mem_splitLines (List.mem_of_getElem? fault.getElem?_eq)

end FaultyLine

/-- **Lines.** A unit that is not read for one of its lines has a faulty line, which is the one that
the error is about. -/
theorem exists_faultyLine {text : String}
    (h : readUnit text = .error (.badField e n snippet)) :
    ∃ fault : FaultyLine text,
      fault.error = e ∧ n = fault.index + 1 ∧ snippet = String.ofList fault.line := by
  obtain ⟨header, hheader, hbody⟩ : ∃ header, Header.find? (withoutMark text.toList) = some header ∧
      readBody (header.line + 2) (bodyLines header (withoutMark text.toList)) =
        .error (e, n, snippet) := by
    unfold readUnit at h
    cases hfind : Header.find? (withoutMark text.toList) with
    | none => simp [hfind] at h
    | some header =>
      simp only [hfind] at h
      refine ⟨header, rfl, ?_⟩
      split at h
      · cases h
      split at h
      · rename_i hbody
        obtain ⟨rfl, rfl, rfl⟩ := DefinitionError.badField.inj (Except.error.inj h)
        exact hbody
      · cases h
      · cases h
  rw [bodyLines_withoutMark, bodyLines] at hbody
  obtain ⟨before, line, after, hlines, rfl, rfl, hfaulty, hbefore⟩ := readBody_eq_error hbody
  have hget (k : Nat) : (splitLines text.toList)[header.line + 1 + k]? =
      (before ++ line :: after)[k]? := by
    rw [← hlines, List.getElem?_drop]
  refine ⟨⟨header, hheader, header.line + 1 + before.length, line, ?_, by omega, e, hfaulty, ?_⟩,
    rfl, by dsimp only; omega, rfl⟩
  · rw [hget, List.getElem?_append_right le_rfl, Nat.sub_self, List.getElem?_cons_zero]
  · intro k other hk hlt hother
    obtain ⟨j, rfl⟩ := Nat.exists_eq_add_of_le hk
    rw [Nat.succ_eq_add_one, hget, List.getElem?_append_left (by omega)] at hother
    exact hbefore other (List.mem_of_getElem? hother)

end Definition

/-! ## Marks -/

/-- A line at the end of a text needs no line feed. -/
theorem Text.splitLines_last {line : List Char} (hline : IsLine line) (hne : line ≠ []) :
    splitLines line = [line] := by
  induction line with
  | nil => exact absurd rfl hne
  | cons c cs ih =>
    obtain ⟨hc, hcs⟩ := isLine_cons.mp hline
    rw [splitLines_cons hc]
    by_cases hempty : cs = []
    · rw [hempty]
      rfl
    · rw [ih hcs hempty]
      rfl

private theorem Text.isLine_replicate (count : Nat) : IsLine (List.replicate count ' ') := by
  intro c hc
  rw [List.eq_of_mem_replicate hc]
  decide

/-- A number is written without line ends. -/
theorem Text.isLine_toString (number : Nat) : IsLine (toString number).toList := by
  intro c hc
  have hdigit : c.isDigit = true :=
    Nat.isDigit_of_mem_toDigits (by decide) le_rfl (Nat.toList_repr ▸ hc)
  exact isLineBreak_of_isWord (by simp [isWord, Char.isAlphanum, hdigit])

namespace SourcePlace

/-- What stands before the text of a line in a report: the number of the line, and a bar. -/
def gutter (number : Nat) : List Char :=
  (padLeft 5 (toString number) ++ " | ").toList

/-- The line of a report with the mark, below a text that stands behind as many characters as `size`
says. -/
def mark (size column : Nat) : List Char :=
  List.replicate (size - 2) ' ' ++ "| ".toList ++ List.replicate (column - 1) ' ' ++ ['^']

private theorem isLine_gutter (number : Nat) : IsLine (gutter number) := by
  simp only [gutter, padLeft, String.toList_append, String.toList_ofList, isLine_append]
  exact ⟨⟨isLine_replicate _, isLine_toString number⟩, by decide⟩

private theorem two_le_length_gutter (number : Nat) : 2 ≤ (gutter number).length := by
  simp [gutter]

private theorem isLine_mark (size column : Nat) : IsLine (mark size column) := by
  simp only [mark, isLine_append]
  exact ⟨⟨⟨isLine_replicate _, by decide⟩, isLine_replicate _⟩, by decide⟩

private theorem mark_ne_nil (size column : Nat) : mark size column ≠ [] := by
  simp [mark]

/-- The mark stands below the character with the column. -/
theorem getElem?_mark_eq_iff {size column i : Nat} (hsize : 2 ≤ size) :
    (mark size column)[i]? = some '^' ↔ i = size + (column - 1) := by
  have hlength : (List.replicate (size - 2) ' ' ++ "| ".toList ++
      List.replicate (column - 1) ' ').length = size + (column - 1) := by
    simp only [List.length_append, List.length_replicate, String.reduceToList, List.length_cons,
      List.length_nil]
    omega
  have hnone : '^' ∉ List.replicate (size - 2) ' ' ++ "| ".toList ++
      List.replicate (column - 1) ' ' := by
    simp
  rw [mark, ← hlength]
  generalize List.replicate (size - 2) ' ' ++ "| ".toList ++ List.replicate (column - 1) ' ' =
    before at hnone
  constructor
  · intro h
    rcases Nat.lt_or_ge i before.length with hlt | hge
    · rw [List.getElem?_append_left hlt] at h
      exact absurd (List.mem_of_getElem? h) hnone
    · have hbound := (List.getElem?_eq_some_iff.mp h).1
      rw [List.length_append, List.length_singleton] at hbound
      omega
  · rintro rfl
    exact List.getElem?_concat_length

/-- A report on a line consists of its position, the line and the mark. -/
theorem exists_format_eq (file : String) (number column : Nat) (line : List Char) :
    ∃ position, (format ⟨file, (number + 1 : Nat), column, some (String.ofList line)⟩).toList =
      (position ++ ['\n']) ++
        ((gutter (number + 1) ++ line) ++ '\n' :: mark (gutter (number + 1)).length column) := by
  have hline : ((number + 1 : Nat) : Int) ≠ 0 := by omega
  have hcolumn : ((column : Int) - 1).toNat = column - 1 := by omega
  refine ⟨(file ++ ":" ++ toString (number + 1) ++ ":" ++ toString column).toList, ?_⟩
  have htoString (n : Nat) : toString (n : Int) = toString n := rfl
  simp only [format, if_neg hline, htoString, hcolumn, gutter, mark]
  -- the width of the number and the bar does not matter
  generalize padLeft 5 (toString (number + 1)) ++ " | " = start
  simp [String.length_toList]

/-- The last two lines of a report. -/
theorem exists_splitLines_format (file : String) (number column : Nat) {line : List Char}
    (hline : IsLine line) :
    ∃ above, splitLines
        (format ⟨file, (number + 1 : Nat), column, some (String.ofList line)⟩).toList =
      above ++ [gutter (number + 1) ++ line, mark (gutter (number + 1)).length column] := by
  obtain ⟨position, hformat⟩ := exists_format_eq file number column line
  refine ⟨splitLines (position ++ ['\n']), ?_⟩
  rw [hformat, splitLines_append (.inr ⟨position, rfl⟩),
    splitLines_line (isLine_append.mpr ⟨isLine_gutter _, hline⟩),
    splitLines_last (isLine_mark _ _) (mark_ne_nil _ _)]

end SourcePlace

namespace Definition

/-- **Errors point at what they are about.** Reading a text gives a definition, or an error in the
form of the unit or in one of its lines, and nothing else. An error in a line is about the first
line below the header that is neither passed over nor a field line. The report has the number of
this line in the text, the line as it is, and the column at which it is rejected: that of one of its
characters, or the one behind its end. The last line of the report is a mark, which stands below the
character with the column in the line above it, however long the number of the line is. -/
theorem parse_error_points_at_fault (registry : Registry) (fileId : String) (location : Location)
    (text : String) :
    (∃ d, parse registry fileId location text = .ok d) ∨
      ∃ error, parse registry fileId location text = .error error ∧
        ((error.complaint fileId).kind = .malformedDefinition ∨
          (error.complaint fileId).kind = .malformedField ∧
            ∃ (fault : FaultyLine text) (place : SourcePlace) (k : Nat),
              (error.complaint fileId).place = some place ∧ place.file = fileId ∧
              place.line = fault.index + 1 ∧ fault.index < (splitLines text.toList).length ∧
              place.snippet = some (String.ofList fault.line) ∧
              place.column = k + 1 ∧ fault.error.column = k + 1 ∧ k ≤ fault.line.length ∧
              ∃ above gutter mark,
                splitLines place.format.toList = above ++ [gutter ++ fault.line, mark] ∧
                ∀ i, mark[i]? = some '^' ↔ i = gutter.length + k) := by
  cases hparse : parse registry fileId location text with
  | ok d => exact .inl ⟨d, rfl⟩
  | error error =>
    refine .inr ⟨error, rfl, ?_⟩
    have hunit : readUnit text = .error error := by
      rw [parse_eq] at hparse
      rcases except_bind_eq_error.mp hparse with h | ⟨unit, -, h⟩
      · exact h
      · cases h
    cases error with
    | noHeader => exact .inl rfl
    | noDescription model => exact .inl rfl
    | unclosedBody model line => exact .inl rfl
    | badField e n snippet =>
      obtain ⟨fault, rfl, rfl, rfl⟩ := exists_faultyLine hunit
      obtain ⟨hfirst, hlast⟩ := FieldLine.isColumn_of_parse_eq_error fault.isFaulty.parse_eq
      obtain ⟨k, hk⟩ := Nat.exists_eq_add_of_le' hfirst
      obtain ⟨above, hformat⟩ :=
        SourcePlace.exists_splitLines_format fileId fault.index fault.error.column fault.isLine
      refine .inr ⟨rfl, fault, _, k, rfl, rfl, rfl, fault.index_lt, rfl, ?_, hk, by omega, above, _,
        _, hformat, fun i => ?_⟩
      · exact congrArg Nat.cast hk
      · rw [SourcePlace.getElem?_mark_eq_iff (SourcePlace.two_le_length_gutter _), hk,
          Nat.add_sub_cancel]

example :
    let text := "// Post\nmodel Post \x7b\n  id Int @id // key\n  title\n\x7d\n"
    (parse {} "post" .primary text).mapError (fun error => (error.complaint "post").text) =
      .error ("post:4:8\n    4 |   title\n      |        ^\n" ++
        "Expected a field type, found end of line. " ++
        "Field lines must read 'name Type[]? ? @attr* // description'.") := by
  decide +kernel

end Definition

end NestLayers
