import Mathlib.Data.List.Infix
import NestLayers.Proofs.BodyRecords

/-!
# The line of a header

The lines of a unit end at every character that ends a line, but the line of its header is counted
by line feeds. The two counts differ by the line breaks above the header that have no line feed in
them. As many lines, the last of them that of the header, are read with the body. Since the line of
a header is no field line, such a unit is hardly ever accepted.
-/

namespace NestLayers

open NestLayers.Text

namespace Text

/-- The text starts with a line break that has no line feed in it. -/
def startsStray : List Char → Bool
  | [] => false
  | c :: rest => isLineBreak c && c != '\n' && !(c == '\r' && rest.head? == some '\n')

/-- The number of line breaks of a text that have no line feed in them. -/
def strayBreaks (cs : List Char) : Nat :=
  cs.tails.countP startsStray

private theorem strayBreaks_cons (c : Char) (cs : List Char) :
    strayBreaks (c :: cs) = strayBreaks cs + if startsStray (c :: cs) then 1 else 0 := by
  rw [strayBreaks, List.tails_cons, List.countP_cons, strayBreaks]

/-- A character put in front of the first line does not change the number of lines. -/
theorem length_consLine {c : Char} {lines : List (List Char)} (h : lines ≠ []) :
    (consLine c lines).length = lines.length := by
  cases lines with
  | nil => exact absurd rfl h
  | cons line lines => rfl

/-- **Whole lines are as many as their line feeds and their other line breaks.** -/
theorem length_splitLines {above : List Char} (h : Header.StartsLine above) :
    (splitLines above).length = above.count '\n' + strayBreaks above := by
  fun_induction splitLines above with
  | case1 => rfl
  | case2 rest ih =>
    have hfirst : startsStray ('\r' :: '\n' :: rest) = false := by simp [startsStray]
    have hsecond : startsStray ('\n' :: rest) = false := by simp [startsStray]
    rw [strayBreaks_cons, strayBreaks_cons, hfirst, hsecond, List.length_cons,
      ih h.of_cons.of_cons]
    simp
    omega
  | case3 c rest hpair hbreak ih =>
    rw [strayBreaks_cons, List.length_cons, ih h.of_cons, List.count_cons]
    by_cases hc : c = '\n'
    · simp [startsStray, hc]
      omega
    · have hstray : startsStray (c :: rest) = true := by
        have hreturn : c ≠ '\r' ∨ rest.head? ≠ some '\n' := by
          rw [← not_and_or]
          rintro ⟨rfl, hhead⟩
          obtain ⟨rest, rfl⟩ := List.head?_eq_some_iff.mp hhead
          exact hpair rest rfl rfl
        simpa [startsStray, hbreak, hc] using hreturn
      simp [hstray, hc]
      omega
  | case4 c rest _ hbreak ih =>
    have hrest : rest ≠ [] := by
      rintro rfl
      rw [h.eq_newline] at hbreak
      exact hbreak (by decide)
    have hc : c ≠ '\n' := by
      rintro rfl
      exact hbreak (by decide)
    rw [strayBreaks_cons, length_consLine (splitLines_ne_nil hrest), ih h.of_cons]
    simp [startsStray, hbreak, hc]

/-- What stands in one line at the start of a text starts its first line. -/
theorem exists_splitLines_append {start : List Char} (hstart : IsLine start) (hne : start ≠ [])
    (rest : List Char) :
    ∃ remainder others, splitLines (start ++ rest) = (start ++ remainder) :: others := by
  induction start with
  | nil => exact absurd rfl hne
  | cons c start ih =>
    obtain ⟨hc, hstart⟩ := isLine_cons.mp hstart
    rw [List.cons_append, splitLines_cons hc]
    by_cases hnil : start = []
    · rw [hnil, List.nil_append]
      cases splitLines rest with
      | nil => exact ⟨[], [], rfl⟩
      | cons line others => exact ⟨line, others, rfl⟩
    · obtain ⟨remainder, others, hsplit⟩ := ih hstart hnil
      exact ⟨remainder, others, by rw [hsplit]; rfl⟩

end Text

namespace Header

variable {cs : List Char}

/-- The lines of a text are those above a header in it, the line in which the header starts, and
those below it. -/
theorem Place.exists_line (p : Place cs) :
    ∃ line below, splitLines cs = splitLines p.above ++ line :: below ∧
      p.margin ++ Layout.keyword <+: line ∧ IsHeaderLine line := by
  obtain ⟨line, others, hheader, hcs⟩ := Definition.splitLines_place p
  refine ⟨line, _, hcs, ?_, hheader line List.mem_cons_self⟩
  have hstart : IsLine (p.margin ++ Layout.keyword) := by
    refine isLine_append.mpr ⟨fun c hc => ?_, by decide⟩
    rcases Bool.or_eq_true_iff.mp (p.margin_isGaps c hc) with hc | hc <;> rw [eq_of_beq hc] <;>
      decide
  obtain ⟨remainder, below, hsplit⟩ := exists_splitLines_append hstart (by simp [Layout.keyword])
    (p.header.gap ++ (p.header.name ++ (p.header.blanks ++ openingBrace :: p.header.rest)))
  have hlines : splitLines cs =
      splitLines p.above ++ (p.margin ++ Layout.keyword ++ remainder) :: below := by
    rw [← hsplit, ← splitLines_append p.startsLine, List.append_assoc p.margin]
    exact congrArg splitLines p.chars_eq.symm
  obtain ⟨rfl, -⟩ := List.cons.inj (List.append_cancel_left (hcs.symm.trans hlines))
  exact ⟨remainder, rfl⟩

end Header

namespace Definition

/-- A line with the keyword of a header is passed over only for a block attribute. -/
theorem occursIn_of_isSkipped {margin line : List Char}
    (hline : margin ++ Header.Layout.keyword <+: line) (h : isSkipped line = true) :
    occursIn "@@".toList line = true := by
  have hblank : line.all isBlank = false := by
    obtain ⟨remainder, rfl⟩ := hline
    simp [Header.Layout.keyword, show isBlank 'm' = false by decide]
  rwa [isSkipped, hblank, Bool.false_or] at h

/-- A line of a header among those of an accepted body is passed over, unless the body is closed
above it. -/
theorem isSkipped_of_readBody_eq_ok {number : Nat} {before after : List (List Char)}
    {line : List Char} {fields : List FieldLine} (hline : Header.IsHeaderLine line)
    (h : readBody number (before ++ line :: after) = .ok (fields, true))
    (hbefore : ∀ other ∈ before, isClosing other = false) : isSkipped line = true := by
  obtain ⟨body, closing, rest, hsplit, hclosing, -, haccepted, -⟩ := readBody_eq_ok h
  have hopen : ∀ other ∈ before ++ [line], isClosing other = false := by
    rw [List.forall_mem_append, List.forall_mem_singleton]
    exact ⟨hbefore, isClosing_of_isHeaderLine hline⟩
  rw [← List.singleton_append, ← List.append_assoc] at hsplit
  obtain ⟨body', rfl, -⟩ := exists_body_append hsplit hclosing hopen
  refine (haccepted line (by simp)).resolve_right fun hfield => ?_
  rw [acceptedField?_eq_none (FieldLine.parse_ne_ok_of_isHeaderLine hline)] at hfield
  cases hfield

/-- **The line of the header and the lines of the body.** Let a text have a header, and take the
first one. The number of lines above it is the number that is counted for it, plus the number of
line breaks above it that have no line feed in them. As many lines are read with the body before the
lines below the header's: the last ones down to the line in which the header starts. If there are
any, a text is accepted only if one of them closes the body, or the line of the header has a block
attribute. -/
theorem header_line_and_body (text : String) (header : Header)
    (h : Header.find? (withoutMark text.toList) = some header) :
    ∃ (p : Header.Place (withoutMark text.toList)) (line : List Char)
      (below early : List (List Char)),
      p.IsFirst ∧ String.ofList p.header.name = header.name ∧
      splitLines (withoutMark text.toList) = splitLines p.above ++ line :: below ∧
      p.margin ++ Header.Layout.keyword <+: line ∧
      (splitLines p.above).length = header.line + strayBreaks p.above ∧
      bodyLines header (withoutMark text.toList) = early ++ below ∧
      early.length = strayBreaks p.above ∧ early <:+ splitLines p.above ++ [line] ∧
      ∀ registry fileId location d, parse registry fileId location text = .ok d →
        early = [] ∨ (∃ other ∈ early, isClosing other = true) ∨
          occursIn "@@".toList line = true := by
  obtain ⟨p, hfirst, hname, hcount⟩ := Header.find?_eq_some_iff.mp h
  obtain ⟨line, below, hlines, hstart, hheader⟩ := p.exists_line
  have hlength : (splitLines p.above).length = header.line + strayBreaks p.above := by
    rw [length_splitLines p.startsLine, hcount]
  have hbody : bodyLines header (withoutMark text.toList) =
      (splitLines p.above ++ [line]).drop (header.line + 1) ++ below := by
    rw [bodyLines, hlines, ← List.singleton_append, ← List.append_assoc,
      List.drop_append_of_le_length (by simp [hlength])]
  refine ⟨p, line, below, _, hfirst, hname, hlines, hstart, hlength, hbody, ?_,
    List.drop_suffix _ _, ?_⟩
  · rw [List.length_drop, List.length_append, hlength, List.length_singleton]
    omega
  · intro registry fileId location d hparse
    by_cases hstray : strayBreaks p.above = 0
    · exact .inl (List.drop_eq_nil_of_le (by simp [hlength, hstray]))
    refine .inr (or_iff_not_imp_left.mpr fun hopen => ?_)
    obtain ⟨lines, hread, -⟩ := parse_eq_ok hparse
    obtain ⟨header', -, hheader', -, -, hfields, -⟩ := readUnit_eq_ok hread
    obtain rfl := Option.some.inj (h.symm.trans hheader')
    -- the line of the header is the last one of those that are read too early
    have hearly : (splitLines p.above ++ [line]).drop (header.line + 1) =
        (splitLines p.above).drop (header.line + 1) ++ [line] :=
      List.drop_append_of_le_length (by omega)
    rw [hearly] at hopen hbody
    rw [hbody, List.append_assoc, List.singleton_append] at hfields
    have hskipped := isSkipped_of_readBody_eq_ok hheader hfields fun other hother => by
      rw [← Bool.not_eq_true]
      exact fun hclosing => hopen ⟨other, List.mem_append_left _ hother, hclosing⟩
    exact occursIn_of_isSkipped hstart hskipped

/-- A unit with a form feed in its description. -/
def fedUnit : String :=
  "// a\x0cb\nmodel Post \x7b\n  id Int @id // key\n\x7d\n"

private theorem find?_fedUnit : Header.find? (withoutMark fedUnit.toList) = some ⟨"Post", 1⟩ := by
  decide +kernel

/-- The header of the unit is counted as its second line. It stands in the third one, which is read
with the body and rejected. -/
theorem header_of_fedUnit_is_read :
    Header.find? (withoutMark fedUnit.toList) = some ⟨"Post", 1⟩ ∧
      splitLines (withoutMark fedUnit.toList) =
        ["// a".toList, "b".toList, "model Post \x7b".toList, "  id Int @id // key".toList,
          [Header.closingBrace]] ∧
      parse {} "post" .primary fedUnit =
        .error (.badField ⟨.unexpectedChar Header.openingBrace, 12⟩ 3 "model Post \x7b") := by
  refine ⟨find?_fedUnit, ?_, ?_⟩ <;> decide +kernel

/-- One line break above the header of the unit has no line feed in it, so that the line of the
header is read with the body. -/
theorem header_line_and_body_fedUnit :
    Header.find? (withoutMark fedUnit.toList) = some ⟨"Post", 1⟩ ∧
      ∃ p : Header.Place (withoutMark fedUnit.toList), p.IsFirst ∧ strayBreaks p.above = 1 ∧
        (splitLines p.above).length = 1 + strayBreaks p.above := by
  obtain ⟨p, line, below, -, hfirst, -, hlines, hstart, hlength, -⟩ :=
    header_line_and_body fedUnit _ find?_fedUnit
  refine ⟨find?_fedUnit, p, hfirst, ?_, hlength⟩
  -- no other line has the keyword
  have hmem : 'm' ∈ line := hstart.subset (by simp [Header.Layout.keyword])
  have hget : (splitLines (withoutMark fedUnit.toList))[1 + strayBreaks p.above]? = some line := by
    rw [hlines, ← hlength, List.getElem?_append_right le_rfl, Nat.sub_self,
      List.getElem?_cons_zero]
  have hsplit : splitLines (withoutMark fedUnit.toList) =
      [['/', '/', ' ', 'a'], ['b'], "model Post \x7b".toList, "  id Int @id // key".toList,
        [Header.closingBrace]] := by
    decide +kernel
  rw [hsplit] at hget
  generalize strayBreaks p.above = stray at hget ⊢
  obtain _ | _ | _ | _ | stray := stray
  · obtain rfl := Option.some.inj hget
    exact absurd hmem (by decide)
  · rfl
  · obtain rfl := Option.some.inj hget
    exact absurd hmem (by decide)
  · obtain rfl := Option.some.inj hget
    exact absurd hmem (by decide)
  · have hlt := (List.getElem?_eq_some_iff.mp hget).1
    simp at hlt
    omega

end Definition

end NestLayers
