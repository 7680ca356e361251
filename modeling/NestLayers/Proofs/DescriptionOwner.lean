import NestLayers.Proofs.HeaderPlaces

/-!
# Whose description a definition has

A definition has the name of the first header of its text. Its description is looked for on its
own: it is that of the first comment line directly above any header. So it belongs to the model
exactly if the first header has such a line and no header that has one stands above it, and a
first header without one is turned down only if there is no such line at all.
-/

namespace NestLayers

open NestLayers.Text

namespace Header

/-- A comment line directly above a header of a text: it starts a line, and nothing but blanks
stands between it and the header. -/
structure Description (cs : List Char) where
  above : List Char
  margin : List Char
  /-- What follows the two slashes on the line. -/
  remark : List Char
  blanks : List Char
  header : Layout
  chars_eq : above ++ (margin ++ ('/' :: '/' :: remark ++ '\n' :: (blanks ++ header.chars))) = cs
  startsLine : StartsLine above
  margin_isGaps : IsGaps margin
  remark_oneLine : '\n' ∉ remark
  blanks_isBlanks : IsBlanks blanks

namespace Description

variable {cs : List Char}

/-- The text of the comment line. -/
def text (q : Description cs) : List Char :=
  commentText ('/' :: '/' :: q.remark)

/-- No comment line above any header stands above this one. -/
def IsFirst (q : Description cs) : Prop :=
  ∀ r : Description cs, q.above.length ≤ r.above.length

/-- The line is over at its line feed. -/
theorem mem_comment (q : Description cs) : ∀ c ∈ '/' :: '/' :: q.remark, (c != '\n') = true := by
  intro c hc
  rw [bne_iff_ne]
  rintro rfl
  exact q.remark_oneLine (by simpa using hc)

/-- The text is found at the start of the comment line. -/
theorem descriptionAt?_eq (q : Description cs) :
    descriptionAt? (q.margin ++ ('/' :: '/' :: q.remark ++ '\n' :: (q.blanks ++ q.header.chars))) =
      some q.text := by
  have hslash : Stops isGap
      ('/' :: '/' :: q.remark ++ '\n' :: (q.blanks ++ q.header.chars)) := by
    simp
    decide
  have hnewline : Stops (· != '\n') ('\n' :: (q.blanks ++ q.header.chars)) := by simp
  have hslashes : afterStart? "//".toList
      ('/' :: '/' :: q.remark ++ '\n' :: (q.blanks ++ q.header.chars)) =
      some (q.remark ++ '\n' :: (q.blanks ++ q.header.chars)) := by
    simp [afterStart?]
  have hmodel : Stops isBlank q.header.chars := q.header.stops_chars (by decide)
  simp only [descriptionAt?, dropWhile_append_stops q.margin_isGaps hslash, hslashes,
    dropWhile_append_stops q.mem_comment hnewline, takeWhile_append_stops q.mem_comment hnewline,
    dropWhile_append_stops q.blanks_isBlanks hmodel, nameAt?_chars, Option.isSome_some, if_true]
  rfl

end Description

/-- Where a description is found, a comment line stands directly above a header. -/
theorem exists_description_of_descriptionAt? {cs above start text : List Char}
    (habove : above ++ start = cs) (hstarts : StartsLine above)
    (h : descriptionAt? start = some text) :
    ∃ q : Description cs, q.above = above ∧ q.text = text := by
  unfold descriptionAt? at h
  dsimp only at h
  split at h
  · rename_i after newline below hslashes hline
    split at h
    · rename_i hname
      obtain rfl := Option.some.inj h
      obtain ⟨name, hname⟩ := Option.isSome_iff_exists.mp hname
      obtain ⟨header, hheader, -⟩ := nameAt?_eq_some_iff.mp hname
      have hcomment := List.takeWhile_append_dropWhile (p := (· != '\n'))
        (l := start.dropWhile isGap)
      -- the line that starts with two slashes ends at the line feed
      obtain rfl : newline = '\n' := by
        have hstops := stops_dropWhile (· != '\n') (start.dropWhile isGap)
        rw [hline, stops_cons] at hstops
        simpa using hstops
      obtain ⟨remark, hremark⟩ : ∃ remark,
          (start.dropWhile isGap).takeWhile (· != '\n') = '/' :: '/' :: remark := by
        rw [append_of_afterStart? hslashes]
        exact ⟨after.takeWhile (· != '\n'), by simp⟩
      have honeLine : '\n' ∉ remark := by
        intro hmem
        have hkept := List.mem_takeWhile_imp (p := (· != '\n')) (l := start.dropWhile isGap)
          (x := '\n') (by simp [hremark, hmem])
        exact absurd hkept (by decide)
      refine ⟨⟨above, start.takeWhile isGap, remark, below.takeWhile isBlank, header, ?_, hstarts,
        fun c hc => List.mem_takeWhile_imp hc, honeLine, fun c hc => List.mem_takeWhile_imp hc⟩,
        rfl, ?_⟩
      · rw [hheader, List.takeWhile_append_dropWhile, ← hremark, ← hline, hcomment,
          List.takeWhile_append_dropWhile, habove]
      · exact congrArg commentText hremark.symm
    · cases h
  · cases h

/-- **The description that is found is that of the first comment line directly above a
header.** -/
theorem findDescription?_eq_some_iff {cs text : List Char} :
    findDescription? cs = some text ↔ ∃ q : Description cs, q.IsFirst ∧ q.text = text := by
  have hindexed : findDescription? cs =
      (lineStarts cs).zipIdx.findSome? fun x => descriptionAt? x.1 := by
    have h := List.findSome?_map (f := Prod.fst) (p := descriptionAt?) (l := (lineStarts cs).zipIdx)
    rwa [List.zipIdx_map_fst] at h
  rw [hindexed, findSome?_lineStarts]
  constructor
  · rintro ⟨above, start, habove, hstarts, htext, hfirst⟩
    obtain ⟨q, rfl, hq⟩ := exists_description_of_descriptionAt? habove hstarts htext
    refine ⟨q, fun r => hfirst r.above _ r.chars_eq r.startsLine ?_, hq⟩
    dsimp only
    rw [r.descriptionAt?_eq]
    rfl
  · rintro ⟨q, hfirst, rfl⟩
    refine ⟨q.above, _, q.chars_eq, q.startsLine, q.descriptionAt?_eq, ?_⟩
    intro above' start' habove' hstarts' htext'
    obtain ⟨text', htext'⟩ := Option.isSome_iff_exists.mp htext'
    obtain ⟨r, rfl, -⟩ := exists_description_of_descriptionAt? habove' hstarts' htext'
    exact hfirst r

namespace Description

variable {cs : List Char}

/-- The header of a comment line stands below it. -/
theorem length_header_lt (q : Description cs) : q.header.chars.length < cs.length := by
  have hlength := congrArg List.length q.chars_eq
  simp only [List.length_append, List.length_cons] at hlength
  omega

/-- A part of a text that starts with a character starts behind every part without it. -/
theorem suffix_of_notMem {c : Char} {xs ys zs : List Char} (hc : c ∉ xs)
    (h : (c :: ys) <:+ xs ++ zs) : (c :: ys) <:+ zs := by
  induction xs with
  | nil => exact h
  | cons x xs ih =>
    obtain ⟨hx, hxs⟩ := not_or.mp (mt List.mem_cons.mpr hc)
    rcases List.suffix_cons_iff.mp h with heq | h
    · exact absurd (List.cons.inj heq).1 hx
    · exact ih hxs h

/-- A comment line below the line of another one stands below the header of that one, since only
blanks stand between the two. -/
theorem length_header_lt_of_below (q r : Description cs) {lines : List Char}
    (h : r.above = q.above ++ (lines ++ ['\n'])) :
    r.header.chars.length < q.header.chars.length := by
  have htext := r.chars_eq.trans q.chars_eq.symm
  rw [h, List.append_assoc] at htext
  have hlines := List.append_cancel_left htext
  simp only [List.append_assoc, List.singleton_append] at hlines
  have hcomment : '\n' ∉ q.margin ++ '/' :: '/' :: q.remark := by
    have hmargin : '\n' ∉ q.margin := fun hmem =>
      absurd (q.margin_isGaps _ hmem) (by decide)
    simp [hmargin, q.remark_oneLine]
  have hbelow : ('\n' :: (r.margin ++ ('/' :: '/' :: r.remark ++ '\n' ::
      (r.blanks ++ r.header.chars)))) <:+ '\n' :: (q.blanks ++ q.header.chars) := by
    refine suffix_of_notMem hcomment ⟨lines, ?_⟩
    rw [hlines]
    simp only [List.append_assoc]
  have hslash : '/' ∉ q.blanks := fun hmem => absurd (q.blanks_isBlanks _ hmem) (by decide)
  have hheader : ('/' :: ('/' :: r.remark ++ '\n' :: (r.blanks ++ r.header.chars))) <:+
      q.header.chars := by
    refine suffix_of_notMem hslash ((List.suffix_append r.margin _).trans ?_)
    rcases List.suffix_cons_iff.mp hbelow with heq | hbelow
    · exact (List.cons.inj heq).2 ▸ List.suffix_rfl
    · exact (List.suffix_cons _ _).trans hbelow
  have hlength := hheader.length_le
  simp only [List.length_append, List.length_cons] at hlength
  omega

/-- The header below a comment line is found from the line. -/
theorem header_chars_eq (q : Description cs) {start : List Char} (h : q.above ++ start = cs) :
    q.header.chars =
      ((start.dropWhile isGap).dropWhile (· != '\n')).tail.dropWhile isBlank := by
  have hstart := List.append_cancel_left (q.chars_eq.trans h.symm)
  have hslash : Stops isGap
      ('/' :: '/' :: q.remark ++ '\n' :: (q.blanks ++ q.header.chars)) := by
    simp
    decide
  rw [← hstart, dropWhile_append_stops q.margin_isGaps hslash,
    dropWhile_append_stops q.mem_comment (by simp), List.tail_cons,
    dropWhile_append_stops q.blanks_isBlanks (q.header.stops_chars (by decide))]

/-- Comment lines stand in the order of their headers. -/
theorem length_header_le {q r : Description cs} (h : q.above.length ≤ r.above.length) :
    r.header.chars.length ≤ q.header.chars.length := by
  have hprefix := List.prefix_of_prefix_length_le ⟨_, q.chars_eq⟩ ⟨_, r.chars_eq⟩ h
  rcases r.startsLine.eq_or_append hprefix with heq | ⟨lines, heq⟩
  · rw [q.header_chars_eq q.chars_eq, r.header_chars_eq (heq ▸ q.chars_eq)]
  · exact (q.length_header_lt_of_below r heq).le

/-- The first comment line is that of a given header exactly if this header has one and none of
the headers that have one stands above it. -/
theorem IsFirst.header_eq_iff {q : Description cs} (hq : q.IsFirst) {header : Layout} :
    q.header = header ↔ (∃ own : Description cs, own.header = header) ∧
      ∀ r : Description cs, r.header.chars.length ≤ header.chars.length := by
  constructor
  · rintro rfl
    exact ⟨⟨q, rfl⟩, fun r => length_header_le (hq r)⟩
  · rintro ⟨⟨own, rfl⟩, hlast⟩
    have hlength := le_antisymm (length_header_le (hq own)) (hlast q)
    have hsuffix (r : Description cs) : r.header.chars <:+ cs :=
      ⟨r.above ++ (r.margin ++ ('/' :: '/' :: r.remark ++ '\n' :: r.blanks)), by
        simpa using r.chars_eq⟩
    exact Layout.chars_injective
      ((List.suffix_of_suffix_length_le (hsuffix q) (hsuffix own) hlength.ge).eq_of_length
        hlength.symm)

end Description

end Header

namespace Definition

/-- A text with a header is turned down for want of a description exactly if none is found, or an
empty one. -/
theorem parse_eq_noDescription_iff {registry : Registry} {fileId text : String}
    {location : Location} {header : Header}
    (hheader : Header.find? (withoutMark text.toList) = some header) :
    parse registry fileId location text = .error (.noDescription header.name) ↔
      (Header.findDescription? (withoutMark text.toList)).getD [] = [] := by
  have hparse : parse registry fileId location text = .error (.noDescription header.name) ↔
      readUnit text = .error (.noDescription header.name) := by
    rw [parse_eq]
    cases readUnit text with
    | error error => simp [bind, Except.bind]
    | ok unit => simp [bind, Except.bind, pure, Except.pure]
  rw [hparse, readUnit, hheader]
  generalize (Header.findDescription? (withoutMark text.toList)).getD [] = description
  cases description with
  | nil => simp [bind, Except.bind]
  | cons c cs =>
    simp only [List.isEmpty_cons, Bool.false_eq_true, if_false, reduceCtorEq, iff_false]
    split <;> simp [pure, Except.pure]

/-- **The description of a definition is that of the first comment line directly above a header,
whichever header this is.** With `p` the first header of the text, the definition has the name of
`p`; the description is the comment of `p` itself exactly if `p` has one and no header with one
stands above `p`. The text is turned down for want of a description exactly if the first such
comment line, if there is one, has nothing in it. -/
theorem description_isOwn_iff (registry : Registry) (fileId : String) (location : Location)
    (text : String) (p : Header.Place (withoutMark text.toList)) (hp : p.IsFirst) :
    (∀ d, parse registry fileId location text = .ok d →
      d.name = String.ofList p.header.name ∧
      ∃ q : Header.Description (withoutMark text.toList), q.IsFirst ∧
        d.description = String.ofList q.text ∧
        (q.header = p.header ↔
          (∃ own : Header.Description (withoutMark text.toList), own.header = p.header) ∧
          ∀ r : Header.Description (withoutMark text.toList),
            r.header.chars.length ≤ p.header.chars.length)) ∧
    (parse registry fileId location text =
        .error (.noDescription (String.ofList p.header.name)) ↔
      ∀ q : Header.Description (withoutMark text.toList), q.IsFirst → q.text = []) := by
  have hfind : Header.find? (withoutMark text.toList) =
      some ⟨String.ofList p.header.name, p.above.count '\n'⟩ :=
    Header.find?_eq_some_iff.mpr ⟨p, hp, rfl, rfl⟩
  constructor
  · intro d hd
    obtain ⟨lines, hread, -, -⟩ := parse_eq_ok hd
    obtain ⟨header, chars, hheader, hdescription, -, -, hname, hchars⟩ := readUnit_eq_ok hread
    obtain rfl := Option.some.inj (hfind.symm.trans hheader)
    obtain ⟨q, hq, rfl⟩ := Header.findDescription?_eq_some_iff.mp hdescription
    exact ⟨hname, q, hq, hchars, hq.header_eq_iff⟩
  · rw [parse_eq_noDescription_iff hfind]
    constructor
    · intro hnone q hq
      rwa [Header.findDescription?_eq_some_iff.mpr ⟨q, hq, rfl⟩] at hnone
    · intro hempty
      cases hdescription : Header.findDescription? (withoutMark text.toList) with
      | none => rfl
      | some chars =>
        obtain ⟨q, hq, rfl⟩ := Header.findDescription?_eq_some_iff.mp hdescription
        exact hempty q hq

/-- The units of a post without a comment and of a comment with one, in one text. -/
def postAndComment : String :=
  "model Post \x7b\n  id Int @id // key\n\x7d\n\n// Comment\nmodel Comment \x7b\n" ++
    "  id Int @id // key\n\x7d\n"

/-- The header of the post. -/
def postPlace : Header.Place (withoutMark postAndComment.toList) where
  above := []
  margin := []
  header := .spaced "Post".toList (postAndComment.toList.drop 12) (by decide +kernel)
  chars_eq := by decide +kernel
  startsLine := .inl rfl
  margin_isGaps := Header.isGaps_nil

private theorem isFirst_postPlace : postPlace.IsFirst := fun _ => Nat.zero_le _

/-- No comment line stands above the post, which starts the text. -/
theorem header_ne_postPlace (own : Header.Description (withoutMark postAndComment.toList)) :
    own.header ≠ postPlace.header := by
  intro hown
  have hlength := own.length_header_lt
  rw [hown] at hlength
  exact absurd (congrArg List.length postPlace.chars_eq) hlength.ne

/-- The post is accepted with the description of the comment. -/
theorem exists_parse_postAndComment :
    ∃ d, parse {} "<schema>" .primary postAndComment = .ok d ∧
      d.name = "Post" ∧ d.description = "Comment" := by
  have hparts : (parse {} "<schema>" .primary postAndComment).map
      (fun d => (d.name, d.description)) = .ok ("Post", "Comment") := by
    decide +kernel
  cases hd : parse {} "<schema>" .primary postAndComment with
  | error error =>
    rw [hd] at hparts
    cases hparts
  | ok d =>
    rw [hd] at hparts
    exact ⟨d, rfl, Prod.mk.inj (Except.ok.inj hparts)⟩

/-- The first header of the text has no comment line above it, and the text is accepted, with the
description of another model. -/
theorem description_of_another_model :
    postPlace.IsFirst ∧
    (∀ own : Header.Description (withoutMark postAndComment.toList),
      own.header ≠ postPlace.header) ∧
    ∃ d, parse {} "<schema>" .primary postAndComment = .ok d ∧
      d.name = String.ofList postPlace.header.name ∧ d.description = "Comment" :=
  ⟨isFirst_postPlace, header_ne_postPlace, exists_parse_postAndComment⟩

/-- The first description of the text of the post is that of the comment. -/
theorem description_isOwn_iff_post :
    postPlace.IsFirst ∧
    ∃ q : Header.Description (withoutMark postAndComment.toList),
      q.IsFirst ∧ "Comment" = String.ofList q.text ∧ q.header ≠ postPlace.header := by
  obtain ⟨d, hd, -, hdescription⟩ := exists_parse_postAndComment
  obtain ⟨-, q, hq, htext, -⟩ :=
    (description_isOwn_iff {} "<schema>" .primary postAndComment postPlace isFirst_postPlace).1 d hd
  exact ⟨isFirst_postPlace, q, hq, hdescription ▸ htext, header_ne_postPlace q⟩

end Definition

end NestLayers
