import NestLayers.Proofs.ParsedDefinition

/-!
# Where the headers of a text stand

A header is looked for at the start of each line, and the first line that has one is taken. Here
a header is taken apart into its blanks and its name, and the places of a text where a line
starts are described without the search, so that the header that is found is the first one and
its number is the number of line feeds above it.
-/

namespace NestLayers.Header

open NestLayers.Text

/-- What follows this part of a text starts a line. -/
def StartsLine (above : List Char) : Prop :=
  above = [] ∨ ∃ lines, above = lines ++ ['\n']

/-- The later part of whole lines is whole lines. -/
theorem StartsLine.of_cons {c : Char} {above : List Char} (h : StartsLine (c :: above)) :
    StartsLine above := by
  rcases h with h | ⟨lines, h⟩
  · cases h
  · cases lines with
    | nil => exact .inl (List.cons.inj h).2
    | cons d lines => exact .inr ⟨lines, (List.cons.inj h).2⟩

/-- A single character ends a line if it is a line feed. -/
theorem StartsLine.eq_newline {c : Char} (h : StartsLine [c]) : c = '\n' := by
  rcases h with h | ⟨lines, h⟩
  · cases h
  · cases lines with
    | nil => exact (List.cons.inj h).1
    | cons d lines => simp at h

/-- Of two parts of a text that end before a line, the longer one has whole lines more. -/
theorem StartsLine.eq_or_append {above later : List Char} (hlater : StartsLine later)
    (h : above <+: later) : later = above ∨ ∃ lines, later = above ++ (lines ++ ['\n']) := by
  obtain ⟨lines, rfl⟩ := h
  rcases List.eq_nil_or_concat lines with rfl | ⟨lines, last, rfl⟩
  · exact .inl (List.append_nil above)
  · rcases hlater with hnil | ⟨before, hbefore⟩
    · simp at hnil
    · rw [List.concat_eq_append, ← List.append_assoc] at hbefore
      obtain ⟨-, hlast⟩ := List.append_inj' hbefore rfl
      obtain rfl := (List.cons.inj hlast).1
      exact .inr ⟨lines, by rw [List.concat_eq_append]⟩

/-- A part of the text that follows a line feed comes with the number of line feeds before it. -/
theorem mem_zipIdx_afterNewlines {cs start : List Char} {line k : Nat} :
    (start, line) ∈ (afterNewlines cs).zipIdx k ↔
      ∃ lines, lines ++ '\n' :: start = cs ∧ k + lines.count '\n' = line := by
  induction cs generalizing k with
  | nil => simp [afterNewlines]
  | cons c rest ih =>
    -- a nonempty part above the line starts with the first character
    have hcons : (∃ lines, lines ++ '\n' :: start = c :: rest ∧ k + lines.count '\n' = line) ↔
        (c = '\n' ∧ rest = start ∧ k = line) ∨
          ∃ lines, lines ++ '\n' :: start = rest ∧ k + (c :: lines).count '\n' = line := by
      constructor
      · rintro ⟨lines, hlines, hline⟩
        cases lines with
        | nil =>
          obtain ⟨rfl, rfl⟩ := List.cons.inj hlines
          exact .inl ⟨rfl, rfl, hline⟩
        | cons d lines =>
          obtain ⟨rfl, hrest⟩ := List.cons.inj hlines
          exact .inr ⟨lines, hrest, hline⟩
      · rintro (⟨rfl, rfl, hline⟩ | ⟨lines, hlines, hline⟩)
        · exact ⟨[], rfl, hline⟩
        · exact ⟨c :: lines, by rw [List.cons_append, hlines], hline⟩
    rw [hcons, afterNewlines]
    split
    · rename_i hc
      rw [List.zipIdx_cons, List.mem_cons, ih]
      simp [hc, Nat.add_assoc, Nat.add_comm 1, eq_comm]
    · rename_i hc
      rw [ih]
      simp [hc]

/-- The lines that a text starts are those behind a line feed and the first one. -/
theorem mem_zipIdx_lineStarts {cs start : List Char} {line : Nat} :
    (start, line) ∈ (lineStarts cs).zipIdx ↔
      ∃ above, above ++ start = cs ∧ StartsLine above ∧ above.count '\n' = line := by
  rw [lineStarts, List.zipIdx_cons, List.mem_cons, mem_zipIdx_afterNewlines]
  constructor
  · rintro (hfirst | ⟨lines, hlines, hline⟩)
    · obtain ⟨rfl, rfl⟩ := Prod.mk.inj hfirst
      exact ⟨[], rfl, .inl rfl, rfl⟩
    · exact ⟨lines ++ ['\n'], by simpa using hlines, .inr ⟨lines, rfl⟩, by
        simpa [Nat.add_comm] using hline⟩
  · rintro ⟨above, habove, rfl | ⟨lines, rfl⟩, hline⟩
    · exact .inl (by simp_all)
    · exact .inr ⟨lines, by simpa using habove, by simpa [Nat.add_comm] using hline⟩

/-- The starts of lines are listed from the first to the last. -/
theorem pairwise_lineStarts (cs : List Char) :
    (lineStarts cs).Pairwise fun start later => later.length < start.length := by
  have hshorter {cs start : List Char} (h : start ∈ afterNewlines cs) :
      start.length < cs.length := by
    obtain ⟨line, hline⟩ := List.mem_iff_getElem?.mp h
    obtain ⟨lines, rfl, -⟩ := mem_zipIdx_afterNewlines.mp
      (List.mem_zipIdx_iff_getElem?.mpr hline)
    simp only [List.length_append, List.length_cons]
    omega
  rw [lineStarts, List.pairwise_cons]
  refine ⟨fun start hstart => hshorter hstart, ?_⟩
  induction cs with
  | nil => exact .nil
  | cons c rest ih =>
    rw [afterNewlines]
    split
    · exact List.pairwise_cons.mpr ⟨fun start hstart => hshorter hstart, ih⟩
    · exact ih

/-- In a list that is ordered by a measure, the first hit is the hit of greatest measure. -/
theorem findSome?_eq_some_iff_of_pairwise {α β : Type} {f : α → Option β} {size : α → Nat}
    {l : List α} {b : β} (hl : l.Pairwise fun x y => size y < size x) :
    l.findSome? f = some b ↔
      ∃ x ∈ l, f x = some b ∧ ∀ y ∈ l, (f y).isSome = true → size y ≤ size x := by
  induction l with
  | nil => simp
  | cons x l ih =>
    obtain ⟨hx, hl⟩ := List.pairwise_cons.mp hl
    rw [List.findSome?_cons]
    cases hfx : f x with
    | none => simp [hfx, ih hl]
    | some a =>
      constructor
      · rintro ⟨⟩
        refine ⟨x, List.mem_cons_self, hfx, List.forall_mem_cons.mpr ⟨fun _ => le_rfl, ?_⟩⟩
        exact fun y hy _ => (hx y hy).le
      · rintro ⟨y, hy, hfy, hmax⟩
        rcases List.mem_cons.mp hy with rfl | hy
        · rw [← hfx, hfy]
        · have hle := hmax x List.mem_cons_self (by simp [hfx])
          exact absurd (hx y hy) (by omega)

/-- What is found by trying the starts of lines is what is found at the first line where there is
anything to find. -/
theorem findSome?_lineStarts {α : Type} {f : List Char × Nat → Option α} {cs : List Char} {a : α} :
    (lineStarts cs).zipIdx.findSome? f = some a ↔
      ∃ above start, above ++ start = cs ∧ StartsLine above ∧
        f (start, above.count '\n') = some a ∧
        ∀ above' start', above' ++ start' = cs → StartsLine above' →
          (f (start', above'.count '\n')).isSome = true → above.length ≤ above'.length := by
  have hordered : (lineStarts cs).zipIdx.Pairwise fun x y => y.1.length < x.1.length := by
    have h := pairwise_lineStarts cs
    rwa [← List.zipIdx_map_fst 0 (lineStarts cs), List.pairwise_map] at h
  -- of two parts of one text the longer one has less above it
  have hlength {above start above' start' : List Char} (h : above ++ start = cs)
      (h' : above' ++ start' = cs) :
      start'.length ≤ start.length ↔ above.length ≤ above'.length := by
    have hsum := congrArg List.length (h.trans h'.symm)
    simp only [List.length_append] at hsum
    omega
  rw [findSome?_eq_some_iff_of_pairwise hordered]
  constructor
  · rintro ⟨⟨start, line⟩, hmem, hf, hfirst⟩
    obtain ⟨above, habove, hstarts, rfl⟩ := mem_zipIdx_lineStarts.mp hmem
    refine ⟨above, start, habove, hstarts, hf, fun above' start' habove' hstarts' hf' => ?_⟩
    exact (hlength habove habove').mp
      (hfirst _ (mem_zipIdx_lineStarts.mpr ⟨above', habove', hstarts', rfl⟩) hf')
  · rintro ⟨above, start, habove, hstarts, hf, hfirst⟩
    refine ⟨_, mem_zipIdx_lineStarts.mpr ⟨above, habove, hstarts, rfl⟩, hf, ?_⟩
    rintro ⟨start', line⟩ hmem' hf'
    obtain ⟨above', habove', hstarts', rfl⟩ := mem_zipIdx_lineStarts.mp hmem'
    exact (hlength habove habove').mpr (hfirst above' start' habove' hstarts' hf')

/-- The header of a model at the start of a text: the blanks around its name, the name, and
everything after the opening brace. -/
@[ext] structure Layout where
  gap : List Char
  name : List Char
  blanks : List Char
  rest : List Char
  gap_isBlanks : IsBlanks gap
  gap_ne_nil : gap ≠ []
  name_isModelName : IsModelName name
  blanks_isBlanks : IsBlanks blanks

namespace Layout

/-- The keyword of a header. -/
def keyword : List Char := ['m', 'o', 'd', 'e', 'l']

private theorem space_ne_nil : [' '] ≠ [] := by decide

/-- A header with single spaces in it. -/
def spaced (name rest : List Char) (hname : IsModelName name) : Layout where
  gap := [' ']
  name
  blanks := [' ']
  rest
  gap_isBlanks := isBlanks_space
  gap_ne_nil := space_ne_nil
  name_isModelName := hname
  blanks_isBlanks := isBlanks_space

/-- The text that starts with the header. -/
def chars (h : Layout) : List Char :=
  keyword ++ (h.gap ++ (h.name ++ (h.blanks ++ openingBrace :: h.rest)))

/-- The blanks before the name end with it. -/
theorem stops_name (h : Layout) (rest : List Char) : Stops isBlank (h.name ++ rest) := by
  obtain ⟨hne, hword⟩ := h.name_isModelName
  cases hname : h.name with
  | nil => exact absurd hname hne
  | cons c cs => simpa using isBlank_of_isWord (hword c (by simp [hname]))

/-- The name ends before the brace. -/
theorem stops_blanks (h : Layout) : Stops isWord (h.blanks ++ openingBrace :: h.rest) :=
  h.blanks_isBlanks.stops (fun _ => isWord_of_isBlank) (by simp; decide)

/-- A text starts with a header in one way. -/
theorem chars_injective : Function.Injective chars := by
  intro h h' heq
  have hbrace : isBlank openingBrace = false := by decide
  have htext := List.append_cancel_left heq
  obtain ⟨hgap, htext⟩ := append_stops_inj h.gap_isBlanks (h.stops_name _) h'.gap_isBlanks
    (h'.stops_name _) htext
  obtain ⟨hname, htext⟩ := append_stops_inj h.name_isModelName.2 h.stops_blanks
    h'.name_isModelName.2 h'.stops_blanks htext
  obtain ⟨hblanks, htext⟩ := append_stops_inj h.blanks_isBlanks (by simpa using hbrace)
    h'.blanks_isBlanks (by simpa using hbrace) htext
  exact Layout.ext hgap hname hblanks (List.cons.inj htext).2

end Layout

/-- The name at the start of a text is that of the header it starts with. -/
theorem nameAt?_chars (h : Layout) : nameAt? h.chars = some (String.ofList h.name) := by
  have hkeyword : afterStart? "model".toList h.chars =
      some (h.gap ++ (h.name ++ (h.blanks ++ openingBrace :: h.rest))) :=
    afterStart?_append Layout.keyword _
  have hgap : (h.gap ++ (h.name ++ (h.blanks ++ openingBrace :: h.rest))).head?.any isBlank =
      true := by
    cases hgap : h.gap with
    | nil => exact absurd hgap h.gap_ne_nil
    | cons c cs => simpa using h.gap_isBlanks c (by simp [hgap])
  have hbrace : Stops isBlank (openingBrace :: h.rest) := by
    simp
    decide
  have hafter := dropWhile_append_stops h.gap_isBlanks
    (h.stops_name (h.blanks ++ openingBrace :: h.rest))
  have hname := takeWhile_append_stops h.name_isModelName.2 h.stops_blanks
  have hend := dropWhile_append_stops h.name_isModelName.2 h.stops_blanks
  simp only [nameAt?, hkeyword, Option.bind_eq_bind, Option.bind_some, hgap, if_true, hafter, hname,
    hend, dropWhile_append_stops h.blanks_isBlanks hbrace]
  simp [h.name_isModelName.1]

/-- **A name is found at the start of exactly the texts that start with a header.** -/
theorem nameAt?_eq_some_iff {cs : List Char} {name : String} :
    nameAt? cs = some name ↔ ∃ h : Layout, h.chars = cs ∧ String.ofList h.name = name := by
  constructor
  · intro hname
    have hmodel := isModelName_of_nameAt? hname
    simp only [nameAt?, Option.bind_eq_bind, Option.bind_eq_some_iff] at hname
    obtain ⟨after, hafter, hname⟩ := hname
    split at hname
    · rename_i hgap
      split at hname
      · cases hname
      split at hname
      · rename_i hbrace
        obtain rfl := Option.some.inj hname
        obtain ⟨rest, hrest⟩ := List.head?_eq_some_iff.mp hbrace
        have hgapNe : after.takeWhile isBlank ≠ [] := by
          cases after with
          | nil => cases hgap
          | cons c cs =>
            have hc : isBlank c = true := hgap
            rw [List.takeWhile_cons_of_pos hc]
            exact List.cons_ne_nil _ _
        refine ⟨⟨after.takeWhile isBlank, (after.dropWhile isBlank).takeWhile isWord,
          ((after.dropWhile isBlank).dropWhile isWord).takeWhile isBlank, rest,
          fun c hc => List.mem_takeWhile_imp hc, hgapNe, by simpa using hmodel,
          fun c hc => List.mem_takeWhile_imp hc⟩, ?_, rfl⟩
        dsimp only [Layout.chars]
        rw [← hrest, List.takeWhile_append_dropWhile, List.takeWhile_append_dropWhile,
          List.takeWhile_append_dropWhile, append_of_afterStart? hafter]
        rfl
      · cases hname
    · cases hname
  · rintro ⟨h, rfl, rfl⟩
    exact nameAt?_chars h

/-- The text consists of spaces and tabulators. -/
def IsGaps (cs : List Char) : Prop :=
  ∀ c ∈ cs, isGap c = true

/-- It is decided by reading the gaps. -/
instance (cs : List Char) : Decidable (IsGaps cs) :=
  List.decidableBAll _ cs

/-- The empty text is made of gaps. -/
theorem isGaps_nil : IsGaps [] := by decide

/-- A header is not indented any further. -/
theorem Layout.stops_chars {p : Char → Bool} (hp : p 'm' = false) (h : Layout) :
    Stops p h.chars := by
  simpa [chars, keyword] using hp

/-- A header in a text. It starts a line, after a margin. -/
structure Place (cs : List Char) where
  above : List Char
  margin : List Char
  header : Layout
  chars_eq : above ++ (margin ++ header.chars) = cs
  startsLine : StartsLine above
  margin_isGaps : IsGaps margin

/-- No header of the text stands above this one. -/
def Place.IsFirst {cs : List Char} (p : Place cs) : Prop :=
  ∀ q : Place cs, p.above.length ≤ q.above.length

/-- **The header that is found is the first one of the text.** Its number is the number of line
feeds above it. -/
theorem find?_eq_some_iff {cs : List Char} {header : Header} :
    find? cs = some header ↔
      ∃ p : Place cs, p.IsFirst ∧ String.ofList p.header.name = header.name ∧
        p.above.count '\n' = header.line := by
  have hplace (p : Place cs) : nameAt? ((p.margin ++ p.header.chars).dropWhile isGap) =
      some (String.ofList p.header.name) := by
    rw [dropWhile_append_stops p.margin_isGaps (p.header.stops_chars (by decide)), nameAt?_chars]
  have hmargin {above start : List Char} {h : Layout} (habove : above ++ start = cs)
      (hchars : h.chars = start.dropWhile isGap) :
      above ++ (start.takeWhile isGap ++ h.chars) = cs := by
    rw [hchars, List.takeWhile_append_dropWhile, habove]
  rw [find?, findSome?_lineStarts]
  dsimp only
  constructor
  · rintro ⟨above, start, habove, hstarts, hheader, hfirst⟩
    obtain ⟨name, hname, rfl⟩ := Option.map_eq_some_iff.mp hheader
    obtain ⟨h, hchars, rfl⟩ := nameAt?_eq_some_iff.mp hname
    refine ⟨⟨above, start.takeWhile isGap, h, hmargin habove hchars, hstarts,
      fun c hc => List.mem_takeWhile_imp hc⟩, fun q => ?_, rfl, rfl⟩
    refine hfirst q.above _ q.chars_eq q.startsLine ?_
    rw [hplace q]
    rfl
  · rintro ⟨p, hfirst, hname, hline⟩
    refine ⟨p.above, _, p.chars_eq, p.startsLine, ?_, ?_⟩
    · rw [hplace p, hname, hline]
      rfl
    · intro above' start' habove' hstarts' hheader'
      rw [Option.isSome_map] at hheader'
      obtain ⟨name, hname'⟩ := Option.isSome_iff_exists.mp hheader'
      obtain ⟨h, hchars, -⟩ := nameAt?_eq_some_iff.mp hname'
      exact hfirst ⟨above', start'.takeWhile isGap, h, hmargin habove' hchars, hstarts',
        fun c hc => List.mem_takeWhile_imp hc⟩

/-- A header whose number is that of the header that is found is the first one. -/
theorem Place.isFirst_of_find? {cs : List Char} (p : Place cs) {header : Header}
    (h : find? cs = some header) (hline : p.above.count '\n' = header.line) : p.IsFirst := by
  obtain ⟨q, hfirst, -, hq⟩ := find?_eq_some_iff.mp h
  have hprefix := List.prefix_of_prefix_length_le ⟨_, q.chars_eq⟩ ⟨_, p.chars_eq⟩ (hfirst p)
  rcases p.startsLine.eq_or_append hprefix with heq | ⟨lines, heq⟩
  · intro r
    rw [heq]
    exact hfirst r
  · have hcount := congrArg (List.count '\n') heq
    simp only [List.count_append, List.count_singleton_self] at hcount
    omega

end NestLayers.Header
