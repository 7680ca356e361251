import Mathlib.Data.List.Forall2
import NestLayers.Generator
import NestLayers.Proofs.PropertyTexts
import NestLayers.Proofs.SessionEffects

/-!
# What is read of the exclusion list

The exclusion list of an application is a list of string literals. Its names are looked for as
texts between two quotes, without telling which quote opens a literal. This finds the literals of
the list up to the first empty one. Behind it each closing quote is taken for an opening one, and the
commas between the literals are read in place of the names.
-/

namespace NestLayers.ExposeList

open NestLayers.Text

/-! ## The parts of a declaration -/

/-- A character of a literal in the list: no quote, backslash or bracket. -/
def isContentChar (c : Char) : Bool :=
  !isQuote c && c != backslash && c != '[' && c != ']'

/-- A literal in the list, with the blanks around it. -/
structure Item where
  before : List Char
  quote : Char
  content : List Char
  after : List Char
  isBlanks_before : IsBlanks before
  isQuote_quote : isQuote quote = true
  isContentChar_content : ∀ c ∈ content, isContentChar c = true
  isBlanks_after : IsBlanks after

/-- The text of a literal with the blanks around it. -/
def Item.text (item : Item) : List Char :=
  item.before ++ item.quote :: (item.content ++ item.quote :: item.after)

/-- The name that a literal stands for. -/
def Item.name (item : Item) : String :=
  trim (String.ofList item.content)

/-- The literal is not empty. -/
def Item.isNamed (item : Item) : Bool :=
  !item.content.isEmpty

/-- The literals between the brackets, with commas between them, and what follows the last one. -/
structure Listing where
  items : List Item
  tail : List Char
  isBlanks_tail : IsBlanks tail ∨
    items ≠ [] ∧ ∃ blanks, IsBlanks blanks ∧ tail = ',' :: blanks

/-- Literals that follow others, and what follows the last one. -/
def following (items : List Item) (tail : List Char) : List Char :=
  items.flatMap (fun item => ',' :: item.text) ++ tail

/-- The text between the brackets. -/
def Listing.text (listing : Listing) : List Char :=
  match listing.items with
  | [] => listing.tail
  | item :: rest => item.text ++ following rest listing.tail

/-- The opening of a declaration up to the bracket, given by its blanks. -/
structure Opening where
  afterStatic : List Char
  afterReadonly : List Char
  afterName : List Char
  afterEquals : List Char
  isBlanks_afterStatic : IsBlanks afterStatic ∧ afterStatic ≠ []
  isBlanks_afterReadonly : IsBlanks afterReadonly ∧ afterReadonly ≠ []
  isBlanks_afterName : IsBlanks afterName
  isBlanks_afterEquals : IsBlanks afterEquals

/-- The text of an opening. -/
def Opening.text (o : Opening) : List Char :=
  "static".toList ++ (o.afterStatic ++ ("readonly".toList ++ (o.afterReadonly ++
    ("APP_DATA_PROCESSING_EXPOSE".toList ++ (o.afterName ++ ("=".toList ++
      (o.afterEquals ++ ['['])))))))

/-- The end of a declaration from the bracket on, given by its blanks. -/
structure Closing where
  afterBracket : List Char
  afterAs : List Char
  afterConst : List Char
  isBlanks_afterBracket : IsBlanks afterBracket
  isBlanks_afterAs : IsBlanks afterAs ∧ afterAs ≠ []
  isBlanks_afterConst : IsBlanks afterConst

/-- The text of the end of a declaration. -/
def Closing.text (c : Closing) : List Char :=
  "]".toList ++ (c.afterBracket ++ ("as".toList ++ (c.afterAs ++
    ("const".toList ++ (c.afterConst ++ [';'])))))

/-- A source that declares the list, and no declaration opens before this one. -/
structure Declaration where
  before : List Char
  opening : Opening
  listing : Listing
  closing : Closing
  after : List Char
  isFirst : ∀ (front back : List Char) (o : Opening),
    before ++ (opening.text ++ (listing.text ++ (closing.text ++ after))) =
      front ++ (o.text ++ back) → before.length ≤ front.length

/-- The text of the source. -/
def Declaration.source (d : Declaration) : List Char :=
  d.before ++ (d.opening.text ++ (d.listing.text ++ (d.closing.text ++ d.after)))

/-! ## Finding the list -/

/-- A mark is taken off the texts that start with it, together with the blanks behind it. -/
theorem afterMark?_eq_some_iff {mark : String} {cs rest : List Char} :
    afterMark? mark cs = some rest ↔
      ∃ blanks, IsBlanks blanks ∧ Stops isBlank rest ∧ cs = mark.toList ++ (blanks ++ rest) := by
  rw [afterMark?, Option.map_eq_some_iff]
  constructor
  · rintro ⟨after, hafter, rfl⟩
    refine ⟨after.takeWhile isBlank, fun c hc => List.mem_takeWhile_imp hc, stops_dropWhile _ _, ?_⟩
    rw [List.takeWhile_append_dropWhile, append_of_afterStart? hafter]
  · rintro ⟨blanks, hblanks, hrest, rfl⟩
    exact ⟨blanks ++ rest, afterStart?_append _ _, dropWhile_append_stops hblanks hrest⟩

/-- A word is taken off like a mark, if there are blanks behind it. -/
theorem afterWord?_eq_some_iff {word : String} {cs rest : List Char} :
    afterWord? word cs = some rest ↔
      ∃ blanks, IsBlanks blanks ∧ blanks ≠ [] ∧ Stops isBlank rest ∧
        cs = word.toList ++ (blanks ++ rest) := by
  simp only [afterWord?, Option.bind_eq_bind, Option.bind_eq_some_iff]
  constructor
  · rintro ⟨after, hafter, h⟩
    split at h
    · rename_i hhead
      obtain rfl := Option.some.inj h
      refine ⟨after.takeWhile isBlank, fun c hc => List.mem_takeWhile_imp hc, ?_,
        stops_dropWhile _ _, ?_⟩
      · cases after with
        | nil => cases hhead
        | cons c after =>
          have hc : isBlank c = true := hhead
          simp [hc]
      · rw [List.takeWhile_append_dropWhile, append_of_afterStart? hafter]
    · cases h
  · rintro ⟨blanks, hblanks, hne, hrest, rfl⟩
    refine ⟨blanks ++ rest, afterStart?_append _ _, ?_⟩
    have hhead : (blanks ++ rest).head?.any isBlank = true := by
      cases blanks with
      | nil => exact absurd rfl hne
      | cons c blanks => exact hblanks c List.mem_cons_self
    rw [if_pos hhead, dropWhile_append_stops hblanks hrest]

/-- The parts of an opening and of what follows it. -/
theorem Opening.text_append (o : Opening) (rest : List Char) :
    o.text ++ rest = "static".toList ++ (o.afterStatic ++ ("readonly".toList ++
      (o.afterReadonly ++ ("APP_DATA_PROCESSING_EXPOSE".toList ++ (o.afterName ++ ("=".toList ++
        (o.afterEquals ++ (['['] ++ rest)))))))) := by
  unfold text
  -- the words are hidden, as they would be compared character by character
  generalize "static".toList = word
  generalize "readonly".toList = word
  generalize "APP_DATA_PROCESSING_EXPOSE".toList = word
  generalize "=".toList = word
  simp only [List.append_assoc]

/-- What follows an opening is found behind it, and nothing else opens a declaration. -/
theorem afterOpening?_eq_some_iff {cs rest : List Char} :
    afterOpening? cs = some rest ↔ ∃ o : Opening, cs = o.text ++ rest := by
  simp only [afterOpening?, Option.bind_eq_bind, Option.bind_eq_some_iff, afterWord?_eq_some_iff,
    afterMark?_eq_some_iff]
  constructor
  · rintro ⟨_, ⟨first, hfirst, hfirst', -, rfl⟩, _, ⟨second, hsecond, hsecond', -, rfl⟩,
      _, ⟨third, hthird, -, rfl⟩, _, ⟨fourth, hfourth, -, rfl⟩, hrest⟩
    refine ⟨⟨first, second, third, fourth, ⟨hfirst, hfirst'⟩, ⟨hsecond, hsecond'⟩, hthird,
      hfourth⟩, ?_⟩
    rw [append_of_afterStart? hrest, Opening.text_append]
  · rintro ⟨o, rfl⟩
    rw [Opening.text_append]
    obtain ⟨hstatic, hstatic'⟩ := o.isBlanks_afterStatic
    obtain ⟨hreadonly, hreadonly'⟩ := o.isBlanks_afterReadonly
    exact ⟨_, ⟨o.afterStatic, hstatic, hstatic', by simp [isBlank], rfl⟩,
      _, ⟨o.afterReadonly, hreadonly, hreadonly', by simp [isBlank], rfl⟩,
      _, ⟨o.afterName, o.isBlanks_afterName, by simp [isBlank], rfl⟩,
      _, ⟨o.afterEquals, o.isBlanks_afterEquals, by simp [isBlank], rfl⟩,
      afterStart?_append ['['] rest⟩

/-- The end of a declaration is found where it stands. -/
theorem isClosing_text (c : Closing) (rest : List Char) : isClosing (c.text ++ rest) = true := by
  rw [isClosing, Option.isSome_iff_exists]
  refine ⟨rest, ?_⟩
  simp only [Option.bind_eq_bind, Option.bind_eq_some_iff, afterWord?_eq_some_iff,
    afterMark?_eq_some_iff, Closing.text, List.append_assoc]
  exact ⟨_, ⟨c.afterBracket, c.isBlanks_afterBracket, by simp [isBlank], rfl⟩,
    _, ⟨c.afterAs, c.isBlanks_afterAs.1, c.isBlanks_afterAs.2, by simp [isBlank], rfl⟩,
    _, ⟨c.afterConst, c.isBlanks_afterConst, by simp [isBlank], rfl⟩,
    afterStart?_append [';'] rest⟩

/-- Only a bracket ends a declaration. -/
theorem isClosing_cons_of_ne {c : Char} (hc : c ≠ ']') (rest : List Char) :
    isClosing (c :: rest) = false := by
  have hnone : afterMark? "]" (c :: rest) = none := by
    simp [afterMark?, afterStart?, hc.symm]
  rw [isClosing, hnone]
  rfl

/-- The list goes up to the first bracket, if the end of the declaration stands there. -/
theorem untilClosing?_append {list : List Char} (hlist : ']' ∉ list) (c : Closing)
    (rest : List Char) : untilClosing? (list ++ (c.text ++ rest)) = some list := by
  induction list with
  | nil =>
    obtain ⟨bracket, closing, hclosing⟩ : ∃ bracket closing, c.text ++ rest = bracket :: closing :=
      ⟨']', _, rfl⟩
    have hfound := isClosing_text c rest
    rw [hclosing] at hfound
    rw [List.nil_append, hclosing, untilClosing?, if_pos hfound]
  | cons d list ih =>
    obtain ⟨hd, hrest⟩ := not_or.mp (mt List.mem_cons.mpr hlist)
    rw [List.cons_append, untilClosing?, isClosing_cons_of_ne (Ne.symm hd), ih hrest]
    rfl

/-- The list of the first declaration is found. -/
theorem find?_source (d : Declaration) (hlist : ']' ∉ d.listing.text) :
    find? d.source = some d.listing.text := by
  have hisFirst := d.isFirst
  unfold Declaration.source
  generalize htext : d.opening.text ++ (d.listing.text ++ (d.closing.text ++ d.after)) = text at *
  generalize d.before = before at *
  induction before with
  | nil =>
    obtain ⟨c, rest, hcons⟩ : ∃ c rest, text = c :: rest := ⟨'s', _, htext.symm⟩
    have hopening := afterOpening?_eq_some_iff.mpr ⟨d.opening, htext.symm⟩
    rw [hcons] at hopening
    rw [List.nil_append, hcons, find?, hopening, Option.bind_some,
      untilClosing?_append hlist d.closing d.after]
  | cons c before ih =>
    have hnone : afterOpening? (c :: (before ++ text)) = none := by
      by_contra hsome
      obtain ⟨rest, hrest⟩ := Option.ne_none_iff_exists'.mp hsome
      obtain ⟨o, ho⟩ := afterOpening?_eq_some_iff.mp hrest
      exact absurd (hisFirst [] rest o ho) (by simp)
    rw [List.cons_append, find?, hnone]
    refine ih fun front back o h => ?_
    have hlater := hisFirst (c :: front) back o (by rw [List.cons_append, List.cons_append, h])
    simpa using hlater

/-! ## Reading the names -/

variable {quote : Char} {cs rest : List Char}

/-- Nothing is read where no quote is. -/
theorem names_append (h : ∀ c ∈ cs, isQuote c = false) : names (cs ++ rest) = names rest := by
  induction cs with
  | nil => rfl
  | cons c cs ih =>
    obtain ⟨hc, hcs⟩ := List.forall_mem_cons.mp h
    rw [List.cons_append, names, if_neg (by simp [hc]), ih hcs]

private theorem names_of_isQuote_eq_false (h : ∀ c ∈ cs, isQuote c = false) : names cs = [] := by
  have hnames : names (cs ++ []) = names [] := names_append h
  rw [List.append_nil, names] at hnames
  exact hnames

/-- What stands between two quotes is read, whatever they are. -/
theorem names_quoted {close : Char} (hquote : isQuote quote = true) (hclose : isQuote close = true)
    (hcs : ∀ c ∈ cs, isQuote c = false) (hne : cs ≠ []) :
    names (quote :: (cs ++ close :: rest)) = trim (String.ofList cs) :: names rest := by
  have htake : (cs ++ close :: rest).takeWhile (!isQuote ·) = cs :=
    takeWhile_append_stops (by simpa using hcs) (by simp [hclose])
  rw [names]
  simp only [htake, hquote]
  rw [if_pos (by simp [hne])]
  simp

/-- An opening quote before another quote is passed over. -/
theorem names_empty {close : Char} (hclose : isQuote close = true) :
    names (quote :: close :: rest) = names (close :: rest) := by
  rw [names]
  simp [hclose]

/-- Nothing is read behind the last quote. -/
theorem names_unclosed (h : ∀ c ∈ cs, isQuote c = false) : names (quote :: cs) = [] := by
  have htake : cs.takeWhile (!isQuote ·) = cs :=
    List.takeWhile_eq_self_iff.mpr (by simpa using h)
  have hnames := names_of_isQuote_eq_false h
  rw [names]
  simp [htake, hnames]

private theorem isQuote_of_isBlank {c : Char} (hc : isBlank c = true) : isQuote c = false :=
  forall_isBlank (isQuote · = false) (by decide +kernel) hc

namespace Item

variable (item : Item)

private theorem isQuote_before : ∀ c ∈ item.before, isQuote c = false :=
  fun c hc => isQuote_of_isBlank (item.isBlanks_before c hc)

private theorem isQuote_after : ∀ c ∈ item.after, isQuote c = false :=
  fun c hc => isQuote_of_isBlank (item.isBlanks_after c hc)

private theorem isQuote_content : ∀ c ∈ item.content, isQuote c = false := by
  intro c hc
  have hcontent := item.isContentChar_content c hc
  simp only [isContentChar, Bool.and_eq_true, Bool.not_eq_true'] at hcontent
  exact hcontent.1.1.1

/-- A literal and the blanks around it have no bracket. -/
theorem bracket_notMem_text : ']' ∉ item.text := by
  have hblank : isBlank ']' = false := by decide
  have hquote : isQuote ']' = false := by decide
  have hcontent : isContentChar ']' = false := by decide
  have hne : ']' ≠ item.quote :=
    ne_of_apply_ne isQuote (by rw [hquote, item.isQuote_quote]; decide)
  have hbefore : ']' ∉ item.before := fun h => by simp [item.isBlanks_before _ h] at hblank
  have hafter : ']' ∉ item.after := fun h => by simp [item.isBlanks_after _ h] at hblank
  have hinside : ']' ∉ item.content := fun h => by simp [item.isContentChar_content _ h] at hcontent
  simp [text, hne, hbefore, hafter, hinside]

end Item

/-- A literal behind a comma, up to what follows it. -/
theorem following_cons (item : Item) (items : List Item) (tail : List Char) :
    following (item :: items) tail = (',' :: item.before) ++ item.quote ::
      (item.content ++ item.quote :: (item.after ++ following items tail)) := by
  simp [following, Item.text]

/-- A comma between blanks is read as a comma. -/
theorem trim_comma {before after : List Char} (hbefore : IsBlanks before) (hafter : IsBlanks after) :
    trim (String.ofList (before ++ ',' :: after)) = "," := by
  have hcomma : isBlank ',' = false := by decide
  have hafter' : dropTail isBlank after = [] := by
    rw [dropTail, List.reverse_eq_nil_iff, List.dropWhile_eq_nil_iff]
    exact fun c hc => hafter c (List.mem_reverse.mp hc)
  rw [trim, String.toList_ofList, trimChars_blanks hbefore, trimChars,
    List.dropWhile_cons_of_neg (by simp [hcomma]), dropTail_cons hcomma, hafter']

section Names

variable {items : List Item} {tail : List Char}

/-- Once a closing quote is taken for an opening one, the commas are read in place of the names. -/
theorem names_astray {after : List Char} (hquote : isQuote quote = true) (hafter : IsBlanks after)
    (htail : ∀ c ∈ tail, isQuote c = false) :
    names (quote :: (after ++ following items tail)) = items.map fun _ => "," := by
  induction items generalizing quote after with
  | nil =>
    refine names_unclosed (List.forall_mem_append.mpr ⟨?_, htail⟩)
    exact fun c hc => isQuote_of_isBlank (hafter c hc)
  | cons item items ih =>
    have hbetween : ∀ c ∈ after ++ ',' :: item.before, isQuote c = false :=
      List.forall_mem_append.mpr ⟨fun c hc => isQuote_of_isBlank (hafter c hc),
        List.forall_mem_cons.mpr ⟨by decide, item.isQuote_before⟩⟩
    rw [following_cons, ← List.append_assoc,
      names_quoted hquote item.isQuote_quote hbetween (by simp),
      trim_comma hafter item.isBlanks_before, names_append item.isQuote_content,
      ih item.isQuote_quote item.isBlanks_after, List.map_cons]

/-- **The names of the list.** The literals up to the first empty one are read, and a comma for each
literal behind it. -/
theorem names_following (htail : ∀ c ∈ tail, isQuote c = false) :
    names (following items tail) =
      (items.takeWhile Item.isNamed).map Item.name ++
        (items.dropWhile Item.isNamed).tail.map fun _ => "," := by
  induction items with
  | nil => exact names_of_isQuote_eq_false htail
  | cons item items ih =>
    have hbefore : ∀ c ∈ ',' :: item.before, isQuote c = false :=
      List.forall_mem_cons.mpr ⟨by decide, item.isQuote_before⟩
    rw [following_cons, names_append hbefore]
    by_cases hempty : item.content = []
    · -- the closing quote of the empty literal opens the next text
      have hunnamed : ¬ item.isNamed = true := by simp [Item.isNamed, hempty]
      rw [hempty, List.nil_append, names_empty item.isQuote_quote,
        names_astray item.isQuote_quote item.isBlanks_after htail,
        List.takeWhile_cons_of_neg hunnamed, List.dropWhile_cons_of_neg hunnamed]
      rfl
    · have hnamed : item.isNamed = true := by simp [Item.isNamed, hempty]
      rw [names_quoted item.isQuote_quote item.isQuote_quote item.isQuote_content hempty,
        names_append item.isQuote_after, ih, List.takeWhile_cons_of_pos hnamed,
        List.dropWhile_cons_of_pos hnamed]
      rfl

end Names

namespace Listing

variable (listing : Listing)

/-- The literals that are found: those before the first empty one. -/
def found : List Item :=
  listing.items.takeWhile Item.isNamed

/-- The literals that are missed: those behind the first empty one. -/
def missed : List Item :=
  (listing.items.dropWhile Item.isNamed).tail

/-- The names that the list has: those of all literals that are not empty. -/
def listed : List String :=
  (listing.items.filter Item.isNamed).map Item.name

/-- What follows the last literal is a comma and blanks. -/
theorem mem_tail {c : Char} (hc : c ∈ listing.tail) : c = ',' ∨ isBlank c = true := by
  rcases listing.isBlanks_tail with htail | ⟨-, blanks, hblanks, htail⟩
  · exact .inr (htail c hc)
  · rw [htail] at hc
    rcases List.mem_cons.mp hc with rfl | hc
    · exact .inl rfl
    · exact .inr (hblanks c hc)

private theorem isQuote_tail : ∀ c ∈ listing.tail, isQuote c = false := by
  intro c hc
  rcases listing.mem_tail hc with rfl | hblank
  · decide
  · exact isQuote_of_isBlank hblank

/-- The names that are read of a list. -/
theorem names_text :
    names listing.text = listing.found.map Item.name ++ listing.missed.map fun _ => "," := by
  rw [found, missed, ← names_following listing.isQuote_tail]
  unfold text
  split
  · rename_i hitems
    rw [hitems]
    rfl
  · rename_i item rest hitems
    have hcomma : ∀ c ∈ [','], isQuote c = false := List.forall_mem_singleton.mpr (by decide)
    rw [hitems, ← names_append hcomma]
    simp [following]

/-- A list has no bracket in it. -/
theorem bracket_notMem_text : ']' ∉ listing.text := by
  have hitems : ']' ∉ following listing.items listing.tail := by
    rw [following, List.mem_append, not_or, List.mem_flatMap]
    refine ⟨fun ⟨item, _, hmem⟩ => ?_, fun hmem => ?_⟩
    · rcases List.mem_cons.mp hmem with hcomma | hmem
      · exact absurd hcomma (by decide)
      · exact item.bracket_notMem_text hmem
    · rcases listing.mem_tail hmem with hcomma | hblank
      · exact absurd hcomma (by decide)
      · exact absurd hblank (by decide)
  unfold text
  split
  · rename_i hnil
    rw [hnil] at hitems
    exact hitems
  · rename_i item rest hcons
    rw [hcons] at hitems
    exact fun hmem => hitems (List.mem_cons_of_mem _ (by simpa [following] using hmem))

/-- The names of the list are those of the literals that are found and of those that are missed. -/
theorem listed_eq : listing.listed =
    listing.found.map Item.name ++ (listing.missed.filter Item.isNamed).map Item.name := by
  have hfound : (listing.items.takeWhile Item.isNamed).filter Item.isNamed =
      listing.items.takeWhile Item.isNamed :=
    List.filter_eq_self.mpr fun item hitem => List.mem_takeWhile_imp hitem
  have hmissed : (listing.items.dropWhile Item.isNamed).filter Item.isNamed =
      (listing.items.dropWhile Item.isNamed).tail.filter Item.isNamed := by
    cases hrest : listing.items.dropWhile Item.isNamed with
    | nil => rfl
    | cons item rest =>
      have hempty : ¬ item.isNamed = true := by
        have hhead := List.head_dropWhile_not Item.isNamed (l := listing.items) (by simp [hrest])
        simpa [hrest] using hhead
      rw [List.filter_cons_of_neg hempty, List.tail_cons]
  rw [listed, found, missed, ← hmissed, ← List.map_append]
  nth_rewrite 1 [← List.takeWhile_append_dropWhile (p := Item.isNamed) (l := listing.items)]
  rw [List.filter_append, hfound]

/-- The names that are read are those of the list exactly if each literal that is missed is a
comma. -/
theorem names_text_eq_listed_iff :
    names listing.text = listing.listed ↔ ∀ item ∈ listing.missed, item.name = "," := by
  rw [names_text, listed_eq, List.append_cancel_left_eq]
  constructor
  · intro h
    have hlength : (listing.missed.filter Item.isNamed).length = listing.missed.length := by
      simpa using (congrArg List.length h).symm
    have hself := List.length_filter_eq_length_iff.mp hlength
    rw [List.filter_eq_self.mpr hself] at h
    exact fun item hitem => (List.map_inj_left.mp h item hitem).symm
  · intro h
    have hself : listing.missed.filter Item.isNamed = listing.missed := by
      refine List.filter_eq_self.mpr fun item hitem => ?_
      by_contra hempty
      have hcontent : item.content = [] := by simpa [Item.isNamed] using hempty
      have hname := h item hitem
      rw [Item.name, hcontent] at hname
      exact absurd hname (by decide)
    rw [hself]
    exact List.map_congr_left fun item hitem => (h item hitem).symm

end Listing

/-- The list of a source is read. -/
theorem read?_source (d : Declaration) :
    read? (String.ofList d.source) = some (names d.listing.text) := by
  rw [read?, String.toList_ofList, find?_source d d.listing.bracket_notMem_text, Option.map_some]

end NestLayers.ExposeList

namespace NestLayers

open NestLayers.Text NestLayers.TypeScript

/-! ## The fields that are left out -/

private theorem FileTree.find_of_at? {tree : FileTree} {path : Path} {entry : Entry}
    (h : tree.at? path = some entry) : tree.find path = .ok (some entry) := by
  unfold at? at h
  unfold find
  split at h
  · rename_i place hplace
    rw [hplace]
    exact congrArg Except.ok h
  · cases h

namespace ExposeList

variable {s : Session} {path : Path} {d : Declaration}

/-- Loading the list of a source file that declares one. -/
theorem load_run (h : s.tree.readText path = .ok (String.ofList d.source)) :
    load path s = .ok (names d.listing.text)
      (s.record (.exclusionsRead path (names d.listing.text))) := by
  obtain ⟨raw, hat⟩ : ∃ raw, s.tree.at? path = some (.file (.text raw)) := by
    unfold FileTree.readText at h
    split at h
    · rename_i raw hat
      exact ⟨raw, hat⟩
    · cases h
    · cases h
  have hisFile : isFile path s = .ok true s := by
    rw [isFile, bind_run, entryAt, look_run, FileTree.find_of_at? hat]
    rfl
  rw [load, bind_run, hisFile]
  dsimp only
  rw [if_pos rfl, bind_run, readText, look_run, h]
  dsimp only
  rw [read?_source]
  rfl

/-- A generator leaves out the fields of its settings and the names that are read of the list. -/
theorem start_run {settings : Settings} (dryRun : Bool)
    (h : s.tree.readText settings.appConfigPath = .ok (String.ofList d.source)) :
    ∃ g s', Generator.start settings dryRun s = .ok g s' ∧
      g.conventions = settings.conventions
        (firstOccurrences (settings.exposeFields ++ names d.listing.text)) := by
  rw [Generator.start, bind_run_of_ok (load_run h)]
  exact ⟨_, _, rfl, rfl⟩

/-- A comma is no name of a field. -/
theorem name_ne_comma {f : Field} (hf : f.IsPlain) : f.name ≠ "," := by
  intro hname
  have hword : isWord ',' = true := hf.name.isWord ',' (by simp [hname])
  exact absurd hword (by decide)

/-- **The exclusion list is read up to its first empty literal.** Of a source file that declares the
list, the names of the literals before the first empty one are read, and a comma for each literal
behind it. This is what the list says exactly if all literals behind it are commas. So a generator
for the project leaves a field out of its models exactly if the settings say so or a literal before
the first empty one names it; what only the literals behind it name is declared. -/
theorem models_leave_out_found {s : Session} {settings : Settings} {d : Declaration}
    (h : s.tree.readText settings.appConfigPath = .ok (String.ofList d.source)) (dryRun : Bool) :
    (∃ read s', load settings.appConfigPath s = .ok read s' ∧
      read = d.listing.found.map Item.name ++ (d.listing.missed.map fun _ => ",") ∧
      (read = d.listing.listed ↔ ∀ item ∈ d.listing.missed, item.name = ",")) ∧
    ∃ g s', Generator.start settings dryRun s = .ok g s' ∧
      ∀ definitions : List Definition,
        (∀ x ∈ definitions, ∃ registry fileId location text,
          Definition.parse registry fileId location text = .ok x) →
        List.Forall₂ (fun x artifact => ∀ f ∈ x.fields,
            (f.name ∈ (propertiesOf artifact.content).map (·.name) ↔
              f.name ∉ settings.exposeFields ∧ ∀ item ∈ d.listing.found, item.name ≠ f.name))
          definitions (Layer.Model.output g.conventions definitions).artifacts := by
  constructor
  · exact ⟨_, _, load_run h, d.listing.names_text, d.listing.names_text_eq_listed_iff⟩
  obtain ⟨g, s', hstart, hconventions⟩ := start_run dryRun h
  refine ⟨g, s', hstart, fun definitions hparsed => ?_⟩
  rw [Layer.Model.output, List.forall₂_map_right_iff, List.forall₂_same]
  intro x hx f hf
  obtain ⟨_, _, _, _, hparse⟩ := hparsed x hx
  have hplain := Definition.isPlain_of_parse hparse
  have hexcluded : f.name ∈ g.conventions.excluded ↔
      f.name ∈ settings.exposeFields ∨ ∃ item ∈ d.listing.found, item.name = f.name := by
    have hcomma : f.name ∉ d.listing.missed.map fun _ => "," := fun hmem => by
      obtain ⟨_, _, hname⟩ := List.mem_map.mp hmem
      exact name_ne_comma (hplain.fields f hf) hname.symm
    rw [hconventions, Settings.conventions, mem_firstOccurrences, List.mem_append,
      d.listing.names_text, List.mem_append, List.mem_map, or_iff_left hcomma]
  rw [Layer.Model.mem_properties_iff _ hplain hf, hexcluded]
  push Not
  rfl

/-! ## A list with an empty literal -/

/-- A literal without blanks around it. -/
def Item.tight (quote : Char) (content : String) (hquote : isQuote quote = true)
    (hcontent : content.toList.all isContentChar = true) : Item :=
  ⟨[], quote, content.toList, [], isBlanks_nil, hquote, List.all_eq_true.mp hcontent, isBlanks_nil⟩

/-- A source that declares a list and nothing else. -/
def Declaration.ofItems (items : List Item) : Declaration where
  before := []
  opening := ⟨[' '], [' '], [' '], [' '], ⟨isBlanks_space, List.cons_ne_nil _ _⟩,
    ⟨isBlanks_space, List.cons_ne_nil _ _⟩, isBlanks_space, isBlanks_space⟩
  listing := ⟨items, [], .inl isBlanks_nil⟩
  closing := ⟨[' '], [' '], [], isBlanks_space, ⟨isBlanks_space, List.cons_ne_nil _ _⟩, isBlanks_nil⟩
  after := ['\n']
  isFirst := fun _ _ _ _ => Nat.zero_le _

/-- A project whose application has a configuration file. -/
def configuredProject (text : String) : Session :=
  { tree := ⟨[(["src"], .directory), (["src", "config.ts"], .file (.text text))]⟩ }

/-- A list with an empty literal before the name of a field. -/
def gapFirst : Declaration :=
  .ofItems [.tight '\'' "" (by decide) (by decide), .tight '\'' "password" (by decide) (by decide)]

/-- A list with an empty literal between the names of two fields. -/
def gapBetween : Declaration :=
  .ofItems [.tight '"' "password" (by decide) (by decide), .tight '\'' "" (by decide) (by decide),
    .tight '"' "token" (by decide) (by decide)]

/-- The unit of a model with two fields that are not to be seen. -/
def accountUnit : String :=
  "// Account\nmodel Account \x7b\n  id Int @id // key\n  password String // hash\n" ++
    "  token String // session\n\x7d\n"

/-- The model of an account. -/
def accountModel : Definition where
  name := "Account"
  description := "Account"
  fields :=
    [{ name := "id", type := .ofDeclared "Int" false, isArray := false, isId := true
       isRequired := true, tags := {}, description := "key", unknownDirectives := [] },
     { name := "password", type := .ofDeclared "String" false, isArray := false, isId := false
       isRequired := true, tags := {}, description := "hash", unknownDirectives := [] },
     { name := "token", type := .ofDeclared "String" false, isArray := false, isId := false
       isRequired := true, tags := {}, description := "session", unknownDirectives := [] }]
  relations := []
  fileId := "account"
  location := .primary

private theorem parse_accountUnit :
    Definition.parse {} "account" .primary accountUnit = .ok accountModel := by
  decide +kernel

/-- The files with the two lists. -/
theorem readText_gaps (d : Declaration) (hd : d = gapFirst ∨ d = gapBetween) :
    (configuredProject (String.ofList d.source)).tree.readText ({} : Settings).appConfigPath =
      .ok (String.ofList d.source) := by
  rcases hd with rfl | rfl <;> decide +kernel

/-- The field that a list names behind an empty literal is declared. -/
theorem password_behind_gap_is_declared :
    String.ofList gapFirst.source =
      "static readonly APP_DATA_PROCESSING_EXPOSE = ['','password'] as const;\n" ∧
    gapFirst.listing.listed = ["password"] ∧
    (∃ s', load ({} : Settings).appConfigPath
      (configuredProject (String.ofList gapFirst.source)) = .ok [","] s') ∧
    ∃ g s', Generator.start {} false (configuredProject (String.ofList gapFirst.source)) = .ok g s' ∧
      "password" ∈
        (propertiesOf (Layer.Model.source g.conventions accountModel).artifact.content).map
          (·.name) := by
  have hfile := readText_gaps gapFirst (.inl rfl)
  have hread : names gapFirst.listing.text = [","] := by
    rw [Listing.names_text]
    decide
  have hload := load_run hfile
  obtain ⟨g, s', hstart, hconventions⟩ := start_run false hfile
  rw [hread] at hload hconventions
  refine ⟨by decide, by decide, ⟨_, hload⟩, g, s', hstart, ?_⟩
  have hplain := Definition.isPlain_of_parse parse_accountUnit
  have hpassword : accountModel.fields[1] ∈ accountModel.fields := List.getElem_mem _
  refine (Layer.Model.mem_properties_iff _ hplain hpassword).mpr ?_
  rw [hconventions]
  decide

/-- The list names two fields; one is left out, and the one behind the empty literal is declared. -/
theorem models_leave_out_found_password :
    gapBetween.listing.listed = ["password", "token"] ∧
    (∃ s', load ({} : Settings).appConfigPath
      (configuredProject (String.ofList gapBetween.source)) = .ok ["password", ","] s') ∧
    ∃ g s', Generator.start {} true (configuredProject (String.ofList gapBetween.source)) = .ok g s' ∧
      ∃ declared, declared = (propertiesOf
          (Layer.Model.source g.conventions accountModel).artifact.content).map (·.name) ∧
        "id" ∈ declared ∧ "password" ∉ declared ∧ "token" ∈ declared := by
  obtain ⟨⟨read, s₁, hload, hread, -⟩, g, s₂, hstart, hmodels⟩ :=
    models_leave_out_found (readText_gaps gapBetween (.inr rfl)) true
  have hnames : read = ["password", ","] := hread.trans (by decide)
  have hmodel := (List.forall₂_cons.mp (hmodels [accountModel]
    (List.forall_mem_singleton.mpr ⟨_, _, _, _, parse_accountUnit⟩))).1
  have hfields : ∀ i : Fin 3, accountModel.fields[i] ∈ accountModel.fields :=
    fun i => List.getElem_mem _
  refine ⟨by decide, ⟨s₁, hnames ▸ hload⟩, g, s₂, hstart, _, rfl, ?_, ?_, ?_⟩
  · exact (hmodel _ (hfields 0)).mpr (by decide)
  · exact mt (hmodel _ (hfields 1)).mp (by decide)
  · exact (hmodel _ (hfields 2)).mpr (by decide)

end ExposeList

end NestLayers
