import NestLayers.Proofs.FieldLineGrammar
import NestLayers.Proofs.Lines

/-!
# Searching a text for a list of fields

A list of fields is the key `fields` at the start of a word, a colon, an opening bracket and a name,
with blanks between them. A search for it in a text finds the one that starts first, and nothing if
there is none. It does not go across quotes, commas, parentheses and closing brackets, so that a
text can be searched piece by piece between them.
-/

namespace NestLayers.FieldLine

open NestLayers.Text

variable {cs rest : List Char} {name : String}

/-! ## Lists of fields in a text -/

/-- The text is the beginning of a list of fields, up to its first name. -/
def IsListHead (head name : List Char) : Prop :=
  ∃ gap margin inner, IsBlanks gap ∧ IsBlanks margin ∧ IsBlanks inner ∧
    IsRun isWord isWord name ∧
    head = "fields".toList ++ (gap ++ ':' :: (margin ++ '[' :: (inner ++ name)))

/-- The text starts with a list of fields that has the given first name. -/
def StartsList (cs name : List Char) : Prop :=
  ∃ head rest, cs = head ++ rest ∧ IsListHead head name ∧ Stops isWord rest

/-- A word may start behind the text: it does not end in one. -/
def EndsOutsideWord (front : List Char) : Prop :=
  ∀ c ∈ front.getLast?, isWord c = false

/-- Somewhere in the text, at the start of a word, a list of fields starts that has the given first
name. -/
def Lists (cs name : List Char) : Prop :=
  ∃ front rest, cs = front ++ rest ∧ EndsOutsideWord front ∧ StartsList rest name

/-- Of all lists of fields in the text, the one that starts first has the given first name. -/
def ListsFirst (cs name : List Char) : Prop :=
  ∃ front rest, cs = front ++ rest ∧ EndsOutsideWord front ∧ StartsList rest name ∧
    ∀ other tail, cs = other ++ tail → other.length < front.length → EndsOutsideWord other →
      ∀ name, ¬ StartsList tail name

/-- A text is blanks and what follows them. -/
theorem exists_blanks (cs : List Char) :
    ∃ blanks, IsBlanks blanks ∧ cs = blanks ++ cs.dropWhile isBlank :=
  ⟨cs.takeWhile isBlank, fun _ hc => List.mem_takeWhile_imp hc,
    List.takeWhile_append_dropWhile.symm⟩

/-- What is read is the list of fields that a text starts with. -/
theorem startsList_of_fieldsArgument? (h : fieldsArgument? cs = some name) :
    StartsList cs name.toList := by
  obtain ⟨afterKey, hkey, h⟩ := Option.bind_eq_some_iff.mp h
  obtain ⟨afterColon, hcolon, h⟩ := Option.bind_eq_some_iff.mp h
  obtain ⟨afterBracket, hbracket, h⟩ := Option.bind_eq_some_iff.mp h
  obtain ⟨gap, hgap, hgap_eq⟩ := exists_blanks afterKey
  obtain ⟨margin, hmargin, hmargin_eq⟩ := exists_blanks afterColon
  obtain ⟨inner, hinner, hinner_eq⟩ := exists_blanks afterBracket
  rw [append_of_afterStart? hcolon] at hgap_eq
  rw [append_of_afterStart? hbracket] at hmargin_eq
  dsimp only at h
  split at h
  · cases h
  · rename_i hne
    obtain rfl := Option.some.inj h
    have hwords : ∀ c ∈ (afterBracket.dropWhile isBlank).takeWhile isWord, isWord c = true :=
      fun _ hc => List.mem_takeWhile_imp hc
    have hrun : IsRun isWord isWord ((afterBracket.dropWhile isBlank).takeWhile isWord) := by
      generalize (afterBracket.dropWhile isBlank).takeWhile isWord = word at hne hwords
      cases word with
      | nil => exact absurd rfl hne
      | cons c word => exact List.forall_mem_cons.mp hwords
    have hchars : cs = "fields".toList ++ (gap ++ ':' :: (margin ++ '[' :: (inner ++
        (afterBracket.dropWhile isBlank).takeWhile isWord))) ++
          (afterBracket.dropWhile isBlank).dropWhile isWord := by
      simp only [List.append_assoc, List.cons_append, List.takeWhile_append_dropWhile]
      rw [← hinner_eq, append_of_afterStart? hkey, hgap_eq, hmargin_eq]
      rfl
    rw [String.toList_ofList]
    exact ⟨_, _, hchars, ⟨gap, margin, inner, hgap, hmargin, hinner, hrun, rfl⟩,
      stops_dropWhile _ _⟩

/-- The list of fields that a text starts with is read. -/
theorem fieldsArgument?_of_startsList (h : StartsList cs name.toList) :
    fieldsArgument? cs = some name := by
  obtain ⟨_, rest, rfl, ⟨gap, margin, inner, hgap, hmargin, hinner, hname, rfl⟩, hstop⟩ := h
  simp only [List.append_assoc, List.cons_append]
  have hwords : ∀ c ∈ name.toList, isWord c = true := hname.all fun _ => id
  have hcolon : Stops isBlank (':' :: (margin ++ '[' :: (inner ++ (name.toList ++ rest)))) :=
    stops_cons.mpr (by decide)
  have hbracket : Stops isBlank ('[' :: (inner ++ (name.toList ++ rest))) :=
    stops_cons.mpr (by decide)
  have hblank : Stops isBlank (name.toList ++ rest) := hname.stops fun _ => isBlank_of_isWord
  have hne : name.toList ≠ [] := by
    intro hnil
    rw [hnil] at hname
    exact hname
  have hmark (c : Char) (cs : List Char) : afterStart? [c] (c :: cs) = some cs :=
    afterStart?_append [c] cs
  unfold fieldsArgument?
  rw [afterStart?_append, Option.bind_eq_bind, Option.bind_some]
  rw [dropWhile_append_stops hgap hcolon, hmark, Option.bind_some]
  rw [dropWhile_append_stops hmargin hbracket, hmark, Option.bind_some]
  rw [dropWhile_append_stops hinner hblank, takeWhile_append_stops hwords hstop]
  rw [if_neg (by simpa using hne), String.ofList_toList]

/-- The argument is read off the start of a list. -/
theorem fieldsArgument?_eq_some_iff :
    fieldsArgument? cs = some name ↔ StartsList cs name.toList :=
  ⟨startsList_of_fieldsArgument?, fieldsArgument?_of_startsList⟩

/-- Only a text with a bracket starts with a list of fields. -/
theorem fieldsArgument?_of_notMem (h : '[' ∉ cs) : fieldsArgument? cs = none := by
  cases hread : fieldsArgument? cs with
  | none => rfl
  | some name =>
    obtain ⟨_, rest, rfl, ⟨gap, margin, inner, -, -, -, -, rfl⟩, -⟩ :=
      fieldsArgument?_eq_some_iff.mp hread
    simp at h

/-- Only a text with a word in front starts with a list of fields. -/
theorem fieldsArgument?_cons {c : Char} (hc : isWord c = false) :
    fieldsArgument? (c :: cs) = none := by
  cases hread : fieldsArgument? (c :: cs) with
  | none => rfl
  | some name =>
    obtain ⟨_, rest, heq, ⟨gap, margin, inner, -, -, -, -, rfl⟩, -⟩ :=
      fieldsArgument?_eq_some_iff.mp hread
    obtain rfl : c = 'f' := (List.cons.inj heq).1
    exact absurd hc (by decide)

/-! ## The search -/

variable {afterWord : Bool}

/-- The search looks at the start of a text, unless it is inside a word, and then goes on behind
the first character. -/
theorem relationIdFrom?_cons (afterWord : Bool) (c : Char) (cs : List Char) :
    relationIdFrom? afterWord (c :: cs) =
      (if afterWord then none else fieldsArgument? (c :: cs)).or
        (relationIdFrom? (isWord c) cs) := by
  rw [relationIdFrom?]
  cases if afterWord then none else fieldsArgument? (c :: cs) <;> rfl

/-- Nothing is found in a text without a bracket. -/
theorem relationIdFrom?_of_notMem (h : '[' ∉ cs) : relationIdFrom? afterWord cs = none := by
  induction cs generalizing afterWord with
  | nil => rfl
  | cons c cs ih =>
    rw [relationIdFrom?_cons, fieldsArgument?_of_notMem h, ite_self,
      ih fun hmem => h (List.mem_cons_of_mem c hmem), Option.or_none]

/-- What stands before a text and has no word in it is passed over. -/
theorem relationIdFrom?_append {front : List Char} (hfront : ∀ c ∈ front, isWord c = false)
    (cs : List Char) : relationIdFrom? false (front ++ cs) = relationIdFrom? false cs := by
  induction front with
  | nil => rfl
  | cons c front ih =>
    obtain ⟨hc, hfront⟩ := List.forall_mem_cons.mp hfront
    rw [List.cons_append, relationIdFrom?_cons, fieldsArgument?_cons hc, ite_self, hc,
      ih hfront, Option.none_or]

/-- A word ends before another character. -/
theorem relationIdFrom?_true_cons {c : Char} (hc : isWord c = false) (cs : List Char) :
    relationIdFrom? true (c :: cs) = relationIdFrom? false cs := by
  rw [relationIdFrom?_cons, if_pos rfl, hc, Option.none_or]

/-- The rest of a word is passed over. -/
theorem relationIdFrom?_word {word : List Char} (hword : ∀ c ∈ word, isWord c = true)
    (cs : List Char) : relationIdFrom? true (word ++ cs) = relationIdFrom? true cs := by
  induction word with
  | nil => rfl
  | cons c word ih =>
    obtain ⟨hc, hword⟩ := List.forall_mem_cons.mp hword
    rw [List.cons_append, relationIdFrom?_cons, if_pos rfl, hc, ih hword, Option.none_or]

/-- Whether a word goes on behind the text, if one does before it or not. -/
def inWord (afterWord : Bool) (front : List Char) : Bool :=
  (front.getLast?.map isWord).getD afterWord

private theorem inWord_cons (afterWord : Bool) (c : Char) (front : List Char) :
    inWord afterWord (c :: front) = inWord (isWord c) front := by
  unfold inWord
  rw [List.getLast?_cons]
  cases front.getLast? <;> rfl

private theorem inWord_false_iff {front : List Char} :
    inWord false front = false ↔ EndsOutsideWord front := by
  unfold inWord EndsOutsideWord
  cases front.getLast? <;> simp

/-- Nothing is found exactly in a text in which no list of fields starts. -/
theorem relationIdFrom?_eq_none_iff :
    relationIdFrom? afterWord cs = none ↔
      ∀ front rest, cs = front ++ rest → inWord afterWord front = false →
        fieldsArgument? rest = none := by
  induction cs generalizing afterWord with
  | nil =>
    refine ⟨fun _ front rest heq _ => ?_, fun _ => rfl⟩
    obtain ⟨-, rfl⟩ := List.append_eq_nil_iff.mp heq.symm
    rfl
  | cons c cs ih =>
    rw [relationIdFrom?_cons, Option.or_eq_none_iff, ih]
    constructor
    · rintro ⟨hfirst, hrest⟩ front rest heq hlast
      cases front with
      | nil =>
        obtain rfl : c :: cs = rest := heq
        obtain rfl : afterWord = false := hlast
        exact hfirst
      | cons d front =>
        obtain ⟨rfl, rfl⟩ := List.cons.inj heq
        exact hrest front rest rfl (inWord_cons .. ▸ hlast)
    · intro h
      refine ⟨?_, fun front rest heq hlast => h (c :: front) rest (by rw [heq]; rfl) ?_⟩
      · cases afterWord with
        | true => rfl
        | false => exact h [] (c :: cs) rfl rfl
      · rwa [inWord_cons]

/-- What is found is the list of fields that starts first. -/
theorem relationIdFrom?_eq_some_iff :
    relationIdFrom? afterWord cs = some name ↔
      ∃ front rest, cs = front ++ rest ∧ inWord afterWord front = false ∧
        fieldsArgument? rest = some name ∧
        ∀ other tail, cs = other ++ tail → other.length < front.length →
          inWord afterWord other = false → fieldsArgument? tail = none := by
  induction cs generalizing afterWord with
  | nil =>
    refine ⟨fun h => (by cases h), ?_⟩
    rintro ⟨front, rest, heq, -, hread, -⟩
    obtain ⟨-, rfl⟩ := List.append_eq_nil_iff.mp heq.symm
    cases hread
  | cons c cs ih =>
    rw [relationIdFrom?_cons, Option.or_eq_some_iff, ih]
    constructor
    · rintro (hfirst | ⟨hfirst, front, rest, rfl, hlast, hread, hleast⟩)
      · cases afterWord with
        | true => cases hfirst
        | false => exact ⟨[], c :: cs, rfl, rfl, hfirst, fun _ _ _ hlt => by cases hlt⟩
      · refine ⟨c :: front, rest, rfl, by rwa [inWord_cons], hread, ?_⟩
        intro other tail heq hlt hother
        cases other with
        | nil =>
          obtain rfl : c :: (front ++ rest) = tail := heq
          obtain rfl : afterWord = false := hother
          exact hfirst
        | cons d other =>
          obtain ⟨rfl, htail⟩ := List.cons.inj heq
          exact hleast other tail htail (Nat.lt_of_succ_lt_succ hlt) (inWord_cons .. ▸ hother)
    · rintro ⟨front, rest, heq, hlast, hread, hleast⟩
      cases front with
      | nil =>
        obtain rfl : c :: cs = rest := heq
        obtain rfl : afterWord = false := hlast
        exact .inl hread
      | cons d front =>
        obtain ⟨rfl, rfl⟩ := List.cons.inj heq
        refine .inr ⟨?_, front, rest, rfl, inWord_cons .. ▸ hlast, hread, ?_⟩
        · cases afterWord with
          | true => rfl
          | false => exact hleast [] _ rfl (Nat.succ_pos _) rfl
        · intro other tail heq hlt hother
          exact hleast (c :: other) tail (by rw [heq]; rfl) (Nat.succ_lt_succ hlt)
            (by rwa [inWord_cons])

private theorem fieldsArgument?_eq_none_iff :
    fieldsArgument? cs = none ↔ ∀ name, ¬ StartsList cs name := by
  constructor
  · intro hnone name hstarts
    rw [← String.toList_ofList (l := name), ← fieldsArgument?_eq_some_iff, hnone] at hstarts
    cases hstarts
  · intro h
    cases hread : fieldsArgument? cs with
    | none => rfl
    | some name => exact absurd (fieldsArgument?_eq_some_iff.mp hread) (h name.toList)

/-- The search finds nothing exactly in a text that has no list of fields. -/
theorem relationIdFrom?_eq_none_iff_lists :
    relationIdFrom? false cs = none ↔ ∀ name, ¬ Lists cs name := by
  simp only [relationIdFrom?_eq_none_iff, inWord_false_iff, fieldsArgument?_eq_none_iff]
  constructor
  · rintro h name ⟨front, rest, heq, hfront, hstarts⟩
    exact h front rest heq hfront name hstarts
  · intro h front rest heq hfront name hstarts
    exact h name ⟨front, rest, heq, hfront, hstarts⟩

/-- The search finds the first list of fields. -/
theorem relationIdFrom?_eq_some_iff_listsFirst :
    relationIdFrom? false cs = some name ↔ ListsFirst cs name.toList := by
  simp only [relationIdFrom?_eq_some_iff, inWord_false_iff, fieldsArgument?_eq_none_iff,
    fieldsArgument?_eq_some_iff]
  rfl

/-! ## Characters that end a search -/

/-- The characters of a list of fields up to its first name. -/
def isListChar (c : Char) : Bool :=
  isWord c || isBlank c || c == ':' || c == '['

private theorem isWord_of_isListChar {c : Char} (hc : isListChar c = false) : isWord c = false := by
  simp only [isListChar, Bool.or_eq_false_iff] at hc
  exact hc.1.1.1

private theorem IsListHead.isListChar {head name : List Char} (h : IsListHead head name) :
    ∀ c ∈ head, isListChar c = true := by
  obtain ⟨gap, margin, inner, hgap, hmargin, hinner, hname, rfl⟩ := h
  have hkey : ∀ c ∈ "fields".toList, FieldLine.isListChar c = true :=
    List.all_eq_true.mp (by decide +kernel)
  have hblank {c : Char} (hc : isBlank c = true) : FieldLine.isListChar c = true := by
    simp [FieldLine.isListChar, hc]
  have hword : ∀ c ∈ name, FieldLine.isListChar c = true := by
    intro c hc
    simp [FieldLine.isListChar, hname.all (fun _ => id) c hc]
  simp only [List.forall_mem_append, List.forall_mem_cons]
  exact ⟨hkey, fun c hc => hblank (hgap c hc), rfl, fun c hc => hblank (hmargin c hc), rfl,
    fun c hc => hblank (hinner c hc), hword⟩

/-- A list of fields does not go across another character. -/
theorem startsList_append_cons {d : Char} (hd : isListChar d = false) {name : List Char} :
    StartsList (cs ++ d :: rest) name ↔ StartsList cs name := by
  constructor
  · rintro ⟨head, tail, heq, hhead, hstop⟩
    have hnot : d ∉ head := fun hmem => by
      rw [hhead.isListChar d hmem] at hd
      cases hd
    rcases List.append_eq_append_iff.mp heq with ⟨middle, rfl, hmiddle⟩ | ⟨middle, rfl, rfl⟩
    · cases middle with
      | nil => exact ⟨cs, [], (List.append_nil cs).symm, by simpa using hhead, stops_nil _⟩
      | cons c middle =>
        obtain rfl := (List.cons.inj hmiddle).1
        simp at hnot
    · refine ⟨head, middle, rfl, hhead, ?_⟩
      cases middle with
      | nil => exact stops_nil _
      | cons c middle => simpa using hstop
  · rintro ⟨head, tail, rfl, hhead, hstop⟩
    refine ⟨head, tail ++ d :: rest, List.append_assoc .., hhead, hstop.append fun _ => ?_⟩
    exact stops_cons.mpr (isWord_of_isListChar hd)

/-- **Searches are cut.** A search before and behind a character that no list of fields has is two
searches. -/
theorem relationIdFrom?_append_cons {d : Char} (hd : isListChar d = false) (afterWord : Bool)
    (cs rest : List Char) :
    relationIdFrom? afterWord (cs ++ d :: rest) =
      (relationIdFrom? afterWord cs).or (relationIdFrom? false rest) := by
  have hread (cs : List Char) : fieldsArgument? (cs ++ d :: rest) = fieldsArgument? cs := by
    ext name
    simp only [fieldsArgument?_eq_some_iff, startsList_append_cons hd]
  induction cs generalizing afterWord with
  | nil =>
    have hword := isWord_of_isListChar hd
    rw [List.nil_append, relationIdFrom?_cons, fieldsArgument?_cons hword, ite_self, hword]
    rfl
  | cons c cs ih =>
    rw [List.cons_append, relationIdFrom?_cons, relationIdFrom?_cons, ih, ← List.cons_append,
      hread, Option.or_assoc]

/-- The first answer is that of the head or of the tail. -/
theorem findSome?_cons_eq_or {α β : Type} (f : α → Option β) (a : α) (as : List α) :
    (a :: as).findSome? f = (f a).or (as.findSome? f) := by
  rw [List.findSome?_cons]
  cases f a <;> rfl

/-- Searches of texts with commas between them are cut at the commas. -/
theorem relationIdFrom?_intercalate (texts : List (List Char)) :
    relationIdFrom? false ([','].intercalate texts) = texts.findSome? (relationIdFrom? false) := by
  have hcomma : isListChar ',' = false := by decide
  induction texts with
  | nil => rfl
  | cons text texts ih =>
    cases texts with
    | nil =>
      rw [List.intercalate_singleton, findSome?_cons_eq_or, List.findSome?_nil, Option.or_none]
    | cons next texts =>
      rw [List.intercalate_cons_cons, List.append_assoc, List.singleton_append,
        relationIdFrom?_append_cons hcomma, ih, ← findSome?_cons_eq_or]

end NestLayers.FieldLine
