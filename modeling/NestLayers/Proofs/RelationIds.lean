import NestLayers.Definition.Basic
import NestLayers.Proofs.ListSearch

/-!
# Where the id of a relation is read from

The `@relation` attribute names the field that stores a relation as the first name of the list that
is given for the key `fields`. It is looked for in the text of the attribute as a whole, and the
search can be told argument by argument. The list of `fields` is found if it comes first, but a
quoted string in front of it that reads like such a list is found in its place.
-/

namespace NestLayers.FieldLine

open NestLayers.Text

variable {cs : List Char} {name : String}

/-! ## Arguments of a relation -/

/-- A quoted string among arguments. -/
structure QuotedPiece where
  quote : Char
  body : List Char
  isQuote : IsQuote quote
  isQuoted : IsQuoted quote body

/-- The string with its quotes. -/
def QuotedPiece.chars (p : QuotedPiece) : List Char :=
  p.quote :: (p.body ++ [p.quote])

/-- A name in a list, with the blanks around it. -/
structure ListedName where
  before : List Char
  name : List Char
  after : List Char
  isBlanks_before : IsBlanks before
  isRun_name : IsRun isWord isWord name
  isBlanks_after : IsBlanks after

/-- The text of a name. -/
def ListedName.chars (n : ListedName) : List Char :=
  n.before ++ (n.name ++ n.after)

/-- The characters of a value that is neither a string nor a list. -/
def isPlainChar (c : Char) : Bool :=
  !(['(', ')', '[', ']', ',', ':', doubleQuote, apostrophe].contains c)

/-- The value of an argument. -/
inductive ArgumentValue
  | string (piece : QuotedPiece)
  | plain (chars : List Char) (ne_nil : chars ≠ []) (plain : ∀ c ∈ chars, isPlainChar c = true)
  | names (margin : List Char) (items : List ListedName) (isBlanks_margin : IsBlanks margin)

/-- What stands between the brackets of a list of names. -/
def listChars (margin : List Char) (items : List ListedName) : List Char :=
  margin ++ [','].intercalate (items.map ListedName.chars)

/-- The text of a value. -/
def ArgumentValue.chars : ArgumentValue → List Char
  | .string piece => piece.chars
  | .plain chars _ _ => chars
  | .names margin items _ => '[' :: (listChars margin items ++ [']'])

/-- The key of an argument, with the blanks before and behind its colon. -/
structure ArgumentKey where
  name : List Char
  gap : List Char
  margin : List Char
  isRun_name : IsRun isWord isWord name
  isBlanks_gap : IsBlanks gap
  isBlanks_margin : IsBlanks margin

/-- The text of a key. -/
def ArgumentKey.chars (k : ArgumentKey) : List Char :=
  k.name ++ (k.gap ++ ':' :: k.margin)

/-- An argument, with the blanks around it. Only a string may stand without a key. -/
structure RelationArgument where
  before : List Char
  key : Option ArgumentKey
  value : ArgumentValue
  after : List Char
  isBlanks_before : IsBlanks before
  isBlanks_after : IsBlanks after
  isString_of_key : key = none → ∃ piece, value = .string piece

namespace RelationArgument

/-- What stands before the value of an argument. -/
def front (a : RelationArgument) : List Char :=
  a.before ++ (a.key.map ArgumentKey.chars).getD []

/-- The text of an argument. -/
def chars (a : RelationArgument) : List Char :=
  a.front ++ (a.value.chars ++ a.after)

/-- The first name of the list, if the argument is a list for the key `fields`. -/
def declared (a : RelationArgument) : Option String :=
  match a.key, a.value with
  | some key, .names _ items _ =>
    if key.name = "fields".toList then items.head?.map fun n => String.ofList n.name else none
  | _, _ => none

/-- The name that a search finds in the text of the argument's string, if it has one. -/
def hidden (a : RelationArgument) : Option String :=
  match a.value with
  | .string piece => relationIdFrom? false piece.body
  | _ => none

end RelationArgument

/-- The arguments of an attribute, in parentheses and with commas between them. -/
structure RelationArguments where
  margin : List Char
  items : List RelationArgument
  isBlanks_margin : IsBlanks margin

namespace RelationArguments

/-- The text of all arguments. -/
def chars (a : RelationArguments) : List Char :=
  '(' :: (a.margin ++ ([','].intercalate (a.items.map RelationArgument.chars) ++ [')']))

/-- The first name that is listed for the key `fields`. -/
def declared (a : RelationArguments) : Option String :=
  a.items.findSome? RelationArgument.declared

/-- The first name that a search finds in a string, if no name is listed for the key `fields`
before it. -/
def hidden (a : RelationArguments) : Option String :=
  (a.items.takeWhile (·.declared.isNone)).findSome? RelationArgument.hidden

end RelationArguments

/-! ## What is found in arguments -/

private theorem bracket_notMem_of_isBlanks (h : IsBlanks cs) : '[' ∉ cs :=
  fun hmem => absurd (h '[' hmem) (by decide)

private theorem bracket_notMem_of_isRun (h : IsRun isWord isWord cs) : '[' ∉ cs :=
  fun hmem => absurd (h.all (fun _ => id) '[' hmem) (by decide)

private theorem ArgumentKey.bracket_notMem (k : ArgumentKey) : '[' ∉ k.chars := by
  simp only [chars, List.mem_append, List.mem_cons, not_or]
  exact ⟨bracket_notMem_of_isRun k.isRun_name, bracket_notMem_of_isBlanks k.isBlanks_gap,
    by decide, bracket_notMem_of_isBlanks k.isBlanks_margin⟩

private theorem RelationArgument.bracket_notMem_front (a : RelationArgument) : '[' ∉ a.front := by
  rw [front, List.mem_append, not_or]
  refine ⟨bracket_notMem_of_isBlanks a.isBlanks_before, ?_⟩
  cases a.key with
  | none => exact List.not_mem_nil
  | some key => exact key.bracket_notMem

private theorem bracket_notMem_listChars {margin : List Char} (hmargin : IsBlanks margin)
    (items : List ListedName) : '[' ∉ listChars margin items := by
  rw [listChars, List.mem_append, not_or]
  refine ⟨bracket_notMem_of_isBlanks hmargin, notMem_intercalate (by decide) ?_⟩
  intro text htext
  obtain ⟨item, -, rfl⟩ := List.mem_map.mp htext
  simp only [ListedName.chars, List.mem_append, not_or]
  exact ⟨bracket_notMem_of_isBlanks item.isBlanks_before, bracket_notMem_of_isRun item.isRun_name,
    bracket_notMem_of_isBlanks item.isBlanks_after⟩

/-- The text starts with a name, after blanks. -/
def StartsName (cs name : List Char) : Prop :=
  ∃ blanks rest, IsBlanks blanks ∧ IsRun isWord isWord name ∧ Stops isWord rest ∧
    cs = blanks ++ (name ++ rest)

/-- Behind a key, a list of fields starts exactly if the key is `fields`, and its first name is the
one behind the bracket. -/
theorem startsList_key_iff (k : ArgumentKey) {inner name : List Char} :
    StartsList (k.chars ++ '[' :: inner) name ↔
      k.name = "fields".toList ∧ StartsName inner name := by
  have hkey : ∀ c ∈ "fields".toList, isWord c = true := List.all_eq_true.mp (by decide +kernel)
  have hwords : ∀ c ∈ k.name, isWord c = true := k.isRun_name.all fun _ => id
  have hcolon_word (tail : List Char) : Stops isWord (':' :: tail) := stops_cons.mpr (by decide)
  have hcolon (tail : List Char) : Stops isBlank (':' :: tail) := stops_cons.mpr (by decide)
  have hbracket (tail : List Char) : Stops isBlank ('[' :: tail) := stops_cons.mpr (by decide)
  simp only [ArgumentKey.chars, List.append_assoc, List.cons_append]
  constructor
  · rintro ⟨_, rest, heq, ⟨gap, margin, blanks, hgap, hmargin, hblanks, hname, rfl⟩, hstop⟩
    simp only [List.append_assoc, List.cons_append] at heq
    obtain ⟨hkey_eq, heq⟩ := append_stops_inj hwords
      (k.isBlanks_gap.stops (fun _ => isWord_of_isBlank) (hcolon_word _)) hkey
      (hgap.stops (fun _ => isWord_of_isBlank) (hcolon_word _)) heq
    obtain ⟨-, heq⟩ := append_stops_inj k.isBlanks_gap (hcolon _) hgap (hcolon _) heq
    obtain ⟨-, heq⟩ := append_stops_inj k.isBlanks_margin (hbracket _) hmargin (hbracket _)
      (List.cons.inj heq).2
    exact ⟨hkey_eq, blanks, rest, hblanks, hname, hstop, (List.cons.inj heq).2⟩
  · rintro ⟨hkey_eq, blanks, rest, hblanks, hname, hstop, rfl⟩
    refine ⟨_, rest, ?_, ⟨k.gap, k.margin, blanks, k.isBlanks_gap, k.isBlanks_margin, hblanks,
      hname, rfl⟩, hstop⟩
    rw [hkey_eq]
    simp only [List.append_assoc, List.cons_append]

/-- A name in a list stands in front of everything that follows it. -/
theorem exists_intercalate_eq (item : ListedName) (items : List ListedName) :
    ∃ rest, Stops isWord rest ∧
      [','].intercalate ((item :: items).map ListedName.chars) =
        item.before ++ (item.name ++ rest) := by
  have hafter {rest : List Char} (hrest : Stops isWord rest) : Stops isWord (item.after ++ rest) :=
    item.isBlanks_after.stops (fun _ => isWord_of_isBlank) hrest
  cases items with
  | nil =>
    refine ⟨item.after ++ [], hafter (stops_nil _), ?_⟩
    rw [List.map_singleton, List.intercalate_singleton, ListedName.chars, List.append_nil]
  | cons next items =>
    refine ⟨item.after ++ ',' :: [','].intercalate ((next :: items).map ListedName.chars),
      hafter (stops_cons.mpr (by decide)), ?_⟩
    rw [List.map_cons, List.map_cons, List.intercalate_cons_cons, ← List.map_cons]
    simp only [ListedName.chars, List.append_assoc, List.singleton_append]

/-- A list of names starts with its first name. -/
theorem startsName_listChars_iff {margin : List Char} (hmargin : IsBlanks margin)
    {items : List ListedName} {name : List Char} :
    StartsName (listChars margin items) name ↔ items.head?.map ListedName.name = some name := by
  cases items with
  | nil =>
    refine ⟨?_, fun h => by cases h⟩
    rintro ⟨blanks, rest, -, hname, -, heq⟩
    have hblank : ∀ c ∈ name, isBlank c = true := fun c hc => hmargin c (by
      have hmargin_eq : margin = blanks ++ (name ++ rest) := by simpa [listChars] using heq
      simp [hmargin_eq, hc])
    cases name with
    | nil => exact hname.elim
    | cons c name =>
      have hc := isBlank_of_isWord hname.1
      rw [hblank c List.mem_cons_self] at hc
      cases hc
  | cons item items =>
    obtain ⟨tail, htail, hitems⟩ := exists_intercalate_eq item items
    have hchars : listChars margin (item :: items) =
        (margin ++ item.before) ++ (item.name ++ tail) := by
      rw [listChars, hitems, List.append_assoc]
    have hblanks : IsBlanks (margin ++ item.before) :=
      List.forall_mem_append.mpr ⟨hmargin, item.isBlanks_before⟩
    have hblank : ∀ c, isWord c = true → isBlank c = false := fun _ => isBlank_of_isWord
    rw [hchars, List.head?_cons, Option.map_some, Option.some.injEq]
    constructor
    · rintro ⟨blanks, rest, hblanks', hname, hstop, heq⟩
      obtain ⟨-, heq⟩ := append_stops_inj hblanks (item.isRun_name.stops hblank) hblanks'
        (hname.stops hblank) heq
      exact (append_stops_inj (item.isRun_name.all fun _ => id) htail (hname.all fun _ => id) hstop
        heq).1
    · rintro rfl
      exact ⟨_, tail, hblanks, item.isRun_name, htail, rfl⟩

/-- Nothing is found in a list behind its key. -/
theorem relationIdFrom?_behind_key (k : ArgumentKey) {margin : List Char}
    (hmargin : IsBlanks margin) (items : List ListedName) :
    relationIdFrom? true (k.gap ++ ':' :: (k.margin ++ '[' :: listChars margin items)) = none := by
  have hblank {blanks : List Char} (h : IsBlanks blanks) : ∀ c ∈ blanks, isWord c = false :=
    fun c hc => isWord_of_isBlank (h c hc)
  have hcolon : isWord ':' = false := by decide
  have hbracket : isWord '[' = false := by decide
  have hlist : relationIdFrom? false (listChars margin items) = none :=
    relationIdFrom?_of_notMem (bracket_notMem_listChars hmargin items)
  have hbehind : relationIdFrom? false (k.margin ++ '[' :: listChars margin items) = none := by
    rw [relationIdFrom?_append (hblank k.isBlanks_margin),
      ← List.singleton_append, relationIdFrom?_append (by simpa using hbracket), hlist]
  have hgap := hblank k.isBlanks_gap
  cases hcases : k.gap with
  | nil => rw [List.nil_append, relationIdFrom?_true_cons hcolon, hbehind]
  | cons c gap =>
    rw [hcases] at hgap
    obtain ⟨hc, hgap⟩ := List.forall_mem_cons.mp hgap
    rw [List.cons_append, relationIdFrom?_true_cons hc, relationIdFrom?_append hgap,
      ← List.singleton_append, relationIdFrom?_append (by simpa using hcolon), hbehind]

/-- The list for the key `fields` is found by its first name. -/
theorem relationIdFrom?_names (k : ArgumentKey) {margin : List Char} (hmargin : IsBlanks margin)
    (items : List ListedName) :
    relationIdFrom? false (k.chars ++ '[' :: listChars margin items) =
      if k.name = "fields".toList then items.head?.map fun n => String.ofList n.name
      else none := by
  have hread : fieldsArgument? (k.chars ++ '[' :: listChars margin items) =
      if k.name = "fields".toList then items.head?.map fun n => String.ofList n.name
      else none := by
    have hname (cs : List Char) (name : String) : cs = name.toList ↔ String.ofList cs = name := by
      constructor
      · rintro rfl
        exact String.ofList_toList
      · rintro rfl
        exact String.toList_ofList.symm
    ext name
    rw [fieldsArgument?_eq_some_iff, startsList_key_iff, startsName_listChars_iff hmargin]
    by_cases hkey : k.name = "fields".toList
    · rw [if_pos hkey, Option.map_eq_some_iff, Option.map_eq_some_iff]
      simp only [hkey, true_and, hname]
    · rw [if_neg hkey]
      exact ⟨fun h => absurd h.1 hkey, fun h => by cases h⟩
  rw [← hread]
  have hword := k.isRun_name.all fun _ => id
  have hbehind := relationIdFrom?_behind_key k hmargin items
  rw [ArgumentKey.chars, List.append_assoc, List.append_assoc, List.cons_append]
  cases hcases : k.name with
  | nil =>
    have hrun := k.isRun_name
    rw [hcases] at hrun
    exact hrun.elim
  | cons c word =>
    rw [hcases] at hword
    obtain ⟨hc, hword⟩ := List.forall_mem_cons.mp hword
    rw [List.cons_append, relationIdFrom?_cons, hc, relationIdFrom?_word hword, hbehind,
      Option.or_none, if_neg Bool.false_ne_true]

/-- **What is found in an argument.** It is what is found in its string, or the first name of its
list if its key is `fields`. -/
theorem relationIdFrom?_argument (a : RelationArgument) :
    relationIdFrom? false a.chars = a.hidden.or a.declared := by
  have hfront : relationIdFrom? false a.front = none :=
    relationIdFrom?_of_notMem a.bracket_notMem_front
  have hafter : relationIdFrom? false a.after = none :=
    relationIdFrom?_of_notMem (bracket_notMem_of_isBlanks a.isBlanks_after)
  unfold RelationArgument.chars RelationArgument.hidden RelationArgument.declared
  cases hvalue : a.value with
  | string piece =>
    have hquote : isListChar piece.quote = false := by
      rcases piece.isQuote with h | h <;> rw [h] <;> decide
    have hchars : a.front ++ ((ArgumentValue.string piece).chars ++ a.after) =
        a.front ++ piece.quote :: (piece.body ++ piece.quote :: a.after) := by
      simp only [ArgumentValue.chars, QuotedPiece.chars, List.cons_append, List.append_assoc,
        List.nil_append]
    rw [hchars, relationIdFrom?_append_cons hquote, relationIdFrom?_append_cons hquote, hfront,
      hafter, Option.none_or]
    cases a.key <;> rfl
  | plain chars _ hplain =>
    have hbracket : '[' ∉ chars := fun hmem => absurd (hplain '[' hmem) (by decide)
    have hall : '[' ∉ a.front ++ (chars ++ a.after) := by
      simp only [List.mem_append, not_or]
      exact ⟨a.bracket_notMem_front, hbracket, bracket_notMem_of_isBlanks a.isBlanks_after⟩
    rw [ArgumentValue.chars, relationIdFrom?_of_notMem hall]
    cases a.key <;> rfl
  | names margin items hmargin =>
    cases hkey : a.key with
    | none =>
      obtain ⟨piece, hpiece⟩ := a.isString_of_key hkey
      rw [hpiece] at hvalue
      cases hvalue
    | some key =>
      have hclose : isListChar ']' = false := by decide
      have hblank : ∀ c ∈ a.before, isWord c = false := fun c hc =>
        isWord_of_isBlank (a.isBlanks_before c hc)
      have hchars : a.front ++ ((ArgumentValue.names margin items hmargin).chars ++ a.after) =
          (a.before ++ (key.chars ++ '[' :: listChars margin items)) ++ ']' :: a.after := by
        simp [RelationArgument.front, hkey, ArgumentValue.chars]
      rw [hchars, relationIdFrom?_append_cons hclose, relationIdFrom?_append hblank,
        relationIdFrom?_names key hmargin, hafter, Option.or_none, Option.none_or]

/-- **What is found in an attribute.** It is what is found in its first argument in which something
is found. -/
theorem relationIdFrom?_relation (a : RelationArguments) :
    relationIdFrom? false ("@relation".toList ++ a.chars) =
      a.items.findSome? fun item => item.hidden.or item.declared := by
  have hopen : isListChar '(' = false := by decide
  have hclose : isListChar ')' = false := by decide
  have hblank : ∀ c ∈ a.margin, isWord c = false := fun c hc =>
    isWord_of_isBlank (a.isBlanks_margin c hc)
  have hname : relationIdFrom? false "@relation".toList = none := by decide +kernel
  rw [RelationArguments.chars, relationIdFrom?_append_cons hopen, hname, Option.none_or,
    relationIdFrom?_append hblank, relationIdFrom?_append_cons hclose,
    relationIdFrom?_intercalate, List.findSome?_map]
  have harguments : relationIdFrom? false ∘ RelationArgument.chars =
      fun item => item.hidden.or item.declared := funext relationIdFrom?_argument
  rw [harguments]
  exact Option.or_none

/-- No argument has both a string and a list. -/
theorem RelationArgument.hidden_eq_none_of_declared {a : RelationArgument}
    (h : a.declared.isSome = true) : a.hidden = none := by
  unfold declared at h
  unfold hidden
  split at h
  · rename_i hvalue
    rw [hvalue]
  · cases h

/-- What is found is what is hidden before the first declared name, or else this name. -/
theorem RelationArguments.findSome?_items (a : RelationArguments) :
    (a.items.findSome? fun item => item.hidden.or item.declared) = a.hidden.or a.declared := by
  unfold RelationArguments.hidden RelationArguments.declared
  induction a.items with
  | nil => rfl
  | cons item items ih =>
    rw [findSome?_cons_eq_or, findSome?_cons_eq_or, ih]
    cases hdeclared : item.declared with
    | none =>
      rw [List.takeWhile_cons_of_pos (by rw [hdeclared]; rfl), findSome?_cons_eq_or,
        Option.or_none, Option.none_or, Option.or_assoc]
    | some name =>
      have hhidden : item.hidden = none :=
        RelationArgument.hidden_eq_none_of_declared (by rw [hdeclared]; rfl)
      rw [List.takeWhile_cons_of_neg (by rw [hdeclared]; simp), hhidden]
      rfl

private theorem RelationArgument.hidden_eq_some_iff {a : RelationArgument} :
    a.hidden = some name ↔
      ∃ piece, a.value = .string piece ∧ ListsFirst piece.body name.toList := by
  unfold hidden
  cases a.value with
  | string piece => simp [relationIdFrom?_eq_some_iff_listsFirst]
  | plain chars _ _ => simp
  | names margin items _ => simp

private theorem RelationArgument.hidden_eq_none_iff {a : RelationArgument} :
    a.hidden = none ↔ ∀ piece, a.value = .string piece → ∀ name, ¬ Lists piece.body name := by
  unfold hidden
  cases a.value with
  | string piece => simp [relationIdFrom?_eq_none_iff_lists]
  | plain chars _ _ => simp
  | names margin items _ => simp

/-- **What is hidden.** It is the first list of fields in a string, if no name is declared and no
other string has a list of fields before it. -/
theorem RelationArguments.hidden_eq_some_iff (a : RelationArguments) :
    a.hidden = some name ↔ ∃ front item back, a.items = front ++ item :: back ∧
      (∀ other ∈ front, other.declared = none ∧
        ∀ piece, other.value = .string piece → ∀ name, ¬ Lists piece.body name) ∧
      ∃ piece, item.value = .string piece ∧ ListsFirst piece.body name.toList := by
  simp only [← RelationArgument.hidden_eq_none_iff, ← RelationArgument.hidden_eq_some_iff]
  rw [hidden, List.findSome?_eq_some_iff]
  constructor
  · rintro ⟨front, item, back, hsplit, hhidden, hfront⟩
    refine ⟨front, item, back ++ a.items.dropWhile (·.declared.isNone), ?_, fun other hother => ?_,
      hhidden⟩
    · rw [← List.cons_append, ← List.append_assoc, ← hsplit, List.takeWhile_append_dropWhile]
    · have hmem : other ∈ a.items.takeWhile (·.declared.isNone) := by simp [hsplit, hother]
      exact ⟨by simpa using List.mem_takeWhile_imp hmem, hfront other hother⟩
  · rintro ⟨front, item, back, hitems, hfront, hhidden⟩
    have hdeclared : item.declared.isNone = true := by
      by_contra hsome
      have hnone := RelationArgument.hidden_eq_none_of_declared (a := item)
        (by simpa [Option.isSome_iff_ne_none] using hsome)
      rw [hnone] at hhidden
      cases hhidden
    refine ⟨front, item, back.takeWhile (·.declared.isNone), ?_, hhidden,
      fun other hother => (hfront other hother).2⟩
    rw [hitems, List.takeWhile_append_of_pos fun other hother => by simp [(hfront other hother).1],
      List.takeWhile_cons, if_pos hdeclared]

/-- **The id of a relation.** Let the type of a field line be a registered model, and let its first
`@relation` attribute have arguments. The id of the relation is the first name that is listed for
the key `fields`, unless a string stands before it that has a list of fields in it: then the id is
the first name of the first list in the first such string. -/
theorem relationId_declared_iff {registry : Registry} {line : String} {field : FieldLine}
    (a : RelationArguments) (hparse : parse line = .ok field)
    (hregistry : registry.contains field.typeName = true)
    (hattribute : field.attribute? "@relation" =
      some (String.ofList ("@relation".toList ++ a.chars))) :
    ∃ r, (parse line).map (member registry) = .ok (.relation r) ∧
      r.relationId = a.hidden.or a.declared ∧
      (r.relationId = a.declared ↔ ∀ name, a.hidden = some name → a.declared = some name) ∧
      ∀ name, a.hidden = some name ↔ ∃ front item back, a.items = front ++ item :: back ∧
        (∀ other ∈ front, other.declared = none ∧
          ∀ piece, other.value = .string piece → ∀ name, ¬ Lists piece.body name) ∧
        ∃ piece, item.value = .string piece ∧ ListsFirst piece.body name.toList := by
  have hid : field.relationId? = a.hidden.or a.declared := by
    rw [relationId?, hattribute, Option.bind_eq_bind, Option.bind_some, String.toList_ofList,
      relationIdFrom?_relation, a.findSome?_items]
  have hmember : ∃ r, field.member registry = .relation r ∧ r.relationId = field.relationId? := by
    unfold member
    rw [if_pos hregistry]
    exact ⟨_, rfl, rfl⟩
  obtain ⟨r, hr, hrelationId⟩ := hmember
  rw [hid] at hrelationId
  refine ⟨r, by rw [hparse, ← hr]; rfl, hrelationId, ?_, fun _ => a.hidden_eq_some_iff⟩
  rw [hrelationId]
  cases a.hidden with
  | none => simp
  | some name => simp [eq_comm]

/-- A text without quotes and backslashes is the inside of a string. -/
theorem isQuoted_of_forall {q : Char} {body : List Char}
    (h : ∀ c ∈ body, c ≠ backslash ∧ c ≠ q) : IsQuoted q body := by
  induction body with
  | nil => exact .nil
  | cons c body ih =>
    obtain ⟨⟨hback, hne⟩, hbody⟩ := List.forall_mem_cons.mp h
    exact .plain hback hne (ih hbody)

/-- A list of one name for a key, after a space. -/
def RelationArgument.ofNames (key name : String) (hkey : IsRun isWord isWord key.toList)
    (hname : IsRun isWord isWord name.toList) : RelationArgument where
  before := [' ']
  key := some ⟨key.toList, [], [' '], hkey, isBlanks_nil, isBlanks_space⟩
  value := .names [] [⟨[], name.toList, [], isBlanks_nil, hname, isBlanks_nil⟩] isBlanks_nil
  after := []
  isBlanks_before := isBlanks_space
  isBlanks_after := isBlanks_nil
  isString_of_key := by simp

/-- The arguments of a relation with a name. -/
def namedArguments (text : String)
    (htext : text.toList.all fun c => c != backslash && c != doubleQuote) :
    RelationArguments where
  margin := []
  items :=
    [⟨[], none, .string ⟨doubleQuote, text.toList, .inl rfl,
        isQuoted_of_forall (by simpa using htext)⟩, [],
      isBlanks_nil, isBlanks_nil, fun _ => ⟨_, rfl⟩⟩,
     .ofNames "fields" "customerId" (by decide +kernel) (by decide +kernel),
     .ofNames "references" "id" (by decide +kernel) (by decide +kernel)]
  isBlanks_margin := isBlanks_nil

/-- A line with the relation. -/
def namedLine (text : String) : String :=
  "customer Customer @relation(\"" ++ text ++
    "\", fields: [customerId], references: [id]) // buyer"

/-- The field of the line. -/
def namedField (text : String) : FieldLine where
  name := "customer"
  typeName := "Customer"
  isArray := false
  isOptional := false
  attributes := ["@relation(\"" ++ text ++ "\", fields: [customerId], references: [id])"]
  comment := "buyer"

/-- The models of which one is the type of the line. -/
def customerRegistry : Registry where
  names := ["Customer"]

/-- A name without a list of fields in it leaves the id as it is declared. -/
theorem relationId_declared_iff_buyer :
    parse (namedLine "Buyer") = .ok (namedField "Buyer") ∧
      ∃ r, (parse (namedLine "Buyer")).map (member customerRegistry) = .ok (.relation r) ∧
        r.relationId = some "customerId" := by
  have hparse : parse (namedLine "Buyer") = .ok (namedField "Buyer") := by decide +kernel
  have hregistry : customerRegistry.contains (namedField "Buyer").typeName = true := by
    decide +kernel
  obtain ⟨r, hr, hid, -⟩ := relationId_declared_iff
    (namedArguments "Buyer" (by decide +kernel)) hparse hregistry (by decide +kernel)
  exact ⟨hparse, r, hr, hid.trans (by decide +kernel)⟩

/-- The name `fields: [ownerId]` is read as a list of fields: the id is not the declared one. -/
theorem name_is_read_as_relationId :
    ∃ field, ∃ a : RelationArguments, parse (namedLine "fields: [ownerId]") = .ok field ∧
      field.attribute? "@relation" = some (String.ofList ("@relation".toList ++ a.chars)) ∧
      a.declared = some "customerId" ∧
      ∃ r, field.member customerRegistry = .relation r ∧ r.relationId = some "ownerId" :=
  ⟨namedField "fields: [ownerId]", namedArguments "fields: [ownerId]" (by decide +kernel),
    by decide +kernel, by decide +kernel, by decide +kernel, _, rfl, by decide +kernel⟩

end NestLayers.FieldLine
