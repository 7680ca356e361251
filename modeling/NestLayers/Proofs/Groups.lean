import NestLayers.Proofs.CharacterClasses

/-!
# Parenthesised groups

The arguments of an attribute are a parenthesised group. The grammar here says what a group
is: parentheses nest, and a quoted string may hold any character, a quote or a backslash after
a backslash. `cutGroup` counts open parentheses instead; this file proves that it cuts off
exactly the group at the start of a text, so that a text starts with at most one group.
-/

namespace NestLayers.FieldLine

open NestLayers.Text

/-- The inside of a string in quotes `q`. A backslash takes the next character with it. -/
inductive IsQuoted (q : Char) : List Char → Prop
  | nil : IsQuoted q []
  | escaped (c : Char) {rest : List Char} :
    IsQuoted q rest → IsQuoted q (backslash :: c :: rest)
  | plain {c : Char} {rest : List Char} :
    c ≠ backslash → c ≠ q → IsQuoted q rest → IsQuoted q (c :: rest)

/-- The quotes of a string. -/
def IsQuote (c : Char) : Prop :=
  c = doubleQuote ∨ c = apostrophe

/-- The inside of a group: any number of groups, quoted strings and other characters. -/
inductive Balanced : List Char → Prop
  | nil : Balanced []
  | plain {c : Char} {rest : List Char} :
    ¬ IsQuote c → c ≠ '(' → c ≠ ')' → Balanced rest → Balanced (c :: rest)
  | string {q : Char} {body rest : List Char} :
    IsQuote q → IsQuoted q body → Balanced rest → Balanced ((q :: body ++ [q]) ++ rest)
  | group {inner rest : List Char} :
    Balanced inner → Balanced rest → Balanced (('(' :: inner ++ [')']) ++ rest)

/-- A parenthesised group. -/
def IsGroup (cs : List Char) : Prop :=
  ∃ inner, Balanced inner ∧ cs = '(' :: inner ++ [')']

private theorem IsQuote.ne_backslash {q : Char} (hq : IsQuote q) : q ≠ backslash := by
  rcases hq with rfl | rfl <;> decide

/-- A group is not empty. -/
theorem IsGroup.ne_nil {cs : List Char} (h : IsGroup cs) : cs ≠ [] := by
  obtain ⟨inner, _, rfl⟩ := h
  simp

/-- A group starts with its parenthesis. -/
theorem IsGroup.head?_append {cs : List Char} (h : IsGroup cs) (rest : List Char) :
    (cs ++ rest).head? = some '(' := by
  obtain ⟨inner, _, rfl⟩ := h
  rfl

/-- Inside a string, any character but a backslash is passed over, and the closing quote ends
the string. -/
theorem cutGroup_string_char {c : Char} (hc : c ≠ backslash) (depth : Nat) (q : Char)
    (rest : List Char) :
    cutGroup depth (some q) (c :: rest) =
      (cutGroup depth (if c = q then none else some q) rest).map (keep c) := by
  rw [cutGroup.eq_def]
  simp [hc]

/-- The scanner passes over the rest of a quoted string. -/
theorem cutGroup_quoted {q : Char} (hq : IsQuote q) {body : List Char} (hbody : IsQuoted q body)
    (depth : Nat) (rest : List Char) :
    cutGroup depth (some q) (body ++ q :: rest) =
      (cutGroup depth none rest).map fun cut => (body ++ q :: cut.1, cut.2) := by
  induction hbody with
  | nil =>
    simp only [List.nil_append, cutGroup_string_char hq.ne_backslash, if_pos]
    rfl
  | escaped c _ ih => simp [cutGroup, ih, keep, Function.comp_def]
  | plain hback hne _ ih => simp [cutGroup_string_char hback, hne, ih, keep, Function.comp_def]

/-- The scanner passes over the inside of a group and keeps its count of open parentheses. -/
theorem cutGroup_balanced {inner : List Char} (hinner : Balanced inner) (depth : Nat)
    (rest : List Char) :
    cutGroup (depth + 1) none (inner ++ rest) =
      (cutGroup (depth + 1) none rest).map fun cut => (inner ++ cut.1, cut.2) := by
  induction hinner generalizing depth rest with
  | nil => simp
  | plain hquote hopen hclose _ ih =>
    have hnot : ¬ (_ = doubleQuote ∨ _ = apostrophe) := hquote
    simp [cutGroup, hnot, hopen, hclose, ih, keep, Function.comp_def]
  | string hq hbody _ ih =>
    have hquote : _ = doubleQuote ∨ _ = apostrophe := hq
    simp [cutGroup, hquote, cutGroup_quoted hq hbody, ih, keep, Function.comp_def]
  | group _ _ ihinner ihrest =>
    have hopen : ¬ ('(' = doubleQuote ∨ '(' = apostrophe) := by decide
    have hclose : ¬ (')' = doubleQuote ∨ ')' = apostrophe) := by decide
    simp [cutGroup, hopen, hclose, ihinner, ihrest, keep, Function.comp_def]

/-- A group at the start of a text is cut off. -/
theorem cutGroup_of_isGroup {group : List Char} (hgroup : IsGroup group) (rest : List Char) :
    cutGroup 0 none (group ++ rest) = some (group, rest) := by
  obtain ⟨inner, hinner, rfl⟩ := hgroup
  have hopen : ¬ ('(' = doubleQuote ∨ '(' = apostrophe) := by decide
  have hclose : ¬ (')' = doubleQuote ∨ ')' = apostrophe) := by decide
  have hscan := cutGroup_balanced hinner 0 (')' :: rest)
  simp only [Nat.zero_add] at hscan
  simp [cutGroup, hopen, hscan, hclose, keep]

/-- The text closes `depth` open groups: before each closing parenthesis stands the inside of
a group. -/
def Closes : (depth : Nat) → List Char → Prop
  | 0, cs => cs = []
  | depth + 1, cs => ∃ inner rest, Balanced inner ∧ cs = inner ++ ')' :: rest ∧ Closes depth rest

/-- The text first ends the string that it starts in, if any, and then closes `depth` open
groups. This is the invariant of the scanner's state. -/
def ClosesFrom (depth : Nat) : (quote : Option Char) → List Char → Prop
  | none, cs => Closes depth cs
  | some q, cs => ∃ body rest, IsQuoted q body ∧ cs = body ++ q :: rest ∧ Closes depth rest

/-- What may stand at the start of the inside of a group may stand before a text that closes
groups. -/
theorem Closes.prepend {depth : Nat} {cs : List Char} (h : Closes depth cs) (hdepth : 0 < depth)
    (first : List Char) (hfirst : ∀ {inner}, Balanced inner → Balanced (first ++ inner)) :
    Closes depth (first ++ cs) := by
  cases depth with
  | zero => cases hdepth
  | succ depth =>
    obtain ⟨inner, rest, hinner, rfl, hrest⟩ := h
    exact ⟨first ++ inner, rest, hfirst hinner, by simp, hrest⟩

/-- What the scanner cuts off ends the string it starts in and closes the open groups. -/
theorem closesFrom_of_cutGroup {depth : Nat} {quote : Option Char} {cs : List Char}
    {cut : List Char × List Char} (h : cutGroup depth quote cs = some cut) (hdepth : 0 < depth) :
    ClosesFrom depth quote cut.1 := by
  fun_induction cutGroup depth quote cs generalizing cut with
  | case1 => cases h
  | case2 => cases h
  | case3 depth q d rest ih =>
    obtain ⟨inner, hinner, rfl⟩ := Option.map_eq_some_iff.mp h
    obtain ⟨body, after, hbody, heq, hafter⟩ := ih hinner hdepth
    exact ⟨backslash :: d :: body, after, .escaped d hbody, by simp [keep, heq], hafter⟩
  | case4 depth c rest q hc ih =>
    obtain ⟨inner, hinner, rfl⟩ := Option.map_eq_some_iff.mp h
    have hcloses := ih hinner hdepth
    by_cases hq : c = q
    · rw [if_pos hq] at hcloses
      exact ⟨[], inner.1, .nil, by simp [keep, hq], hcloses⟩
    · rw [if_neg hq] at hcloses
      obtain ⟨body, after, hbody, heq, hafter⟩ := hcloses
      exact ⟨c :: body, after, .plain hc hq hbody, by simp [keep, heq], hafter⟩
  | case5 depth c rest hc ih =>
    obtain ⟨inner, hinner, rfl⟩ := Option.map_eq_some_iff.mp h
    obtain ⟨body, after, hbody, heq, hafter⟩ := ih hinner hdepth
    have hquote : IsQuote c := by simpa [IsQuote] using hc
    have hcloses := hafter.prepend hdepth _ (Balanced.string hquote hbody)
    simpa [ClosesFrom, keep, heq] using hcloses
  | case6 depth rest hc ih =>
    obtain ⟨inner, hinner, rfl⟩ := Option.map_eq_some_iff.mp h
    obtain ⟨group, after, hgroup, heq, hafter⟩ := ih hinner (Nat.succ_pos depth)
    have hcloses := hafter.prepend hdepth _ (Balanced.group hgroup)
    simpa [ClosesFrom, keep, heq] using hcloses
  | case7 =>
    obtain rfl := Option.some.inj h
    exact ⟨[], [], .nil, rfl, rfl⟩
  | case8 depth rest hc hopen hdepth1 ih =>
    obtain ⟨inner, hinner, rfl⟩ := Option.map_eq_some_iff.mp h
    obtain ⟨depth, rfl⟩ : ∃ n, depth = n + 2 := ⟨depth - 2, by omega⟩
    exact ⟨[], inner.1, .nil, rfl, ih hinner (Nat.succ_pos depth)⟩
  | case9 depth c rest hc hopen hclose ih =>
    obtain ⟨inner, hinner, rfl⟩ := Option.map_eq_some_iff.mp h
    have hquote : ¬ IsQuote c := by simpa [IsQuote] using hc
    exact (ih hinner hdepth).prepend hdepth [c] (.plain hquote hopen hclose)

/-- What is cut off a text that starts with a parenthesis is a group. -/
theorem isGroup_of_cutGroup {rest : List Char} {cut : List Char × List Char}
    (h : cutGroup 0 none ('(' :: rest) = some cut) : IsGroup cut.1 := by
  have hopen : ¬ ('(' = doubleQuote ∨ '(' = apostrophe) := by decide
  simp only [cutGroup, Bool.or_eq_true, decide_eq_true_eq, if_neg hopen] at h
  obtain ⟨inner, hinner, rfl⟩ := Option.map_eq_some_iff.mp h
  obtain ⟨group, after, hgroup, heq, rfl⟩ := closesFrom_of_cutGroup hinner Nat.one_pos
  exact ⟨group, hgroup, by simp [keep, heq]⟩

/-- **Argument lists.** What is cut off as the arguments of an attribute is the group that the
text starts with, or nothing if the text does not start with a parenthesis. -/
theorem cutArguments_eq_some_iff {cs arguments rest : List Char} :
    cutArguments cs = some (arguments, rest) ↔
      cs = arguments ++ rest ∧ (IsGroup arguments ∨ arguments = [] ∧ rest.head? ≠ some '(') := by
  constructor
  · intro h
    refine ⟨(cutArguments_append h).symm, ?_⟩
    unfold cutArguments at h
    split at h
    · rename_i hhead
      obtain ⟨tail, rfl⟩ := List.head?_eq_some_iff.mp hhead
      exact .inl (isGroup_of_cutGroup h)
    · rename_i hhead
      obtain ⟨rfl, rfl⟩ := Prod.mk.inj (Option.some.inj h)
      exact .inr ⟨rfl, hhead⟩
  · rintro ⟨rfl, hgroup | ⟨rfl, hhead⟩⟩
    · rw [cutArguments, if_pos (hgroup.head?_append rest), cutGroup_of_isGroup hgroup]
    · rw [List.nil_append, cutArguments, if_neg hhead]

/-- A text is a group exactly if all of it is cut off as arguments. -/
theorem isGroup_iff {cs : List Char} :
    IsGroup cs ↔ cs ≠ [] ∧ cutArguments cs = some (cs, []) := by
  rw [cutArguments_eq_some_iff]
  constructor
  · intro h
    exact ⟨h.ne_nil, (List.append_nil cs).symm, .inl h⟩
  · rintro ⟨hne, -, h | ⟨hnil, -⟩⟩
    · exact h
    · exact absurd hnil hne

/-- It is decided by reading one group. -/
instance (cs : List Char) : Decidable (IsGroup cs) :=
  decidable_of_iff _ isGroup_iff.symm

end NestLayers.FieldLine
