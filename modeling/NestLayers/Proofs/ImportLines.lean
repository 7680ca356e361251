import NestLayers.Proofs.Lines
import NestLayers.TypeScript.Import

/-!
# Reading import lines

The line of an import is read back by `Import.ofLine?`, which finds the names between the braces
and the origin between the quotes. The entries of an import table are those that were put into
it, so that a property of all entries follows from how the table was built.
-/

namespace NestLayers.Text

/-- The texts in order of first occurrence are the texts. -/
theorem mem_firstOccurrences {item : String} {items : List String} :
    item ∈ firstOccurrences items ↔ item ∈ items := by
  suffices h : ∀ seen : List String,
      item ∈ items.foldl (fun seen item => if seen.contains item then seen else seen ++ [item]) seen ↔
        item ∈ seen ∨ item ∈ items by
    simpa [firstOccurrences] using h []
  induction items with
  | nil => simp
  | cons first items ih =>
    intro seen
    rw [List.foldl_cons, ih, List.mem_cons, ← or_assoc]
    refine or_congr ?_ Iff.rfl
    split
    · rename_i hseen
      rw [List.contains_iff_mem] at hseen
      constructor
      · exact .inl
      · rintro (h | rfl)
        · exact h
        · exact hseen
    · simp

/-- Some texts are left if there are any. -/
theorem firstOccurrences_ne_nil {items : List String} (h : items ≠ []) :
    firstOccurrences items ≠ [] := by
  obtain ⟨item, hitem⟩ := List.exists_mem_of_ne_nil items h
  exact List.ne_nil_of_mem (mem_firstOccurrences.mpr hitem)

/-- Each text is left once. -/
theorem nodup_firstOccurrences (items : List String) : (firstOccurrences items).Nodup := by
  suffices h : ∀ seen : List String, seen.Nodup →
      (items.foldl (fun seen item => if seen.contains item then seen else seen ++ [item])
        seen).Nodup from h [] List.nodup_nil
  induction items with
  | nil => exact fun seen hseen => hseen
  | cons item items ih =>
    intro seen hseen
    refine ih _ ?_
    dsimp only
    split
    · exact hseen
    · rename_i hnew
      rw [List.contains_iff_mem] at hnew
      exact List.nodup_append.mpr ⟨hseen, by simp, by
        rintro first hfirst second hsecond rfl
        exact hnew (List.mem_singleton.mp hsecond ▸ hfirst)⟩

/-- Texts of which none is repeated are left as they are. -/
theorem firstOccurrences_of_nodup {items : List String} (h : items.Nodup) :
    firstOccurrences items = items := by
  suffices hfold : ∀ seen : List String, (seen ++ items).Nodup →
      items.foldl (fun seen item => if seen.contains item then seen else seen ++ [item]) seen =
        seen ++ items from hfold [] h
  clear h
  induction items with
  | nil => simp
  | cons item items ih =>
    intro seen hseen
    have hnew : item ∉ seen := by
      intro hmem
      exact absurd rfl ((List.nodup_append.mp hseen).2.2 item hmem item List.mem_cons_self)
    rw [List.foldl_cons, if_neg (by simpa using hnew), ih _ (by simpa using hseen)]
    simp

end NestLayers.Text

namespace NestLayers.TypeScript

open NestLayers.Text

/-- What stands between the names of an import. -/
def isSeparator (c : Char) : Bool :=
  c == ',' || c == ' '

/-- Reads the line of an import. -/
def Import.ofLine? (line : List Char) : Option Import := do
  let afterOpening ← afterStart? "import \x7b ".toList line
  let names := (afterOpening.takeWhile (· != '\x7d')).splitOnP isSeparator
  let afterNames ← afterStart? "\x7d from \"".toList (afterOpening.dropWhile (· != '\x7d'))
  if afterNames.dropWhile (· != '\x22') = "\";".toList then
    some
      { origin := String.ofList (afterNames.takeWhile (· != '\x22'))
        names := (names.filter (· ≠ [])).map String.ofList }
  else none

/-- A text that can be told from its neighbours between the braces of an import. -/
def IsImportName (name : List Char) : Prop :=
  name ≠ [] ∧ ∀ c ∈ name, isSeparator c = false ∧ c ≠ '\x7d'

/-- It is decided by the characters. -/
instance (name : List Char) : Decidable (IsImportName name) :=
  @instDecidableAnd _ _ _ (List.decidableBAll _ name)

/-- An import whose line can be read. -/
structure Import.IsReadable (i : Import) : Prop where
  names_ne_nil : i.names ≠ []
  isImportName : ∀ name ∈ i.names, IsImportName name.toList
  origin : '\x22' ∉ i.origin.toList

/-- The names between the braces of an import are found again. -/
theorem splitOnP_intercalate {names : List (List Char)} (hne : names ≠ [])
    (hnames : ∀ name ∈ names, IsImportName name) :
    ((List.intercalate [',', ' '] names ++ [' ']).splitOnP isSeparator).filter (· ≠ []) = names := by
  have hspace : isSeparator ' ' = true := by decide
  induction names with
  | nil => exact absurd rfl hne
  | cons name names ih =>
    obtain ⟨⟨hname, hchars⟩, hrest⟩ := List.forall_mem_cons.mp hnames
    have hfree : ∀ c ∈ name, isSeparator c = false := fun c hc => (hchars c hc).1
    cases names with
    | nil =>
      rw [List.intercalate_singleton, List.splitOnP_append_cons_of_forall_mem hfree ' ' hspace]
      simp [hname]
    | cons next names =>
      have hcomma : isSeparator ',' = true := by decide
      have hsplit : List.intercalate [',', ' '] (name :: next :: names) ++ [' '] =
          name ++ ',' :: ([] ++ ' ' :: (List.intercalate [',', ' '] (next :: names) ++ [' '])) := by
        simp [List.intercalate_cons_cons]
      have hnil : ∀ c ∈ ([] : List Char), isSeparator c = false := by simp
      rw [hsplit, List.splitOnP_append_cons_of_forall_mem hfree ',' hcomma,
        List.splitOnP_append_cons_of_forall_mem hnil ' ' hspace,
        List.filter_cons_of_pos (by simpa using hname), List.filter_cons_of_neg (by simp),
        ih (by simp) hrest]

/-- No name of an import ends the names. -/
theorem brace_notMem_intercalate {names : List (List Char)}
    (hnames : ∀ name ∈ names, IsImportName name) :
    ∀ c ∈ List.intercalate [',', ' '] names ++ [' '], (c != '\x7d') = true := by
  have hbrace : '\x7d' ∉ List.intercalate [',', ' '] names :=
    notMem_intercalate (by decide) fun name hname hmem => absurd rfl ((hnames name hname).2 _ hmem).2
  intro c hc
  rw [bne_iff_ne]
  rintro rfl
  simp [hbrace] at hc

/-- **Import lines.** The line of an import is read back as its origin and its names, each name
once. -/
theorem Import.ofLine?_line {i : Import} (h : i.IsReadable) :
    Import.ofLine? i.line.toList = some ⟨i.origin, firstOccurrences i.names⟩ := by
  have hline : i.line.toList = "import \x7b ".toList ++
      ((List.intercalate [',', ' '] ((firstOccurrences i.names).map String.toList) ++ [' ']) ++
        '\x7d' :: (" from \"".toList ++ (i.origin.toList ++ '\x22' :: [';']))) := by
    unfold Import.line braced
    simp
  have hnames : ∀ name ∈ (firstOccurrences i.names).map String.toList, IsImportName name := by
    intro name hname
    obtain ⟨text, htext, rfl⟩ := List.mem_map.mp hname
    exact h.isImportName text (mem_firstOccurrences.mp htext)
  have hne : (firstOccurrences i.names).map String.toList ≠ [] := by
    simpa using firstOccurrences_ne_nil h.names_ne_nil
  have hbrace := brace_notMem_intercalate hnames
  have horigin : ∀ c ∈ i.origin.toList, (c != '\x22') = true := by
    intro c hc
    rw [bne_iff_ne]
    rintro rfl
    exact h.origin hc
  have hafterNames : afterStart? "\x7d from \"".toList
      ('\x7d' :: (" from \"".toList ++ (i.origin.toList ++ '\x22' :: [';']))) =
      some (i.origin.toList ++ '\x22' :: [';']) := by
    simp [afterStart?]
  rw [hline, Import.ofLine?, afterStart?_append]
  have hstopBrace : Stops (· != '\x7d')
      ('\x7d' :: (" from \"".toList ++ (i.origin.toList ++ '\x22' :: [';']))) := by simp
  have hstopQuote : Stops (· != '\x22') ('\x22' :: [';']) := by simp
  simp only [Option.bind_eq_bind, Option.bind_some, takeWhile_append_stops hbrace hstopBrace,
    dropWhile_append_stops hbrace hstopBrace, hafterNames,
    takeWhile_append_stops horigin hstopQuote, dropWhile_append_stops horigin hstopQuote,
    splitOnP_intercalate hne hnames, String.ofList_toList, List.map_map]
  simp

/-- The line of an import is one line if its texts are. -/
theorem Import.isOneLine_line (i : Import) (hnames : ∀ name ∈ i.names, IsOneLine name)
    (horigin : IsOneLine i.origin) : IsOneLine i.line := by
  have hseparator : IsOneLine ", " := by decide
  have hbraced := isOneLine_intercalate hseparator
    fun name hname => hnames name (mem_firstOccurrences.mp hname)
  unfold Import.line braced
  simp only [isOneLine_append, hbraced, horigin, and_true]
  decide

namespace Imports

/-- Setting the names of an origin puts one entry in and keeps the others. -/
theorem mem_entries_set {imports : Imports} {origin : String} {names : List String} {e : Import}
    (h : e ∈ (imports.set origin names).entries) : e = ⟨origin, names⟩ ∨ e ∈ imports.entries := by
  unfold set at h
  split at h
  · obtain ⟨old, hold, rfl⟩ := List.mem_map.mp h
    split
    · exact .inl rfl
    · exact .inr hold
  · rcases List.mem_append.mp h with h | h
    · exact .inr h
    · exact .inl (List.mem_singleton.mp h)

/-- The entries of a table made from a list are in the list. -/
theorem mem_of_mem_entries_ofList {list : List (String × List String)} {e : Import}
    (h : e ∈ (ofList list).entries) : (e.origin, e.names) ∈ list := by
  suffices hfold : ∀ imports : Imports,
      e ∈ (list.foldl (fun imports entry => imports.set entry.1 entry.2) imports).entries →
        e ∈ imports.entries ∨ (e.origin, e.names) ∈ list by
    exact (hfold {} h).resolve_left (by simp)
  clear h
  induction list with
  | nil => exact fun imports h => .inl h
  | cons first list ih =>
    intro imports h
    rcases ih _ h with h | h
    · rcases mem_entries_set h with rfl | h
      · exact .inr List.mem_cons_self
      · exact .inl h
    · exact .inr (List.mem_cons_of_mem _ h)

/-- The entries of a table with different origins are those that it is made from. -/
theorem entries_ofList {list : List (String × List String)}
    (h : (list.map Prod.fst).Nodup) : (ofList list).entries = list.map fun p => ⟨p.1, p.2⟩ := by
  suffices hfold : ∀ imports : Imports,
      (imports.entries.map (·.origin) ++ list.map Prod.fst).Nodup →
        (list.foldl (fun imports entry => imports.set entry.1 entry.2) imports).entries =
          imports.entries ++ list.map fun p => ⟨p.1, p.2⟩ from hfold {} h
  clear h
  induction list with
  | nil => simp
  | cons first list ih =>
    intro imports hnodup
    have hnew : imports.has first.1 = false := by
      rw [has, List.any_eq_false]
      intro e he horigin
      have hne := (List.nodup_append.mp hnodup).2.2 e.origin (List.mem_map_of_mem he) first.1
        (by simp)
      exact hne (by simpa using horigin)
    have hset : (imports.set first.1 first.2).entries = imports.entries ++ [⟨first.1, first.2⟩] := by
      rw [set, if_neg (by simp [hnew])]
    rw [List.foldl_cons, ih _ (by simpa [hset] using hnodup), hset]
    simp

/-- Adding names to an origin puts them behind the names of its entry, or makes an entry. -/
theorem mem_entries_add {imports : Imports} {origin : String} {names : List String} {e : Import}
    (h : e ∈ (imports.add origin names).entries) :
    e ∈ imports.entries ∨ e = ⟨origin, names⟩ ∨
      ∃ old ∈ imports.entries, old.origin = origin ∧ e = ⟨origin, old.names ++ names⟩ := by
  unfold add at h
  split at h
  · obtain ⟨old, hold, rfl⟩ := List.mem_map.mp h
    split
    · rename_i horigin
      exact .inr (.inr ⟨old, hold, horigin, rfl⟩)
    · exact .inl hold
  · rcases List.mem_append.mp h with h | h
    · exact .inl h
    · exact .inr (.inl (List.mem_singleton.mp h))

end Imports

end NestLayers.TypeScript
