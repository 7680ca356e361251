import Mathlib.Data.List.Forall2
import Mathlib.Data.List.Induction
import NestLayers.Proofs.SourceText

/-!
# Reading blocks of imports

A block has one line for each import that takes any name. It is read back line by line by
`Imports.ofBlock?`, which accepts nothing but imports.

Main statement: a block whose texts cannot be taken for punctuation is read back as the imports
that take any name, in their order, each with its names in order of first occurrence, and it is
the empty text only if no import takes a name.
-/

namespace NestLayers.Text

/-- The second list has the texts of the first one, each once, in the order in which they first
occur there. -/
structure AreFirstOccurrences (items firsts : List String) : Prop where
  mem_iff : ∀ item, item ∈ firsts ↔ item ∈ items
  ordered : firsts.Pairwise fun first second => items.idxOf first < items.idxOf second

private theorem firstOccurrences_concat (items : List String) (item : String) :
    firstOccurrences (items ++ [item]) =
      if item ∈ items then firstOccurrences items else firstOccurrences items ++ [item] := by
  have hstep : firstOccurrences (items ++ [item]) =
      if (firstOccurrences items).contains item then firstOccurrences items
      else firstOccurrences items ++ [item] := by
    rw [firstOccurrences, List.foldl_append]
    rfl
  rw [hstep]
  simp only [List.contains_iff_mem, mem_firstOccurrences]

/-- Each text stands where it first occurs. -/
theorem areFirstOccurrences_firstOccurrences (items : List String) :
    AreFirstOccurrences items (firstOccurrences items) := by
  refine ⟨fun item => mem_firstOccurrences, ?_⟩
  induction items using List.reverseRecOn with
  | nil => exact .nil
  | append_singleton items item ih =>
    -- what comes last changes no first occurrence before it
    have hfirst {text : String} (htext : text ∈ firstOccurrences items) :
        (items ++ [item]).idxOf text = items.idxOf text :=
      List.idxOf_append_of_mem (mem_firstOccurrences.mp htext)
    have hordered : (firstOccurrences items).Pairwise fun first second =>
        (items ++ [item]).idxOf first < (items ++ [item]).idxOf second := by
      refine List.Pairwise.imp_of_mem (fun ha hb hlt => ?_) ih
      rwa [hfirst ha, hfirst hb]
    rw [firstOccurrences_concat]
    split
    · exact hordered
    · rename_i hnew
      refine List.pairwise_append.mpr ⟨hordered, List.pairwise_singleton _ _, ?_⟩
      rintro first hmem _ hitem
      obtain rfl := List.mem_singleton.mp hitem
      have hlength := List.idxOf_lt_length_of_mem (mem_firstOccurrences.mp hmem)
      rw [hfirst hmem, List.idxOf_append_of_notMem hnew]
      omega

end NestLayers.Text

namespace NestLayers.TypeScript

open NestLayers.Text

/-- No text of the import can be taken for punctuation of its line or ends it. -/
structure Import.IsPlain (i : Import) : Prop where
  names : ∀ name ∈ i.names, IsImportName name.toList ∧ IsOneLine name
  quote_notMem : '\x22' ∉ i.origin.toList
  isOneLine : IsOneLine i.origin

/-- It is decided by the names and the origin. -/
instance (i : Import) : Decidable i.IsPlain :=
  decidable_of_iff ((∀ name ∈ i.names, IsImportName name.toList ∧ IsOneLine name) ∧
      '\x22' ∉ i.origin.toList ∧ IsOneLine i.origin)
    ⟨fun ⟨hnames, hquote, hline⟩ => ⟨hnames, hquote, hline⟩,
      fun h => ⟨h.names, h.quote_notMem, h.isOneLine⟩⟩

private theorem Import.IsPlain.isReadable {i : Import} (h : i.IsPlain) (hnames : i.names ≠ []) :
    i.IsReadable :=
  ⟨hnames, fun name hname => (h.names name hname).1, h.quote_notMem⟩

private theorem Import.IsPlain.isOneLine_line {i : Import} (h : i.IsPlain) : IsOneLine i.line :=
  Import.isOneLine_line i (fun name hname => (h.names name hname).2) h.isOneLine

private theorem Import.line_ne_empty (i : Import) : i.line ≠ "" := by
  intro hempty
  have hchars := congrArg String.toList hempty
  simp [Import.line] at hchars

namespace Imports

variable {imports : Imports}

/-- Reads a block of imports. The empty text has no line, and every line is an import. -/
def ofBlock? (text : String) : Option Imports :=
  if text = "" then some {} else ((splitNewlines text.toList).mapM Import.ofLine?).map Imports.mk

/-- The imports that take any name. -/
def used (imports : Imports) : List Import :=
  imports.entries.filter (·.names ≠ [])

private theorem lines_eq (imports : Imports) : imports.lines = imports.used.map Import.line := by
  unfold lines used
  refine congrArg (List.map _) (List.filter_congr fun i _ => ?_)
  cases i.names <;> rfl

/-- A block is empty exactly if it has no line. -/
theorem block_eq_empty_iff : imports.block = "" ↔ imports.used = [] := by
  rw [block, lines_eq]
  cases imports.used with
  | nil => simp
  | cons i rest =>
    simp only [List.map_cons, reduceCtorEq, iff_false]
    intro hempty
    cases rest with
    | nil => exact i.line_ne_empty (by simpa using hempty)
    | cons next rest =>
      rw [List.map_cons, String.intercalate_cons_cons] at hempty
      have hchars := congrArg String.toList hempty
      simp at hchars

/-- The lines of a block are those of its imports. -/
theorem splitNewlines_block (h : ∀ i ∈ imports.entries, i.IsPlain) (hused : imports.used ≠ []) :
    splitNewlines imports.block.toList = imports.used.map (·.line.toList) := by
  have hlines : imports.lines ≠ [] := by simpa [lines_eq] using hused
  change splitNewlines (joinLines imports.lines).toList = _
  rw [splitNewlines_joinLines hlines, lines_eq, List.flatMap_map, List.map_eq_flatMap]
  refine List.flatMap_congr fun i hi => ?_
  exact splitNewlines_of_isOneLine (h i (List.mem_of_mem_filter hi)).isOneLine_line

/-- Lines of imports are read one by one. -/
theorem mapM_ofLine? {list : List Import} (h : ∀ i ∈ list, i.IsReadable) :
    (list.map (·.line.toList)).mapM Import.ofLine? =
      some (list.map fun i => ⟨i.origin, firstOccurrences i.names⟩) := by
  induction list with
  | nil => rfl
  | cons i list ih =>
    obtain ⟨hi, hlist⟩ := List.forall_mem_cons.mp h
    rw [List.map_cons, List.mapM_cons, Import.ofLine?_line hi, ih hlist]
    rfl

/-- **Blocks of imports lose and repeat nothing.** Read line by line, a block gives the imports
that take any name, in their order, each from its origin and with its names in order of first
occurrence. It is empty exactly if no import takes a name. -/
theorem block_readsBack (imports : Imports) (h : ∀ i ∈ imports.entries, i.IsPlain) :
    (∃ read, ofBlock? imports.block = some read ∧
      List.Forall₂ (fun i j => j.origin = i.origin ∧ AreFirstOccurrences i.names j.names)
        (imports.entries.filter (·.names ≠ [])) read.entries) ∧
    (imports.block = "" ↔ ∀ i ∈ imports.entries, i.names = []) := by
  have hempty : imports.used = [] ↔ ∀ i ∈ imports.entries, i.names = [] := by
    simp [used, List.filter_eq_nil_iff]
  refine ⟨?_, block_eq_empty_iff.trans hempty⟩
  by_cases hused : imports.used = []
  · refine ⟨{}, ?_, ?_⟩
    · rw [ofBlock?, if_pos (block_eq_empty_iff.mpr hused)]
    · change List.Forall₂ _ imports.used _
      rw [hused]
      exact .nil
  · have hread : ∀ i ∈ imports.used, i.IsReadable := by
      intro i hi
      obtain ⟨hmem, hnames⟩ := List.mem_filter.mp hi
      exact (h i hmem).isReadable (by simpa using hnames)
    refine ⟨⟨imports.used.map fun i => ⟨i.origin, firstOccurrences i.names⟩⟩, ?_, ?_⟩
    · rw [ofBlock?, if_neg (mt block_eq_empty_iff.mp hused), splitNewlines_block h hused,
        mapM_ofLine? hread]
      rfl
    · rw [List.forall₂_map_right_iff]
      exact List.forall₂_same.mpr fun i _ => ⟨rfl, areFirstOccurrences_firstOccurrences i.names⟩

/-- Imports with a repeated name and an origin without names. -/
def mixedImports : Imports :=
  ⟨[⟨"@nestjs/common", ["Injectable", "Inject", "Injectable"]⟩, ⟨"empty", []⟩, ⟨"./a", ["A", "B"]⟩]⟩

/-- A block reads back without a repeated name and an empty import. -/
theorem block_readsBack_mixed :
    (∀ i ∈ mixedImports.entries, i.IsPlain) ∧
      (∃ read, ofBlock? mixedImports.block = some read ∧
        List.Forall₂ (fun (i j : Import) =>
            j.origin = i.origin ∧ AreFirstOccurrences i.names j.names)
          [⟨"@nestjs/common", ["Injectable", "Inject", "Injectable"]⟩, ⟨"./a", ["A", "B"]⟩]
          read.entries) ∧
      mixedImports.block ≠ "" := by
  have hplain : ∀ i ∈ mixedImports.entries, i.IsPlain := by decide
  obtain ⟨hread, hempty⟩ := block_readsBack mixedImports hplain
  exact ⟨hplain, hread, mt hempty.mp (by decide)⟩

end Imports

end NestLayers.TypeScript
