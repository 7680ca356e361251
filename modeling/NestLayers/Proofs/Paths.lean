import NestLayers.Path
import NestLayers.Proofs.CharacterClasses

/-!
# Reading and collapsing paths

A path that is written as names with slashes between them is read back as these names, without
the single dots. Double dots that lead out of a directory take back its names.
-/

namespace NestLayers.Path

open NestLayers.Text

/-- Splitting at slashes is the library's splitting of a list. -/
theorem splitSlashes_eq_splitOn (cs : List Char) : splitSlashes cs = cs.splitOn '/' := by
  induction cs with
  | nil => rfl
  | cons c cs ih =>
    have hne := List.splitOnP_ne_nil (· == '/') cs
    simp only [List.splitOn] at ih ⊢
    rw [splitSlashes, ih, List.splitOnP_cons_eq_if_modifyHead]
    by_cases hc : c = '/'
    · simp [hc]
    · cases h : cs.splitOnP (· == '/') with
      | nil => exact absurd h hne
      | cons name names => simp [hc]

/-- The names of a path that is read. -/
theorem parts_ofString (text : String) :
    (ofString text).parts = ((splitSlashes text.toList).map String.ofList).filter
      fun name => name != "" && name != "." := by
  unfold ofString
  dsimp only
  split <;> rfl

/-- A name that stands for itself in a path. -/
structure IsPlainName (name : String) : Prop where
  ne_empty : name ≠ ""
  ne_dot : name ≠ "."
  ne_dots : name ≠ ".."
  slash_notMem : '/' ∉ name.toList

/-- It is decided by the characters. -/
instance (name : String) : Decidable (IsPlainName name) :=
  decidable_of_iff (name ≠ "" ∧ name ≠ "." ∧ name ≠ ".." ∧ '/' ∉ name.toList)
    ⟨fun ⟨hempty, hdot, hdots, hslash⟩ => ⟨hempty, hdot, hdots, hslash⟩,
      fun h => ⟨h.ne_empty, h.ne_dot, h.ne_dots, h.slash_notMem⟩⟩

/-- A plain name stays one when it goes on without a slash. -/
theorem IsPlainName.append {name rest : String} (h : IsPlainName name)
    (hrest : '/' ∉ rest.toList) : IsPlainName (name ++ rest) := by
  -- what it would be read as otherwise starts with nothing but dots
  have hdots {text : String} (htext : text.toList <+: ['.', '.']) : name ++ rest ≠ text := by
    rintro rfl
    have hname : name.toList <+: ['.', '.'] :=
      (List.prefix_append _ rest.toList).trans (by simpa using htext)
    simp only [List.prefix_cons_iff, List.prefix_nil] at hname
    rcases hname with hempty | ⟨_, hchars, rfl | ⟨_, rfl, rfl⟩⟩
    · exact h.ne_empty (String.toList_inj.mp hempty)
    · exact h.ne_dot (String.toList_inj.mp hchars)
    · exact h.ne_dots (String.toList_inj.mp hchars)
  refine ⟨hdots (by decide), hdots (by decide), hdots (by decide), ?_⟩
  simp [h.slash_notMem, hrest]

/-- The name of a source file is plain. -/
theorem isPlainName_source {stem : String} (hslash : '/' ∉ stem.toList) :
    IsPlainName (stem ++ ".ts") := by
  have hlong {text : String} (htext : text.length < 3) : stem ++ ".ts" ≠ text := by
    intro heq
    have hlength := congrArg String.length heq
    have hts : ".ts".length = 3 := by decide
    rw [String.length_append] at hlength
    omega
  exact ⟨hlong (by decide), hlong (by decide), hlong (by decide), by simp [hslash]⟩

/-- A path is read as the names between its slashes. -/
theorem ofString_intercalate {names : List String} (hne : names ≠ [])
    (hslash : ∀ name ∈ names, '/' ∉ name.toList) (hhead : names.head? ≠ some "") :
    ofString (String.intercalate "/" names) =
      ⟨.current, names.filter fun name => name != "" && name != "."⟩ := by
  have hsplit : (splitSlashes (String.intercalate "/" names).toList).map String.ofList = names := by
    have hchars : ∀ cs ∈ names.map String.toList, '/' ∉ cs := by
      intro cs hcs
      obtain ⟨name, hname, rfl⟩ := List.mem_map.mp hcs
      exact hslash name hname
    have htoList : "/".toList = ['/'] := by decide
    rw [String.toList_intercalate, htoList, splitSlashes_eq_splitOn,
      List.splitOn_intercalate '/' hchars (by simpa using hne)]
    simp
  have hstart : (String.intercalate "/" names).toList.takeWhile (· == '/') = [] := by
    cases names with
    | nil => exact absurd rfl hne
    | cons name names =>
      cases hname : name.toList with
      | nil => exact absurd (congrArg some (String.toList_eq_nil_iff.mp hname)) hhead
      | cons c cs =>
        have hc : c ≠ '/' := by
          rintro rfl
          exact hslash name List.mem_cons_self (hname ▸ List.mem_cons_self)
        cases names with
        | nil => simp [hname, hc]
        | cons next names => simp [hname, hc]
  simp only [ofString, hsplit, hstart, List.length_nil]

/-- Plain names are kept when a path is read. -/
theorem filter_plain {names : List String} (h : ∀ name ∈ names, IsPlainName name) :
    (names.filter fun name => name != "" && name != ".") = names := by
  rw [List.filter_eq_self]
  intro name hname
  simp [(h name hname).ne_empty, (h name hname).ne_dot]

/-- A path of plain names is read back. -/
theorem ofString_plain {names : List String} (hne : names ≠ [])
    (h : ∀ name ∈ names, IsPlainName name) :
    ofString (String.intercalate "/" names) = ⟨.current, names⟩ := by
  have hhead : names.head? ≠ some "" := fun hhead =>
    (h "" (List.mem_of_head? hhead)).ne_empty rfl
  rw [ofString_intercalate hne (fun name hname => (h name hname).slash_notMem) hhead,
    filter_plain h]

/-- A plain name is a path of its own. -/
theorem IsPlainName.ofString_eq {name : String} (h : IsPlainName name) :
    ofString name = ⟨.current, [name]⟩ := by
  have hname := ofString_plain (List.cons_ne_nil name []) (List.forall_mem_singleton.mpr h)
  rwa [String.intercalate_singleton] at hname

/-- Names without double dots are kept when a path is collapsed. -/
theorem foldl_collapse_plain {names : List String} (h : ∀ name ∈ names, IsPlainName name)
    (before : List String) :
    names.foldl (fun names name => if name = ".." then names.dropLast else names ++ [name]) before =
      before ++ names := by
  induction names generalizing before with
  | nil => simp
  | cons name names ih =>
    obtain ⟨hname, hrest⟩ := List.forall_mem_cons.mp h
    rw [List.foldl_cons, if_neg hname.ne_dots, ih hrest, List.append_assoc, List.singleton_append]

/-- As many double dots as there are names lead to the top. -/
theorem foldl_collapse_dots (names : List String) :
    (names.map fun _ => "..").foldl
      (fun names name => if name = ".." then names.dropLast else names ++ [name]) names = [] := by
  suffices h : ∀ (count : Nat) (names : List String), names.length = count →
      (List.replicate count "..").foldl
        (fun names name => if name = ".." then names.dropLast else names ++ [name]) names = [] by
    rw [List.map_const']
    exact h names.length names rfl
  intro count
  induction count with
  | zero => exact fun names hlength => by simpa using hlength
  | succ count ih =>
    intro names hlength
    rw [List.replicate_succ, List.foldl_cons, if_pos rfl]
    exact ih _ (by simp [hlength])

/-- Some names lead from a directory to the top: a single dot if it is the top, and otherwise a
double dot for each of its names. -/
def IsUp (up directory : List String) : Prop :=
  up = ["."] ∧ directory = [] ∨ up ≠ [] ∧ up = directory.map fun _ => ".."

/-- A written path that leads up and then down is read as its names. -/
theorem ofString_up {up directory names : List String} (hup : IsUp up directory)
    (hnames : ∀ name ∈ names, IsPlainName name) (hne : names ≠ []) :
    ofString (String.intercalate "/" (up ++ names)) =
      ⟨.current, (up ++ names).filter fun name => name != "" && name != "."⟩ := by
  refine ofString_intercalate (by simp [hne]) ?_ ?_
  · refine List.forall_mem_append.mpr ⟨?_, fun name hname => (hnames name hname).slash_notMem⟩
    have hdots : '/' ∉ "..".toList := by decide
    rcases hup with ⟨rfl, -⟩ | ⟨-, rfl⟩
    · decide
    · simp only [List.mem_map, forall_exists_index, and_imp, forall_apply_eq_imp_iff₂]
      exact fun _ _ => hdots
  · rcases hup with ⟨rfl, -⟩ | ⟨hne, rfl⟩
    · simp
    · cases directory with
      | nil => exact absurd rfl hne
      | cons first directory => simp

/-- The names that lead up take back the names of the directory. -/
theorem collapse_up {up directory names : List String} (hup : IsUp up directory)
    (hdirectory : ∀ name ∈ directory, IsPlainName name)
    (hnames : ∀ name ∈ names, IsPlainName name) :
    (Path.mk .current (directory ++
      ((up ++ names).filter fun name => name != "" && name != "."))).collapse =
        ⟨.current, names⟩ := by
  rw [List.filter_append, filter_plain hnames, collapse]
  simp only [List.foldl_append, foldl_collapse_plain hdirectory, List.nil_append]
  rcases hup with ⟨rfl, rfl⟩ | ⟨-, rfl⟩
  · simpa using foldl_collapse_plain hnames []
  · have hkept : ((directory.map fun _ => "..").filter fun name => name != "" && name != ".") =
        directory.map fun _ => ".." := by
      rw [List.filter_eq_self]
      simp
    rw [hkept, foldl_collapse_dots, foldl_collapse_plain hnames]
    rfl

/-! ## Sizes -/

/-- Names that follow make no row of names shorter. -/
theorem size_intercalate_le (separator : String) (names rest : List String) :
    (String.intercalate separator names).utf8ByteSize ≤
      (String.intercalate separator (names ++ rest)).utf8ByteSize := by
  by_cases hnames : names = []
  · simp [hnames]
  · by_cases hrest : rest = []
    · simp [hrest]
    · rw [String.intercalate_append_of_ne_nil hnames hrest]
      simp only [String.utf8ByteSize_append]
      omega

/-- A name adds no more than its size and a slash. -/
theorem size_concat_le (p : Path) (name : String) :
    (Path.mk p.start (p.parts ++ [name])).toString.utf8ByteSize ≤
      p.toString.utf8ByteSize + (name.utf8ByteSize + 1) := by
  rcases p with ⟨start, parts⟩
  have hle : (String.intercalate "/" (parts ++ [name])).utf8ByteSize ≤
      (String.intercalate "/" parts).utf8ByteSize + (name.utf8ByteSize + 1) := by
    by_cases hparts : parts = []
    · simp [hparts]
    · have hslash : "/".utf8ByteSize = 1 := by decide
      rw [String.intercalate_append_of_ne_nil hparts (List.cons_ne_nil _ _)]
      simp only [String.utf8ByteSize_append, String.intercalate_singleton]
      omega
  cases start with
  | current =>
    simp only [toString, List.isEmpty_iff, List.append_eq_nil_iff, List.cons_ne_nil, and_false,
      if_false]
    split
    · rename_i hnil
      rw [hnil] at hle ⊢
      simp only [String.intercalate_nil, String.utf8ByteSize_empty] at hle
      omega
    · exact hle
  | top | doubleTop =>
    simp only [toString, String.utf8ByteSize_append]
    omega

end NestLayers.Path
