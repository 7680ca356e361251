import NestLayers.Proofs.Changes
import NestLayers.Proofs.DirectorySearch

/-!
# The directory of a resource

The directory of a resource is searched for in the tree as it is at the moment, and made if there
is none. Once it is made it is also found, and nothing that is made below it comes before it in the
search. So all layers of a resource go to one directory, whichever of them is first.
-/

namespace NestLayers

namespace FileTree

variable {tree before after : FileTree} {root source path : Path} {name : String}
  {names : List String}

/-! ## Paths below a directory -/

/-- A path that the file system takes is not refused. -/
theorem find_of_isUsable (h : path.IsUsable) : tree.find path = .ok (tree.at? path) := by
  have hlocate : tree.locate path ≠ .error .nameTooLong := by
    have hsize := h.size
    rw [locate, if_neg (by simp [h.hasNull]), if_neg (by omega)]
    exact follow_ne_nameTooLong h.names
  unfold find at?
  rcases htree : tree.locate path with (_ | _ | _ | _) | place
  · rfl
  · rfl
  · exact absurd htree hlocate
  · rfl
  · rfl

/-- What a path below a directory leads to stands at its place. -/
theorem at?_below (hproper : tree.IsProper) (hroot : tree.isDirectory root = true)
    (husable : (root.below names).IsUsable) (hdots : ".." ∉ names) :
    tree.at? (root.below names) = tree.get? (root.place ++ names) := by
  obtain ⟨-, hway⟩ := isDirectory_iff.mp hroot
  cases hentry : tree.get? (root.place ++ names) with
  | some entry =>
    have hparent : ∀ other ∈ (root.below names).parent.way,
        tree.get? other = some .directory := by
      intro other hother
      rcases List.eq_nil_or_concat names with rfl | ⟨above, last, rfl⟩
      · have hsub : other ∈ (root.below []).way := Path.mem_way_iff.mpr (.inl hother)
        simp only [Path.below, List.append_nil] at hsub
        exact hway other hsub
      · rw [List.concat_eq_append] at *
        have habove : ".." ∉ above := fun hmem => hdots (List.mem_append_left _ hmem)
        rw [Path.parent_below, Path.mem_way_below root habove] at hother
        rcases hother with hother | ⟨front, ⟨rest, rfl⟩, rfl⟩
        · exact hway other hother
        · have hfront : root.place ++ (front ++ rest ++ [last]) =
              root.place ++ front ++ (rest ++ [last]) := by simp
          rw [hfront] at hentry
          exact hproper.get?_of_append hentry (by simp)
    have hplace := root.place_below hdots
    rw [at?, locate_eq_ok_iff.mpr ⟨husable, hplace.symm, hparent⟩]
    exact hentry
  | none =>
    unfold at?
    cases hlocate : tree.locate (root.below names) with
    | error obstacle => rfl
    | ok place =>
      obtain ⟨-, rfl, -⟩ := locate_eq_ok_iff.mp hlocate
      rw [root.place_below hdots]
      exact hentry

/-! ## Where the directory of a resource is -/

/-- The directory of a resource: the first one of its name below the source directory, or a new one
directly in it. -/
def resourcePath (tree : FileTree) (source : Path) (name : String) : Path :=
  (tree.search source name).getD (source / name)

/-- Either there is a first directory of the name, or there is none of the name. -/
theorem resourcePath_cases (hproper : tree.IsProper)
    (hlocate : tree.locate source = .ok source.place) :
    (∃ names, tree.IsFirst source.place name names ∧
        tree.resourcePath source name = source.below names) ∨
      (∀ names, names.getLast? = some name →
          tree.get? (source.place ++ names) ≠ some .directory) ∧
        tree.resourcePath source name = source / name := by
  unfold resourcePath
  by_cases hsource : tree.isDirectory source = true
  · cases hsearch : tree.search source name with
    | some path =>
      obtain ⟨names, hfirst, rfl⟩ := (search_eq_some hsource).mp hsearch
      exact .inl ⟨names, hfirst, rfl⟩
    | none => exact .inr ⟨(search_eq_none hsource).mp hsearch, rfl⟩
  · rw [search, if_neg hsource]
    refine .inr ⟨fun names hlast hdirectory => hsource ?_, rfl⟩
    have hget := hproper.get?_of_append hdirectory (ne_nil_of_getLast? hlast)
    simp [isDirectory, at?, hlocate, hget]

/-- A name that no file can have is not found. -/
theorem resourcePath_of_not_isPlainName (hsound : tree.IsSound)
    (hlocate : tree.locate source = .ok source.place) (hname : ¬ Path.IsPlainName name) :
    tree.resourcePath source name = source / name := by
  rcases resourcePath_cases hsound.toIsProper hlocate with ⟨names, hfirst, -⟩ | ⟨-, hpath⟩
  · have hlast : name ∈ names := List.mem_of_getLast? hfirst.last
    exact absurd (hsound.isEntryName hfirst.directory hlast).toIsPlainName hname
  · exact hpath

/-- A plain name is put below. -/
theorem div_of_isPlainName (hname : Path.IsPlainName name) (source : Path) :
    source / name = source.below [name] := by
  have hparts : Path.ofString name = ⟨.current, [name]⟩ := by
    have hread := @Path.ofString_plain [name] (by simp) (by simpa using hname)
    rwa [String.intercalate_singleton] at hread
  change source.join (Path.ofString name) = _
  rw [hparts]
  rfl

/-- The directory of a resource lies below the source directory. -/
theorem exists_resourcePath_eq_below (hsound : tree.IsSound)
    (hlocate : tree.locate source = .ok source.place) (hname : Path.IsPlainName name) :
    ∃ names, tree.resourcePath source name = source.below names ∧ names.getLast? = some name ∧
      ".." ∉ names := by
  rcases resourcePath_cases hsound.toIsProper hlocate with ⟨names, hfirst, hpath⟩ | ⟨-, hpath⟩
  · exact ⟨names, hpath, hfirst.last, fun hmem =>
      (hsound.isEntryName hfirst.directory hmem).ne_dots rfl⟩
  · exact ⟨[name], hpath.trans (div_of_isPlainName hname source), rfl,
      by simpa using Ne.symm hname.ne_dots⟩

private theorem resourcePath_of_isFirst (hproper : tree.IsProper)
    (hlocate : tree.locate source = .ok source.place)
    (hfirst : tree.IsFirst source.place name names) :
    tree.resourcePath source name = source.below names := by
  rcases resourcePath_cases hproper hlocate with ⟨other, hother, hpath⟩ | ⟨hnone, -⟩
  · rw [hpath, hother.unique hfirst]
  · exact absurd hfirst.directory (hnone names hfirst.last)

/-- A directory below the source directory was there before, or changes that make directories only
on the way to a path and below it have made it there. -/
theorem Becomes.directory_cases {changes : List Change} {other : List String}
    (h : before.Becomes changes after) (hlocate : before.locate source = .ok source.place)
    (hdots : ".." ∉ names)
    (hmakes : ∀ change ∈ changes, ∀ place, change.Makes place →
      place ∈ (source.below names).way ∨ (source.below names).place <+: place)
    (hother : other ≠ []) (hdirectory : after.get? (source.place ++ other) = some .directory) :
    before.get? (source.place ++ other) = some .directory ∨ other <+: names ∨ names <+: other := by
  obtain ⟨-, -, hparent⟩ := locate_eq_ok_iff.mp hlocate
  rcases h.get?_eq_directory_iff.mp hdirectory with hold | ⟨change, hchange, hmake⟩
  · exact .inl hold
  · have hplace := hmakes change hchange _ hmake
    rw [Path.mem_way_below source hdots, source.place_below hdots] at hplace
    rcases hplace with (hway | ⟨front, hfront, hplace⟩) | hbelow
    · rcases Path.mem_way_iff.mp hway with hway | hplace
      · exact .inl (hparent _ hway)
      · exact absurd (by simpa using hplace) hother
    · exact .inr (.inl (List.append_cancel_left hplace ▸ hfront))
    · exact .inr (.inr ((List.prefix_append_right_inj _).mp hbelow))

/-- **The directory of a resource stays where it is.** If the directories that changes make are on
the way to it or below it, then it is the same before and after. -/
theorem resourcePath_of_becomes {changes : List Change} (hsound : before.IsSound)
    (hafter : after.IsSound) (hlocate : before.locate source = .ok source.place)
    (h : before.Becomes changes after)
    (hmakes : Path.IsPlainName name → ∀ change ∈ changes, ∀ place, change.Makes place →
      place ∈ (before.resourcePath source name).way ∨
        (before.resourcePath source name).place <+: place) :
    after.resourcePath source name = before.resourcePath source name := by
  have hlocate' := h.directories.locate hlocate
  by_cases hname : Path.IsPlainName name
  swap
  · rw [resourcePath_of_not_isPlainName hsound hlocate hname,
      resourcePath_of_not_isPlainName hafter hlocate' hname]
  specialize hmakes hname
  rcases @resourcePath_cases before source name hsound.toIsProper hlocate with
    ⟨first, hfirst, hpath⟩ | ⟨hnone, hpath⟩
  · -- it was found before, and is still the first one
    have hdots : ".." ∉ first := fun hmem =>
      (hsound.isEntryName hfirst.directory hmem).ne_dots rfl
    rw [hpath] at hmakes ⊢
    refine resourcePath_of_isFirst hafter.toIsProper hlocate' ?_
    refine hfirst.mono h.directories fun other hother hdirectory => ?_
    rcases h.directory_cases hlocate hdots hmakes (ne_nil_of_getLast? hother) hdirectory with
      hold | ⟨rest, rfl⟩ | hbelow
    · exact .inl hold
    · have hdirectory := hfirst.directory
      rw [← List.append_assoc] at hdirectory
      exact .inl (hsound.directory_of_append hdirectory)
    · exact .inr hbelow
  · -- it was not there before, and if it is found now then where it was to be made
    have hdots : ".." ∉ [name] := by simpa using Ne.symm hname.ne_dots
    rcases resourcePath_cases hafter.toIsProper hlocate' with ⟨other, hother, hpath'⟩ | ⟨-, hpath'⟩
    · rw [hpath, div_of_isPlainName hname] at hmakes ⊢
      have hbelow : [name] <+: other := by
        rcases h.directory_cases hlocate hdots hmakes (ne_nil_of_getLast? hother.last)
          hother.directory with hold | habove | hbelow
        · exact absurd hold (hnone other hother.last)
        · rcases List.prefix_cons_iff.mp habove with rfl | ⟨rest, rfl, -⟩
          · exact absurd rfl (ne_nil_of_getLast? hother.last)
          · exact ⟨rest, rfl⟩
        · exact hbelow
      have hfound : after.get? (source.place ++ [name]) = some .directory := by
        obtain ⟨rest, rfl⟩ := hbelow
        have hdirectory := hother.directory
        rw [← List.append_assoc] at hdirectory
        exact hafter.directory_of_append hdirectory
      have hle := hother.least [name] rfl hfound
      rw [hpath', le_antisymm hle (le_of_isPrefix hbelow)]
    · rw [hpath', hpath]

/-- The directories on the way to the one of a resource are there. -/
theorem directory_of_isPrefix {front : List String} (hsound : tree.IsSound)
    (hlocate : tree.locate source = .ok source.place) (hname : Path.IsPlainName name)
    (hbase : tree.resourcePath source name = source.below names) (hfront : front <+: names)
    (hne : front ≠ []) (hother : front ≠ names) :
    tree.get? (source.place ++ front) = some .directory := by
  rcases resourcePath_cases hsound.toIsProper hlocate with ⟨found, hfound, hpath⟩ | ⟨-, hpath⟩
  · obtain rfl : names = found := by simpa [Path.below] using hbase.symm.trans hpath
    obtain ⟨rest, rfl⟩ := hfront
    have hdirectory := hfound.directory
    rw [← List.append_assoc] at hdirectory
    exact hsound.directory_of_append hdirectory
  · obtain rfl : names = [name] := by
      simpa [div_of_isPlainName hname, Path.below] using hbase.symm.trans hpath
    rcases List.prefix_cons_iff.mp hfront with rfl | ⟨rest, rfl, hrest⟩
    · exact absurd rfl hne
    · exact absurd (by rw [List.prefix_nil.mp hrest]) hother

/-- What stands before the directory of a resource in the order of a search stood there already, if
what changes put is on the way to this directory or below it. -/
theorem Becomes.get?_eq_of_lt {changes : List Change} (hsound : before.IsSound)
    (hlocate : before.locate source = .ok source.place) (h : before.Becomes changes after)
    (hname : Path.IsPlainName name) (hbase : before.resourcePath source name = source.below names)
    (hdots : ".." ∉ names)
    (hinside : ∀ change ∈ changes, ∀ place, change.Makes place ∨ change.Writes place →
      place ∈ (source.below names).way ∨ (source.below names).place <+: place)
    (hne : other ≠ []) (hlt : other < names)
    (hentry : after.get? (source.place ++ other) ≠ none) :
    before.get? (source.place ++ other) = after.get? (source.place ++ other) := by
  by_cases hchange : ∃ change ∈ changes,
      change.Makes (source.place ++ other) ∨ change.Writes (source.place ++ other)
  · obtain ⟨change, hmem, hputs⟩ := hchange
    have hplace := hinside change hmem _ hputs
    rw [Path.mem_way_below source hdots, source.place_below hdots] at hplace
    have hdirectory : before.get? (source.place ++ other) = some .directory := by
      rcases hplace with (hsource | ⟨front, hfront, hplace⟩) | hbelow
      · obtain ⟨-, -, hparent⟩ := locate_eq_ok_iff.mp hlocate
        rcases Path.mem_way_iff.mp hsource with hsource | hplace
        · exact hparent _ hsource
        · exact absurd (by simpa using hplace) hne
      · obtain rfl := List.append_cancel_left hplace
        exact directory_of_isPrefix hsound hlocate hname hbase hfront hne hlt.ne
      · have hle := le_of_isPrefix ((List.prefix_append_right_inj _).mp hbelow)
        exact absurd hlt (not_lt.mpr hle)
    rw [hdirectory, h.directories _ hdirectory]
  · push Not at hchange
    obtain ⟨entry, hget⟩ := Option.ne_none_iff_exists'.mp hentry
    rw [hget]
    exact h.get?_of_eq_some (fun change hmem => (hchange change hmem).symm) hget

/-- **The directory of a resource is found again.** If it is there, and what changes make and write
is on the way to it or below it, then a search that was not refused before finds it afterwards. -/
theorem findDirectory_of_becomes {changes : List Change} {answer : Option Path}
    (hsound : before.IsSound) (hafter : after.IsSound)
    (hlocate : before.locate source = .ok source.place) (h : before.Becomes changes after)
    (hname : Path.IsPlainName name) (hfind : before.findDirectory source name = .ok answer)
    (hshort : (before.resourcePath source name).toString.utf8ByteSize ≤ longestPath)
    (hthere : after.get? (before.resourcePath source name).place = some .directory)
    (hinside : ∀ change ∈ changes, ∀ place, change.Makes place ∨ change.Writes place →
      place ∈ (before.resourcePath source name).way ∨
        (before.resourcePath source name).place <+: place) :
    after.findDirectory source name = .ok (some (before.resourcePath source name)) := by
  have hlocate' := h.directories.locate hlocate
  have hsame := resourcePath_of_becomes hsound hafter hlocate h fun _ change hchange place hmakes =>
    hinside change hchange place (.inl hmakes)
  obtain ⟨names, hbase, hlast, hdots⟩ := exists_resourcePath_eq_below hsound hlocate hname
  rw [hbase] at hsame hthere hshort hinside ⊢
  rw [Path.place_below _ hdots] at hthere
  have hfirst : after.IsFirst source.place name names := by
    rcases resourcePath_cases hafter.toIsProper hlocate' with ⟨found, hfound, hpath⟩ | ⟨hnone, -⟩
    · obtain rfl : found = names := by simpa [Path.below] using hpath.symm.trans hsame
      exact hfound
    · exact absurd hthere (hnone names hlast)
  have hsource {tree : FileTree} (hlocate : tree.locate source = .ok source.place)
      (hproper : tree.IsProper) {other : List String} (hother : other ≠ [])
      (hentry : tree.get? (source.place ++ other) ≠ none) : tree.isDirectory source = true := by
    obtain ⟨entry, hget⟩ := Option.ne_none_iff_exists'.mp hentry
    simp [isDirectory, at?, hlocate, hproper.get?_of_append hget hother]
  refine findDirectory_of_isFirst hafter.toIsProper
    (hsource hlocate' hafter.toIsProper (ne_nil_of_getLast? hlast) (by simp [hthere])) hfirst hshort
    fun other hlt result hother => ?_
  -- an entry that settles the search before would have settled the one before the changes
  have hne := hother.ne_nil (by decide)
  have hold := h.get?_eq_of_lt hsound hlocate hname hbase hdots hinside hne hlt
    hother.get?_ne_none
  refine not_settles_of_findDirectory hsound.toIsProper
    (hsource hlocate hsound.toIsProper hne (hold ▸ hother.get?_ne_none)) hfind
    (fun found hanswer => ?_)
    (hother.mono (hold ▸ hother.get?_ne_none) fun hdirectory => hold.trans hdirectory)
  obtain rfl : found = names := by
    rw [resourcePath, ← eq_search_of_findDirectory hsound.toIsProper hfind, hanswer] at hbase
    simpa [Path.below] using hbase
  exact hlt

/-- Where a path leads through directories there is nothing to make. -/
theorem becomes_make_of_way (h : ∀ place ∈ path.way, tree.get? place = some .directory) :
    tree.Becomes [.make path] tree where
  written := by simp
  made := by simpa using h
  cleared := by simp
  kept _ _ _ := rfl
  free := by
    intro place change hchange hmakes hcontent
    cases List.mem_singleton.mp hchange
    simp [contentAt?, h place hmakes] at hcontent
  directories := .refl tree
  reaches := .refl

/-- A search succeeds in a directory only. -/
theorem isDirectory_of_search (h : tree.search source name = some path) :
    tree.isDirectory source = true := by
  unfold search at h
  split at h
  · assumption
  · cases h

/-- A directory that is found is there already. -/
theorem becomes_make_of_search (hsound : tree.IsSound) (h : tree.search source name = some path) :
    tree.Becomes [.make path] tree ∧ (Change.make path).IsNamed := by
  have hsource := isDirectory_of_search h
  obtain ⟨-, hway⟩ := isDirectory_iff.mp hsource
  obtain ⟨names, hfirst, rfl⟩ := (search_eq_some hsource).mp h
  have hdots : ".." ∉ names := fun hmem => (hsound.isEntryName hfirst.directory hmem).ne_dots rfl
  have hall : ∀ place ∈ (source.below names).way, tree.get? place = some .directory := by
    intro place hplace
    rcases (Path.mem_way_below source hdots).mp hplace with hplace | ⟨front, ⟨rest, rfl⟩, rfl⟩
    · exact hway place hplace
    · have hdirectory := hfirst.directory
      rw [← List.append_assoc] at hdirectory
      exact hsound.directory_of_append hdirectory
  exact ⟨becomes_make_of_way hall, Change.isNamed_make fun _ hname =>
    hsound.isEntryName_of_way hall hname⟩

end FileTree

/-! ## Finding and making it -/

variable {s s' : Session} {source : Path} {name : String}

namespace Exporter

variable {exporter : Exporter} {resource : String} {base : Path}

/-- What is found or made is the directory of the resource. -/
theorem eq_resourcePath_of_resourceDirectory (hproper : s.tree.IsProper)
    (h : exporter.resourceDirectory resource true s = .ok base s') :
    base = s.tree.resourcePath exporter.settings.sourcePath (Naming.kebab resource) := by
  obtain ⟨answer, hfind, hanswer⟩ := exists_of_resourceDirectory_eq_ok h
  rw [FileTree.resourcePath, ← FileTree.eq_search_of_findDirectory hproper hfind]
  rcases hanswer with ⟨rfl, -⟩ | ⟨rfl, rfl, -⟩
  · rfl
  · rfl

/-- **Finding or making the directory of a resource is a change.** -/
theorem becomes_of_resourceDirectory_eq_ok (hlive : exporter.dryRun = false)
    (hsound : s.tree.IsSound)
    (hnames : ∀ name ∈ exporter.settings.sourcePath.parts, name = ".." ∨ Path.IsPlainName name)
    (h : exporter.resourceDirectory resource true s = .ok base s') :
    base.IsUsable ∧ s.tree.Becomes [.make base] s'.tree ∧ (Change.make base).IsNamed := by
  obtain ⟨answer, hfind, ⟨rfl, htree⟩ | ⟨-, hbase, hmade⟩⟩ := exists_of_resourceDirectory_eq_ok h
  · rw [htree]
    obtain ⟨hbecomes, hnamed⟩ := FileTree.becomes_make_of_search hsound
      (FileTree.eq_search_of_findDirectory hsound.toIsProper hfind).symm
    exact ⟨Path.isUsable_of_names hnamed.names
      (FileTree.size_of_findDirectory hsound.toIsProper hfind), hbecomes, hnamed⟩
  · rw [if_neg (by simp [hlive])] at hmade
    obtain ⟨husable, hbecomes⟩ := FileTree.becomes_makeDirectories hmade
    refine ⟨husable, hbecomes, Change.isNamed_make fun name hname => ?_⟩
    have hplain : name = ".." ∨ Path.IsPlainName name := by
      rcases Path.mem_parts_div (hbase ▸ hname) with hname | hname
      · exact hnames name hname
      · exact Path.isPlainName_of_mem_ofString hname
    exact hplain.imp id (husable.isEntryName hname)

/-- In a dry run the directory is told, and nothing is made. -/
theorem exists_resourceDirectory_eq_ok (hdry : exporter.dryRun = true) (resource : String)
    {answer : Option Path} (hproper : s.tree.IsProper)
    (hfind : s.tree.findDirectory exporter.settings.sourcePath (Naming.kebab resource) =
      .ok answer) :
    ∃ s', exporter.resourceDirectory resource true s =
        .ok (s.tree.resourcePath exporter.settings.sourcePath (Naming.kebab resource)) s' ∧
      s'.tree = s.tree ∧ s'.registry = s.registry := by
  rw [resourceDirectory_run, FileTree.resourcePath,
    ← FileTree.eq_search_of_findDirectory hproper hfind]
  dsimp only
  rw [hfind]
  cases answer with
  | some found => exact ⟨_, rfl, rfl, rfl⟩
  | none =>
    dsimp only
    rw [if_pos hdry]
    exact ⟨s, rfl, rfl, rfl⟩

end Exporter

end NestLayers
