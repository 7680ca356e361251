import Mathlib.Data.List.Induction
import Mathlib.Data.List.Nodup
import NestLayers.Proofs.ExportEffect
import NestLayers.Proofs.SessionAgreement

/-!
# When two trees have the same definition units

The definition units of a directory are found by listing it. A tree in which each place stands
once and everything stands in a directory lists a directory according to the contents in it, so
that the registry of models depends on nothing but the contents of the units and on where the two
paths lead. A tree that has grown by directories and by files that are no units has the same
registry, unless the path of the aggregate units leads somewhere only now.
-/

namespace NestLayers

/-- The name of a file that is taken for a definition unit. -/
def IsUnitName (name : String) : Prop :=
  Text.endsWith DefinitionStore.extension.toList name.toList = true

/-- It is decided by the characters. -/
instance (name : String) : Decidable (IsUnitName name) :=
  inferInstanceAs (Decidable (_ = _))

namespace FileTree

variable {tree before after : FileTree} {place : Place} {path : Path}

/-- Each place stands once. -/
def IsDistinct (tree : FileTree) : Prop :=
  (tree.entries.map (·.1)).Nodup

/-- It is decided by the places. -/
instance (tree : FileTree) : Decidable tree.IsDistinct :=
  inferInstanceAs (Decidable (List.Nodup _))

private theorem IsDistinct.erase (h : tree.IsDistinct) (place : Place) :
    (tree.erase place).IsDistinct :=
  h.sublist (List.filter_sublist.map _)

private theorem IsDistinct.insert (h : tree.IsDistinct) (place : Place) (entry : Entry) :
    (tree.insert place entry).IsDistinct := by
  have herased := h.erase place
  unfold IsDistinct FileTree.insert FileTree.erase at *
  rw [List.map_append, List.map_singleton, List.nodup_append]
  refine ⟨herased, by simp, ?_⟩
  rintro other hother _ hplace rfl
  obtain rfl := List.mem_singleton.mp hplace
  obtain ⟨e, he, rfl⟩ := List.mem_map.mp hother
  simpa using (List.mem_filter.mp he).2

/-- Places stay distinct entry by entry. -/
theorem Reaches.isDistinct (h : before.Reaches after) (hbefore : before.IsDistinct) :
    after.IsDistinct := by
  induction h with
  | refl => exact hbefore
  | insert place entry _ ih => exact ih.insert place entry
  | erase place _ ih => exact ih.erase place

/-- A file tree as there are: each place stands once, and what stands at a place stands in a
directory. -/
structure IsProper (tree : FileTree) : Prop where
  distinct : tree.IsDistinct
  rooted : ∀ place name entry, tree.get? (place ++ [name]) = some entry →
    tree.get? place = some .directory

/-! ## Listing a directory -/

/-- In a tree where each place stands once, a directory has no two children of one name. -/
theorem IsDistinct.nodup_children (h : tree.IsDistinct) (place : Place) :
    (tree.children place).Nodup := by
  rw [children_eq, (Text.perm_inOrder _).nodup_iff]
  refine List.Nodup.filterMap (fun first second name hfirst hsecond => ?_) h
  rw [eq_append_of_childName? hfirst, eq_append_of_childName? hsecond]

/-- The children of a directory are listed in order. -/
theorem pairwise_children (tree : FileTree) (place : Place) :
    (tree.children place).Pairwise (· ≤ ·) :=
  Text.pairwise_inOrder _

/-- The names of the regular files directly at a place that are taken for definition units. -/
def unitNames (tree : FileTree) (place : Place) : List String :=
  (tree.children place).filter fun name =>
    (tree.contentAt? (place ++ [name])).isSome &&
      Text.endsWith DefinitionStore.extension.toList name.toList

/-- Unit names are those of files. -/
theorem mem_unitNames {name : String} :
    name ∈ tree.unitNames place ↔
      IsUnitName name ∧ ∃ content, tree.contentAt? (place ++ [name]) = some content := by
  rw [unitNames, List.mem_filter, Bool.and_eq_true, Option.isSome_iff_exists, IsUnitName]
  constructor
  · rintro ⟨-, hcontent, hname⟩
    exact ⟨hname, hcontent⟩
  · rintro ⟨hname, content, hcontent⟩
    exact ⟨mem_children (contentAt?_eq_some.mp hcontent), ⟨content, hcontent⟩, hname⟩

/-- Of the names that are listed in a directory, those are the same that are selected in two trees if
the selected names are. -/
private theorem filter_children_congr {select select' : String → Bool}
    (hbefore : before.IsDistinct) (hafter : after.IsDistinct)
    (h : ∀ name, name ∈ (after.children place).filter select' ↔
      name ∈ (before.children place).filter select) :
    (after.children place).filter select' = (before.children place).filter select := by
  have hperm := (List.perm_ext_iff_of_nodup ((hafter.nodup_children place).filter select')
    ((hbefore.nodup_children place).filter select)).mpr h
  exact hperm.eq_of_pairwise (fun a b _ _ => String.le_antisymm)
    ((after.pairwise_children place).filter _) ((before.pairwise_children place).filter _)

/-- The definition units of a directory are determined by the contents in it. -/
theorem unitNames_congr (hbefore : before.IsDistinct) (hafter : after.IsDistinct)
    (h : ∀ name, IsUnitName name →
      after.contentAt? (place ++ [name]) = before.contentAt? (place ++ [name])) :
    after.unitNames place = before.unitNames place := by
  refine filter_children_congr hbefore hafter fun name => ?_
  change name ∈ after.unitNames place ↔ name ∈ before.unitNames place
  rw [mem_unitNames, mem_unitNames]
  exact and_congr_right fun hname => by rw [h name hname]

/-- What is listed in a directory is determined by the entries in it. -/
theorem filesIn_congr (hbefore : before.IsDistinct) (hafter : after.IsDistinct)
    (hlocate : before.locate path = .ok place) (hlocate' : after.locate path = .ok place)
    (h : ∀ name, after.get? (place ++ [name]) = before.get? (place ++ [name])) :
    after.filesIn path = before.filesIn path := by
  have hchildren : after.children place = before.children place := by
    simpa using filter_children_congr hbefore hafter (fun name => by
      simp [mem_children_iff, h name] : ∀ name,
        name ∈ (after.children place).filter (fun _ => true) ↔
          name ∈ (before.children place).filter fun _ => true)
  unfold filesIn findEntry
  simp only [hlocate, hlocate', hchildren, h]

/-- The files with the ending of definition units. -/
def unitFiles (files : List Path) : List Path :=
  files.filter fun file => Text.endsWith DefinitionStore.extension.toList file.name.toList

/-- The definition units of a directory as they are listed. -/
theorem unitFiles_of_filesIn {files : List Path} (hlocate : tree.locate path = .ok place)
    (h : tree.filesIn path = .ok files) :
    unitFiles files = (tree.unitNames place).map (entryPath path) := by
  obtain ⟨-, rfl⟩ := (filesIn_eq_ok hlocate).mp h
  unfold unitFiles unitNames
  induction tree.children place with
  | nil => rfl
  | cons name names ih =>
    rw [List.filterMap_cons, List.filter_cons]
    cases tree.contentAt? (place ++ [name]) with
    | none => simpa using ih
    | some content =>
      simp only [Option.map_some, List.filter_cons, name_entryPath, Option.isSome_some,
        Bool.true_and]
      split
      · rw [List.map_cons, ih]
      · exact ih

/-! ## Paths that lead somewhere later -/

/-- What stands below a place of a proper tree stands in a directory. -/
theorem IsProper.get?_of_append (h : tree.IsProper) {names : List String} {entry : Entry}
    (hentry : tree.get? (place ++ names) = some entry) (hnames : names ≠ []) :
    tree.get? place = some .directory := by
  induction names using List.reverseRecOn generalizing entry with
  | nil => exact absurd rfl hnames
  | append_singleton names name ih =>
    rw [← List.append_assoc] at hentry
    have habove := h.rooted _ _ _ hentry
    cases names with
    | nil => simpa using habove
    | cons first names => exact ih habove (List.cons_ne_nil _ _)

/-- Ordinary names lead to what stands below a place. -/
theorem IsProper.follow_eq_ok (h : tree.IsProper) {names : List String} {entry : Entry}
    (hnames : ∀ name ∈ names, name ≠ ".." ∧ name.utf8ByteSize ≤ longestName)
    (hentry : tree.get? (place ++ names) = some entry) :
    tree.follow place names = .ok (place ++ names) := by
  induction names generalizing place with
  | nil => simp [follow]
  | cons name names ih =>
    obtain ⟨⟨hdots, hsize⟩, hrest⟩ := List.forall_mem_cons.mp hnames
    have hplace := h.get?_of_append hentry (List.cons_ne_nil _ _)
    have happend : place ++ name :: names = place ++ [name] ++ names := by simp
    rw [happend] at hentry ⊢
    exact follow_cons_eq_ok.mpr ⟨hplace, hsize, by rw [if_neg hdots]; exact ih hrest hentry⟩

/-- Names of an ordinary size are not refused. -/
theorem follow_ne_nameTooLong {names : List String}
    (h : ∀ name ∈ names, name.utf8ByteSize ≤ longestName) :
    tree.follow place names ≠ .error .nameTooLong := by
  induction names generalizing place with
  | nil => simp [follow]
  | cons name names ih =>
    obtain ⟨hname, hnames⟩ := List.forall_mem_cons.mp h
    rw [follow]
    split
    · rw [if_neg (by omega)]
      exact ih hnames
    · simp
    · simp

/-- Names lead on from where the first of them lead. -/
theorem follow_append {first second : List String} {middle : Place}
    (h : tree.follow place first = .ok middle) :
    tree.follow place (first ++ second) = tree.follow middle second := by
  induction first generalizing place with
  | nil =>
    obtain rfl := Except.ok.inj h
    rfl
  | cons name names ih =>
    obtain ⟨hplace, hlength, hrest⟩ := follow_cons_eq_ok.mp h
    rw [List.cons_append, follow, hplace]
    dsimp only
    rw [if_neg (by omega), ih hrest]

/-- The path leads to a place, or has only ordinary names: no double dot and none of more bytes
than a name may have. What such a path leads to does not turn up by making directories
elsewhere. -/
def IsSettled (tree : FileTree) (path : Path) : Prop :=
  (∃ place, tree.locate path = .ok place) ∨
    ∀ name ∈ path.parts, name ≠ ".." ∧ name.utf8ByteSize ≤ longestName

/-- The second tree has the same definition units at all places, and at least the same
directories. -/
structure KeepsUnits (before after : FileTree) : Prop where
  directories : before.KeepsDirectories after
  content : ∀ place name, IsUnitName name →
    after.contentAt? (place ++ [name]) = before.contentAt? (place ++ [name])
  names : before.NamesFit after

/-- Keeping units is reflexive. -/
theorem KeepsUnits.refl (tree : FileTree) : tree.KeepsUnits tree :=
  ⟨.refl tree, fun _ _ _ => rfl, .refl tree⟩

/-- Keeping units is transitive. -/
theorem KeepsUnits.trans {middle : FileTree} (h₁ : before.KeepsUnits middle)
    (h₂ : middle.KeepsUnits after) : before.KeepsUnits after :=
  ⟨h₁.directories.trans h₂.directories, fun place name hname =>
    (h₂.content place name hname).trans (h₁.content place name hname), h₁.names.trans h₂.names⟩

/-- A tree that grows keeps its units. -/
theorem GrowsTo.keepsUnits (h : before.GrowsTo after) : before.KeepsUnits after :=
  ⟨h.directories, fun place name _ => h.contentAt? (place ++ [name]), h.names⟩

/-- A file of another name is no definition unit. -/
theorem Puts.keepsUnits {above : Place} {name : String} {content : Content}
    (h : before.Puts (above ++ [name]) content after) (hname : ¬ IsUnitName name) :
    before.KeepsUnits after := by
  refine ⟨h.directories, fun place other hother => h.other _ fun heq => hname ?_, h.names⟩
  obtain ⟨-, hlast⟩ := List.append_inj' heq rfl
  rwa [← (List.cons.inj hlast).1]

/-- There is room in a directory for what comes into it: its path leaves room for any name, or
nothing comes in. -/
def HasRoom (before : FileTree) (path : Path) (after : FileTree) : Prop :=
  LeavesRoom path ∨ ∀ place name, after.locate path = .ok place →
    before.get? (place ++ [name]) = none → after.get? (place ++ [name]) = none

/-- A directory that was listed can be listed in the later tree, and so can a new one, if there is
room in it. -/
theorem KeepsUnits.exists_filesIn_eq_ok (h : before.KeepsUnits after)
    (hroom : before.HasRoom path after) (hlocate : after.locate path = .ok place)
    (hbefore : ∀ name ∈ before.children place, IsShort path name) :
    ∃ files, after.filesIn path = .ok files := by
  refine ⟨_, (filesIn_eq_ok hlocate).mpr ⟨fun name hname => ?_, rfl⟩⟩
  by_cases hold : before.get? (place ++ [name]) = none
  · rcases hroom with hroom | hnone
    · exact hroom.isShort (h.names _ (mem_children_iff.mp hname) hold name (by simp))
    · exact absurd (hnone place name hlocate hold) (mem_children_iff.mp hname)
  · exact hbefore name (mem_children_iff.mpr hold)

/-- Nothing stood in a directory that a settled path leads to only in the later tree. -/
theorem KeepsUnits.get?_eq_none (h : before.KeepsUnits after) (hproper : before.IsProper)
    (hsettled : before.IsSettled path) (hlocate : after.locate path = .ok place)
    (hbefore : before.find path ≠ .ok (some .directory)) (name : String) :
    before.get? (place ++ [name]) = none := by
  by_contra hsome
  obtain ⟨entry, hentry⟩ := Option.ne_none_iff_exists'.mp hsome
  -- it would have stood in a directory that the path led to
  have hdirectory := hproper.rooted _ _ _ hentry
  have hplace : before.locate path = .ok place := by
    rcases hsettled with ⟨place', hplace'⟩ | hnames
    · obtain rfl := Except.ok.inj ((h.directories.locate hplace').symm.trans hlocate)
      exact hplace'
    · obtain ⟨hnull, hlength, hfollow⟩ := locate_eq_ok.mp hlocate
      have hdots : ".." ∉ path.parts := fun hmem => (hnames _ hmem).1 rfl
      have hparts := eq_append_of_follow hdots hfollow
      rw [hparts] at hdirectory ⊢
      exact locate_eq_ok.mpr ⟨hnull, hlength, hproper.follow_eq_ok hnames hdirectory⟩
  refine hbefore ?_
  simp only [find, hplace, hdirectory]

/-- A settled path that is not refused is not refused in the later tree. -/
theorem KeepsUnits.exists_find_eq_ok (h : before.KeepsUnits after)
    (hsettled : before.IsSettled path) {entry : Option Entry}
    (hfind : before.find path = .ok entry) : ∃ entry, after.find path = .ok entry := by
  unfold find at *
  cases hafter : after.locate path with
  | ok place => exact ⟨_, rfl⟩
  | error obstacle =>
    cases obstacle with
    | missing => exact ⟨none, rfl⟩
    | notADirectory => exact ⟨none, rfl⟩
    | nullCharacter => exact ⟨none, rfl⟩
    | nameTooLong =>
      exfalso
      rcases hsettled with ⟨place, hplace⟩ | hnames
      · rw [h.directories.locate hplace] at hafter
        cases hafter
      · unfold locate at hfind hafter
        split at hafter
        · cases hafter
        rename_i hnull
        split at hafter
        · rename_i hlong
          simp [hnull, hlong] at hfind
        · exact follow_ne_nameTooLong (fun name hname => (hnames name hname).2) hafter

/-- What a name leads to from a directory does not depend on the rest of the tree. -/
theorem locate_entryPath_congr {name : String} (hlocate : before.locate path = .ok place)
    (hlocate' : after.locate path = .ok place) (hplace : before.get? place = some .directory)
    (hplace' : after.get? place = some .directory) :
    after.locate (entryPath path name) = before.locate (entryPath path name) := by
  have hfollow {tree : FileTree} (hlocate : tree.locate path = .ok place)
      (hplace : tree.get? place = some .directory) :
      tree.follow [] (path.parts ++ [name]) =
        if longestName < name.utf8ByteSize then .error .nameTooLong
        else .ok (if name = ".." then place.dropLast else place ++ [name]) := by
    rw [follow_append (locate_eq_ok.mp hlocate).2.2, follow, hplace]
    rfl
  unfold locate entryPath
  dsimp only
  rw [hfollow hlocate hplace, hfollow hlocate' hplace']

end FileTree

/-! ## The registry of a tree that keeps the units -/

/-- The text of a definition unit of some content, if it has one. -/
def unitText (path : Path) : Option Content → Except FileFault String
  | none => .error (.missing path)
  | some (.text value) =>
    .ok (String.ofList (Definition.withoutMark (Text.unifyNewlines value.toList)))
  | some (.binary bytes) =>
    if .binary bytes ∈ DefinitionStore.unfinishedMarks then .ok "" else .error (.notText path)

/-- Reading a unit depends on the content that its path leads to. -/
theorem readUnit_run (path : Path) (s : Session) :
    DefinitionStore.readUnit path s =
      match s.tree.locate path with
      | .error .nameTooLong => .error (.crash (.fault (.nameTooLong path))) s
      | .error _ => .error (.crash (.fault (.missing path))) s
      | .ok place =>
        match unitText path (s.tree.contentAt? place) with
        | .ok text => .ok text s
        | .error fault => .error (.crash (.fault fault)) s := by
  have hmarks (entry : Option Entry) :
      (DefinitionStore.unfinishedMarks.any fun mark => entry == some (.file mark)) = true ↔
        ∃ mark ∈ DefinitionStore.unfinishedMarks, entry = some (.file mark) := by
    simp
  have htext (value : String) : Content.text value ∉ DefinitionStore.unfinishedMarks := by
    simp [DefinitionStore.unfinishedMarks]
  have hread : readText path s = _ := look_run (·.readText path) s
  unfold FileTree.readText FileTree.at? at hread
  unfold DefinitionStore.readUnit
  rw [bind_run, entryAt, look_run]
  unfold FileTree.find
  cases hlocate : s.tree.locate path with
  | error obstacle =>
    rw [hlocate] at hread
    cases obstacle <;> simp [-bind_pure_comp, bind_run_of_error hread]
  | ok place =>
    rw [hlocate] at hread
    dsimp only at hread ⊢
    split
    · rename_i hmark
      obtain ⟨mark, hmark, hget⟩ := (hmarks _).mp hmark
      rw [FileTree.contentAt?_eq_some.mpr hget]
      cases mark with
      | text value => exact absurd hmark (htext value)
      | binary bytes => simp [unitText, hmark]
    · rename_i hmark
      rw [hmarks] at hmark
      unfold FileTree.contentAt?
      rcases hget : s.tree.get? place with _ | _ | (value | bytes) <;> rw [hget] at hread
      · exact bind_run_of_error hread
      · exact bind_run_of_error hread
      · simp only [unitText]
        rw [bind_run_of_ok hread]
        simp
      · have hbytes : Content.binary bytes ∉ DefinitionStore.unfinishedMarks :=
          fun hmem => hmark ⟨_, hmem, hget⟩
        simp only [unitText, hbytes, if_false]
        exact bind_run_of_error hread

/-- A unit reads the same wherever its path leads to the same place with the same content. -/
theorem agree_readUnit {R : Session → Session → Prop} {s t : Session} {path : Path}
    (hsession : R s t) (hlocate : t.tree.locate path = s.tree.locate path)
    (hcontent : ∀ place, s.tree.locate path = .ok place →
      t.tree.contentAt? place = s.tree.contentAt? place) :
    Agree R Eq (DefinitionStore.readUnit path s) (DefinitionStore.readUnit path t) := by
  rw [readUnit_run, readUnit_run, hlocate]
  split
  · exact .error hsession
  · exact .error hsession
  · rename_i place hplace
    rw [hcontent place hplace]
    split
    · exact .ok rfl hsession
    · exact .error hsession

/-- The first session has the one tree and the second session the other, with a given registry. -/
def Across (before after : FileTree) (registry : Option Registry) (s t : Session) : Prop :=
  s.tree = before ∧ t.tree = after ∧ t.registry = registry

/-- The journals are not compared. -/
theorem quiet_across (before after : FileTree) (registry : Option Registry) :
    Quiet (Across before after registry) :=
  ⟨fun _ h => h, fun _ h => h⟩

namespace DefinitionStore

variable {before after : FileTree} {registry : Option Registry} {s s' t : Session}
  (store : DefinitionStore)

/-- Listing the units of a location. -/
theorem files_run (location : Location) (s : Session) :
    store.files location s =
      match s.tree.find (store.directory location) with
      | .error fault => .error (.crash (.fault fault)) s
      | .ok entry =>
        if entry = some .directory then
          match s.tree.filesIn (store.directory location) with
          | .error fault => .error (.crash (.fault fault)) s
          | .ok files => .ok (FileTree.unitFiles files) s
        else
          match location with
          | .primary => .error (.failure (.schemaDirectoryMissing store.primary)) s
          | .aggregate => .ok [] (s.record (.noAggregateDirectory store.aggregate)) := by
  unfold files isDirectory entryAt filesIn
  simp only [bind_run, look_run]
  cases s.tree.find (store.directory location) with
  | error fault => rfl
  | ok entry =>
    by_cases hentry : entry = some .directory
    · subst hentry
      simp only [pure_run, beq_self_eq_true, if_true, bind_run, look_run]
      cases s.tree.filesIn (store.directory location) <;> rfl
    · cases location with
      | primary =>
        simp [hentry]
        rfl
      | aggregate => simp [hentry, bind_run]

/-- The units of a settled location are the same in a tree that keeps the units, and stand in a
directory that was there before. -/
theorem exists_files_eq_ok (hkeeps : before.KeepsUnits after) (hproper : before.IsProper)
    (hdistinct : after.IsDistinct) {location : Location} {paths : List Path}
    (hst : Across before after registry s t)
    (hroom : before.HasRoom (store.directory location) after)
    (hsettled : before.IsSettled (store.directory location))
    (h : store.files location s = .ok paths s') :
    (∃ t', store.files location t = .ok paths t' ∧ Across before after registry s' t') ∧
    ∀ path ∈ paths, ∃ place name, before.locate (store.directory location) = .ok place ∧
      before.get? place = some .directory ∧ IsUnitName name ∧
      path = FileTree.entryPath (store.directory location) name := by
  obtain ⟨rfl, rfl, rfl⟩ := hst
  rw [files_run] at h ⊢
  cases hfind : s.tree.find (store.directory location) with
  | error fault => simp [hfind] at h
  | ok entry =>
    simp only [hfind] at h
    split at h
    · rename_i hdirectory
      subst hdirectory
      obtain ⟨place, hlocate, hplace⟩ := FileTree.find_eq_directory.mp hfind
      have hlocate' := hkeeps.directories.locate hlocate
      have hplace' := hkeeps.directories place hplace
      have hnames := FileTree.unitNames_congr hproper.distinct hdistinct
        (hkeeps.content place)
      rw [FileTree.find_eq_directory.mpr ⟨place, hlocate', hplace'⟩]
      simp only [if_true]
      split at h
      · cases h
      rename_i files hfiles
      obtain ⟨rfl, rfl⟩ := EStateM.Result.ok.inj h
      obtain ⟨files', hfiles'⟩ := hkeeps.exists_filesIn_eq_ok hroom hlocate'
        ((FileTree.filesIn_eq_ok hlocate).mp hfiles).1
      rw [hfiles']
      dsimp only
      rw [FileTree.unitFiles_of_filesIn hlocate hfiles,
        FileTree.unitFiles_of_filesIn hlocate' hfiles', hnames]
      refine ⟨⟨t, rfl, rfl, rfl, rfl⟩, fun path hpath => ?_⟩
      obtain ⟨name, hname, rfl⟩ := List.mem_map.mp hpath
      exact ⟨place, name, hlocate, hplace, (FileTree.mem_unitNames.mp hname).1, rfl⟩
    · rename_i hdirectory
      cases location with
      | primary => cases h
      | aggregate =>
        obtain ⟨rfl, rfl⟩ := EStateM.Result.ok.inj h
        refine ⟨?_, by simp⟩
        obtain ⟨entry', hfind'⟩ := hkeeps.exists_find_eq_ok hsettled hfind
        rw [hfind']
        dsimp only
        split
        · rename_i hdirectory'
          subst hdirectory'
          obtain ⟨place, hlocate, -⟩ := FileTree.find_eq_directory.mp hfind'
          have hnone := hkeeps.get?_eq_none hproper hsettled hlocate
            (by simpa [hfind] using hdirectory)
          obtain ⟨files, hfiles⟩ := hkeeps.exists_filesIn_eq_ok hroom hlocate
            fun name hname => absurd (hnone name) (FileTree.mem_children_iff.mp hname)
          have hunits : t.tree.unitNames place = [] := by
            refine List.eq_nil_iff_forall_not_mem.mpr fun name hname => ?_
            obtain ⟨hunit, content, hcontent⟩ := FileTree.mem_unitNames.mp hname
            rw [hkeeps.content place name hunit, FileTree.contentAt?, hnone] at hcontent
            cases hcontent
          rw [hfiles]
          dsimp only
          rw [FileTree.unitFiles_of_filesIn hlocate hfiles, hunits]
          exact ⟨t, rfl, rfl, rfl, rfl⟩
        · exact ⟨_, rfl, rfl, rfl, rfl⟩

/-- A listed location is a path that leads to a directory, or that of the aggregate units. -/
theorem isSettled_of_files_eq_ok {paths : List Path} (h : store.files .primary s = .ok paths s') :
    s.tree.IsSettled store.primary := by
  rw [files_run] at h
  cases hfind : s.tree.find store.primary with
  | error fault => simp [directory, hfind] at h
  | ok entry =>
    simp only [directory, hfind] at h
    split at h
    · rename_i hdirectory
      obtain ⟨place, hlocate, -⟩ := FileTree.find_eq_directory.mp (hdirectory ▸ hfind)
      exact .inl ⟨place, hlocate⟩
    · cases h

/-- A unit reads the same in two trees that have its directory and the same content of it. -/
theorem agrees_readUnit_entryPath {R : Session → Session → Prop}
    (hR : ∀ {s t}, R s t → s.tree = before ∧ t.tree = after) {directory : Path} {place : Place}
    {name : String} (hlocate : before.locate directory = .ok place)
    (hlocate' : after.locate directory = .ok place) (hplace : before.get? place = some .directory)
    (hplace' : after.get? place = some .directory) (hname : IsUnitName name)
    (hcontent : after.contentAt? (place ++ [name]) = before.contentAt? (place ++ [name])) :
    Agrees R (readUnit (FileTree.entryPath directory name))
      (readUnit (FileTree.entryPath directory name)) := by
  have hdots : name ≠ ".." := by
    rintro rfl
    exact absurd hname (by decide +kernel)
  intro s t hst
  obtain ⟨rfl, rfl⟩ := hR hst
  refine agree_readUnit hst (FileTree.locate_entryPath_congr hlocate hlocate' hplace hplace') ?_
  intro found hfound
  obtain ⟨-, -, hfollow⟩ := FileTree.locate_eq_ok.mp hfound
  rw [show (FileTree.entryPath directory name).parts = directory.parts ++ [name] from rfl,
    FileTree.follow_append (FileTree.locate_eq_ok.mp hlocate).2.2,
    FileTree.follow_cons_eq_ok, if_neg hdots] at hfollow
  obtain ⟨-, -, hfound⟩ := hfollow
  obtain rfl := Except.ok.inj hfound
  exact hcontent

/-- **A tree that keeps the units has the same registry.** -/
theorem exists_buildRegistry_eq_ok (hkeeps : before.KeepsUnits after) (hproper : before.IsProper)
    (hdistinct : after.IsDistinct) (hsettled : before.IsSettled store.aggregate)
    (hroom : ∀ location, before.HasRoom (store.directory location) after) {models : Registry}
    (hst : Across before after registry s t) (h : store.buildRegistry s = .ok models s') :
    ∃ t', store.buildRegistry t = .ok models t' ∧ Across before after registry s' t' := by
  obtain ⟨units, s₁, hunits, h⟩ := bind_eq_ok.mp h
  obtain ⟨primary, s₂, hprimary, hunits⟩ := bind_eq_ok.mp hunits
  obtain ⟨aggregate, s₃, haggregate, hunits⟩ := bind_eq_ok.mp hunits
  obtain ⟨hlist, rfl⟩ := EStateM.Result.ok.inj hunits
  have hplaced : before.IsSettled (store.directory .primary) :=
    hst.1 ▸ store.isSettled_of_files_eq_ok hprimary
  have hsettled : before.IsSettled (store.directory .aggregate) := hsettled
  obtain ⟨⟨t₂, hprimary', hst₂⟩, hpaths⟩ :=
    store.exists_files_eq_ok hkeeps hproper hdistinct hst (hroom _) hplaced hprimary
  obtain ⟨⟨t₃, haggregate', hst₃⟩, hpaths'⟩ :=
    store.exists_files_eq_ok hkeeps hproper hdistinct hst₂ (hroom _) hsettled haggregate
  have hunits' : store.allFiles t = .ok units t₃ :=
    bind_eq_ok.mpr ⟨primary, t₂, hprimary', bind_eq_ok.mpr ⟨aggregate, t₃, haggregate',
      congrArg (EStateM.Result.ok · t₃) hlist⟩⟩
  have hentry {directory : Path} {place : Place} {name : String}
      (hlocate : before.locate directory = .ok place) (hplace : before.get? place = some .directory)
      (hname : IsUnitName name) :
      Agrees (Across before after registry) (readUnit (FileTree.entryPath directory name))
        (readUnit (FileTree.entryPath directory name)) :=
    agrees_readUnit_entryPath (fun h => ⟨h.1, h.2.1⟩) hlocate (hkeeps.directories.locate hlocate)
      hplace (hkeeps.directories place hplace) hname (hkeeps.content place name hname)
  have hread : ∀ unit ∈ units,
      Agrees (Across before after registry) (readUnit unit.2) (readUnit unit.2) := by
    intro unit hunit
    rw [← hlist] at hunit
    rcases List.mem_append.mp hunit with hunit | hunit <;>
      obtain ⟨path, hpath, rfl⟩ := List.mem_map.mp hunit
    · obtain ⟨place, name, hlocate, hplace, hname, rfl⟩ := hpaths path hpath
      exact hentry hlocate hplace hname
    · obtain ⟨place, name, hlocate, hplace, hname, rfl⟩ := hpaths' path hpath
      exact hentry hlocate hplace hname
  have hquiet := quiet_across before after registry
  have hfold : Agrees (Across before after registry) (units.foldlM register {})
      (units.foldlM register {}) :=
    .foldlM units (fun unit hunit => hquiet.isReporting.register (hread unit hunit)) {}
  obtain ⟨models', s₄, hmodels, h⟩ := bind_eq_ok.mp h
  obtain ⟨rfl, rfl⟩ := EStateM.Result.ok.inj h
  have hagree := hfold s₃ t₃ hst₃
  rw [hmodels] at hagree
  obtain ⟨_, t₄, hmodels', rfl, hst₄⟩ := hagree.exists_of_ok
  exact ⟨_, bind_eq_ok.mpr ⟨units, t₃, hunits', bind_eq_ok.mpr ⟨models', t₄, hmodels', rfl⟩⟩,
    hquiet.left _ (hquiet.right _ hst₄)⟩

end DefinitionStore

end NestLayers
