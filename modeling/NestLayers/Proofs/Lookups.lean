import NestLayers.Proofs.FileFaults
import NestLayers.Proofs.ProjectLayout

/-!
# Looking paths up

Building the registry and rendering a layer only look at the tree. What the file system refuses then
is reported, but for a path that is too long: the file system refuses it already when it is looked
up. The definition units have to be text for this.
-/

namespace NestLayers

open NestLayers.Text

variable {α β : Type}

/-! ## Work that looks at the tree -/

/-- Work that leaves this tree as it is, even if it stops without a report, and that nothing stops
so but a path that is looked up and too long. -/
structure Looks (tree : FileTree) (looked : Path → Prop) (work : Work α) : Prop where
  kept : ∀ {s : Session} {a : α} {s' : Session}, s.tree = tree → work s = .ok a s' →
    s'.tree = tree
  tooLong : ∀ {s : Session} {cause : Crash} {s' : Session}, s.tree = tree →
    work s = .error (.crash cause) s' → s'.tree = tree ∧
      ∃ path, cause = .fault (.nameTooLong path) ∧ looked path ∧ ¬ path.IsUsable

namespace Looks

variable {tree : FileTree} {looked : Path → Prop}

/-- What comes next may depend on what is found in the tree. -/
theorem bind_of_ok {work : Work α} {next : α → Work β} (h : Looks tree looked work)
    (hnext : ∀ s a s', s.tree = tree → work s = .ok a s' → Looks tree looked (next a)) :
    Looks tree looked (work >>= next) where
  kept htree hok := by
    obtain ⟨a, s₁, hwork, hrest⟩ := bind_eq_ok.mp hok
    exact (hnext _ a s₁ htree hwork).kept (h.kept htree hwork) hrest
  tooLong htree hstop := by
    rcases bind_eq_error.mp hstop with hwork | ⟨a, s₁, hwork, hrest⟩
    · exact h.tooLong htree hwork
    · exact (hnext _ a s₁ htree hwork).tooLong (h.kept htree hwork) hrest

private theorem bind {work : Work α} {next : α → Work β} (h : Looks tree looked work)
    (hnext : ∀ a, Looks tree looked (next a)) : Looks tree looked (work >>= next) :=
  h.bind_of_ok fun _ a _ _ _ => hnext a

/-- Work that always gives a result and leaves the tree. -/
theorem of_ok {work : Work α} (h : ∀ s, ∃ a s', work s = .ok a s' ∧ s'.tree = s.tree) :
    Looks tree looked work where
  kept {s} _ _ htree hok := by
    obtain ⟨a, s₁, hwork, hkept⟩ := h s
    obtain ⟨-, rfl⟩ := EStateM.Result.ok.inj (hwork.symm.trans hok)
    exact hkept.trans htree
  tooLong {s} _ _ _ hstop := by
    obtain ⟨a, s₁, hwork, -⟩ := h s
    cases hwork.symm.trans hstop

private theorem pure (a : α) : Looks tree looked (Pure.pure a) :=
  of_ok fun s => ⟨a, s, rfl, rfl⟩

private theorem record (e : Event) : Looks tree looked (NestLayers.record e) :=
  of_ok fun s => ⟨(), s.record e, rfl, rfl⟩

private theorem fail (cause : Failure) : Looks tree looked (NestLayers.fail cause : Work α) where
  kept _ hok := by cases hok
  tooLong _ hstop := by cases hstop

/-- Work that looks at the tree may be done in sequence. -/
theorem isSequential (tree : FileTree) (looked : Path → Prop) :
    IsSequential fun work _ => Looks tree looked work :=
  ⟨pure, bind⟩

private theorem mapM {work : α → Work β} (items : List α)
    (h : ∀ item ∈ items, Looks tree looked (work item)) : Looks tree looked (items.mapM work) :=
  @IsSequential.mapM _ _ _ (isSequential tree looked) work work items h

private theorem foldlM {work : β → α → Work β} (items : List α)
    (h : ∀ item ∈ items, ∀ b, Looks tree looked (work b item)) (b : β) :
    Looks tree looked (items.foldlM work b) :=
  @IsSequential.foldlM _ _ _ (isSequential tree looked) work work items h b

/-- A question to the tree that is refused for nothing but paths that are too long. -/
theorem look {question : FileTree → Except FileFault α}
    (h : ∀ fault, question tree = .error fault →
      ∃ path, fault = .nameTooLong path ∧ looked path ∧ ¬ path.IsUsable) :
    Looks tree looked (look question) where
  kept htree hok := by
    obtain ⟨-, rfl⟩ := look_eq_ok.mp hok
    exact htree
  tooLong htree hstop := by
    obtain ⟨fault, hfault, hcause, rfl⟩ := look_eq_error.mp hstop
    obtain ⟨path, rfl, hpath⟩ := h fault (htree ▸ hfault)
    obtain rfl := Stop.crash.inj hcause
    exact ⟨htree, path, rfl, hpath⟩

private theorem entryAt {path : Path} (hlooked : looked path) : Looks tree looked (entryAt path) :=
  look fun _ hfind =>
    have ⟨hfault, hlong⟩ := FileTree.find_eq_error hfind
    ⟨path, hfault, hlooked, hlong⟩

/-- A directory is looked up at its path. -/
theorem isDirectory {path : Path} (hlooked : looked path) : Looks tree looked (isDirectory path) :=
  (entryAt hlooked).bind fun _ => pure _

private theorem isFile {path : Path} (hlooked : looked path) : Looks tree looked (isFile path) := by
  refine (entryAt hlooked).bind fun entry => ?_
  split <;> exact pure _

private theorem recordNote (note : Definition.Note) : Looks tree looked (recordNote note) := by
  refine of_ok fun s => ?_
  rcases recordNote_cases note s with hrun | ⟨e, hrun⟩
  · exact ⟨_, _, hrun, rfl⟩
  · exact ⟨_, _, hrun, rfl⟩

private theorem isReporting (tree : FileTree) (looked : Path → Prop) :
    IsReporting (Looks tree looked) :=
  ⟨isSequential tree looked, fail, record, recordNote⟩

end Looks

/-! ## Reading definition units -/

/-- The path is too long, or leads to a text. -/
def FileTree.IsText (tree : FileTree) (path : Path) : Prop :=
  ∀ entry, tree.find path = .ok entry → ∃ text, entry = some (.file (.text text))

namespace DefinitionStore

/-- The paths that are looked up for the definition units of a project: their directories, all that is
in these, and the files of the unit that is asked for. -/
inductive LooksUp (store : DefinitionStore) (tree : FileTree) (id : String) : Path → Prop
  | directory (location : Location) : LooksUp store tree id (store.directory location)
  | listed {location : Location} {name : String}
    (hentry : tree.get? ((store.directory location).place ++ [name]) ≠ none) :
    LooksUp store tree id (FileTree.entryPath (store.directory location) name)
  | unit (location : Location) : LooksUp store tree id (store.unitPath location id)

/-- The definition units of a project are text. -/
def AreText (store : DefinitionStore) (tree : FileTree) : Prop :=
  ∀ location name bytes, IsUnitName name →
    tree.contentAt? ((store.directory location).place ++ [name]) ≠ some (.binary bytes)

end DefinitionStore

namespace FileTree

variable {tree : FileTree} {path : Path} {entry : Option Entry}

private theorem at?_of_find (h : tree.find path = .ok entry) : tree.at? path = entry := by
  unfold find at h
  unfold at?
  split at h <;> simp_all

end FileTree

namespace DefinitionStore

variable {store : DefinitionStore} {tree : FileTree} {location : Location} {name id : String}
  {content : Content} {s s' : Session}

private theorem AreText.exists_text (htext : store.AreText tree) (hname : IsUnitName name)
    (hcontent : tree.contentAt? ((store.directory location).place ++ [name]) = some content) :
    ∃ text, content = .text text := by
  cases content with
  | text text => exact ⟨text, rfl⟩
  | binary bytes => exact absurd hcontent (htext location name bytes hname)

/-- A unit that is resolved is text. -/
theorem AreText.isText_unitPath (htext : store.AreText tree)
    (hfind : tree.find (store.unitPath location id) = .ok (some (.file content))) :
    tree.IsText (store.unitPath location id) := by
  obtain ⟨hplain, hname⟩ := isPlainName_unitId id
  have hdots : ".." ∉ [unitId id ++ extension] := by simpa using Ne.symm hplain.ne_dots
  have hplace : (store.unitPath location id).place =
      (store.directory location).place ++ [unitId id ++ extension] :=
    Path.place_below _ hdots
  have hget : tree.get? (store.unitPath location id).place = some (.file content) := by
    have hat := FileTree.at?_of_find hfind
    rwa [FileTree.at?, FileTree.locate_of_find hfind] at hat
  rw [hplace] at hget
  obtain ⟨text, rfl⟩ := htext.exists_text hname (FileTree.contentAt?_eq_some.mpr hget)
  intro entry hentry
  exact ⟨text, (Except.ok.inj (hfind.symm.trans hentry)).symm⟩

/-- A unit that is listed is text. -/
theorem AreText.isText_entryPath (htext : store.AreText tree) (hsound : tree.IsSound)
    (hdirectory : tree.isDirectory (store.directory location) = true) (hname : IsUnitName name)
    (hcontent : tree.contentAt? ((store.directory location).place ++ [name]) = some content) :
    tree.IsText (FileTree.entryPath (store.directory location) name) := by
  intro entry hentry
  obtain ⟨text, rfl⟩ := htext.exists_text hname hcontent
  have hget := FileTree.contentAt?_eq_some.mp hcontent
  have hplain := hsound.named _ _ _ hget
  obtain ⟨husable, -⟩ := FileTree.isDirectory_iff.mp hdirectory
  have hnull : ((store.directory location).below [name]).hasNull = false := by
    have hbase := husable.hasNull
    have hlast := hplain.null_notMem
    simp_all [Path.hasNull, Path.below]
  have hnames : ∀ other ∈ ((store.directory location).below [name]).parts,
      other.utf8ByteSize ≤ FileTree.longestName := by
    intro other hother
    rcases List.mem_append.mp hother with hother | hother
    · exact husable.names other hother
    · rw [List.mem_singleton.mp hother]
      exact hplain.size
  have hat := FileTree.at?_below hsound.toIsProper hdirectory
    ⟨hnull, FileTree.size_of_find_eq_ok hnull hentry, hnames⟩ (by simpa using Ne.symm hplain.ne_dots)
  exact ⟨text, (FileTree.at?_of_find hentry).symm.trans (hat.trans hget)⟩

/-- What is listed is text, and is looked up. -/
theorem AreText.isText_of_files (htext : store.AreText tree) (hsound : tree.IsSound)
    {paths : List Path} (htree : s.tree = tree) (h : store.files location s = .ok paths s') :
    ∀ path ∈ paths, tree.IsText path ∧ store.LooksUp tree id path := by
  intro path hpath
  rw [files_run, htree] at h
  cases hfind : tree.find (store.directory location) with
  | error fault => simp [hfind] at h
  | ok entry =>
    simp only [hfind] at h
    split at h
    · rename_i hentry
      subst hentry
      have hdirectory : tree.isDirectory (store.directory location) = true := by
        simp [FileTree.isDirectory_of_find hfind]
      split at h
      · cases h
      rename_i files hfiles
      rw [FileTree.unitFiles_of_filesIn (FileTree.locate_of_find hfind) hfiles] at h
      obtain ⟨rfl, -⟩ := EStateM.Result.ok.inj h
      obtain ⟨name, hname, rfl⟩ := List.mem_map.mp hpath
      obtain ⟨hunit, content, hcontent⟩ := FileTree.mem_unitNames.mp hname
      exact ⟨htext.isText_entryPath hsound hdirectory hunit hcontent,
        .listed (by simp [FileTree.contentAt?_eq_some.mp hcontent])⟩
    · -- there is nothing to list
      cases location with
      | primary => cases h
      | aggregate =>
        obtain ⟨rfl, -⟩ := EStateM.Result.ok.inj h
        cases hpath

end DefinitionStore

namespace Looks

variable {tree : FileTree} {store : DefinitionStore} {looked : Path → Prop} {path : Path}
  {id : String}

private theorem files (store : DefinitionStore) (location : Location) :
    Looks tree (store.LooksUp tree id) (store.files location) := by
  refine (isDirectory (.directory location)).bind fun answer => ?_
  split
  · refine (look fun fault hfault => ?_).bind fun files => pure _
    obtain ⟨place, name, hlocate, hentry, hlong, rfl⟩ := FileTree.filesIn_eq_error hfault
    obtain rfl : place = _ := (FileTree.locate_eq_ok_iff.mp hlocate).2.1
    exact ⟨_, rfl, .listed hentry, fun husable => hlong husable.size⟩
  · cases location with
    | primary => exact fail _
    | aggregate => exact (record _).bind fun _ => pure []

private theorem resolve (store : DefinitionStore) (id : String) :
    Looks tree (store.LooksUp tree id) (store.resolve id) := by
  rw [DefinitionStore.resolve_eq]
  refine (isFile (.unit .primary)).bind fun answer => ?_
  split
  · exact pure _
  · refine (isFile (.unit .aggregate)).bind fun answer => ?_
    split
    · exact pure _
    · exact fail _

private theorem readUnit (h : tree.IsText path) (hlooked : looked path) :
    Looks tree looked (DefinitionStore.readUnit path) := by
  refine (entryAt hlooked).bind_of_ok fun s entry s' htree hentry => ?_
  obtain ⟨hfind, -⟩ := look_eq_ok.mp hentry
  rw [htree] at hfind
  obtain ⟨text, rfl⟩ := h entry hfind
  have hread : tree.readText path = .ok (String.ofList (unifyNewlines text.toList)) := by
    rw [FileTree.readText, FileTree.at?_of_find hfind]
  split
  · exact pure ""
  · refine (look fun fault hfault => ?_).bind fun _ => pure _
    rw [hread] at hfault
    cases hfault

private theorem allFiles (store : DefinitionStore) :
    Looks tree (store.LooksUp tree id) store.allFiles :=
  (files store .primary).bind fun _ => (files store .aggregate).bind fun _ => pure _

private theorem load (htext : store.AreText tree) (registry : Registry) (id : String) :
    Looks tree (store.LooksUp tree id) (store.load registry id) := by
  refine (resolve store id).bind_of_ok fun s unit s' htree hunit => ?_
  obtain ⟨-, hfound⟩ := DefinitionStore.resolve_eq_ok.mp hunit
  rw [htree] at hfound
  rcases hfound with ⟨content, hfind, rfl⟩ | ⟨-, -, -, content, hfind, rfl⟩
  all_goals exact (isReporting _ _).readFile (readUnit (htext.isText_unitPath hfind) (.unit _)) _ _

variable (hsound : tree.IsSound) (htext : store.AreText tree)

include hsound htext

/-- All units that are listed are text. -/
theorem isText_of_allFiles {s s' : Session} {units : List (Location × Path)} (htree : s.tree = tree)
    (h : store.allFiles s = .ok units s') :
    ∀ unit ∈ units, tree.IsText unit.2 ∧ store.LooksUp tree id unit.2 := by
  obtain ⟨primary, s₁, hprimary, hrest⟩ := bind_eq_ok.mp h
  obtain ⟨aggregate, s₂, haggregate, hunits⟩ := bind_eq_ok.mp hrest
  obtain ⟨rfl, -⟩ := EStateM.Result.ok.inj hunits
  have htree₁ := (@files _ "" store .primary).kept htree hprimary
  intro unit hunit
  rcases List.mem_append.mp hunit with hunit | hunit <;>
    obtain ⟨path, hpath, rfl⟩ := List.mem_map.mp hunit
  · exact htext.isText_of_files hsound htree hprimary path hpath
  · exact htext.isText_of_files hsound htree₁ haggregate path hpath

private theorem buildRegistry : Looks tree (store.LooksUp tree id) store.buildRegistry := by
  refine (allFiles store).bind_of_ok fun s units s' htree hunits => ?_
  have hlisted := @isText_of_allFiles _ _ id hsound htext _ _ _ htree hunits
  refine (foldlM _ (fun unit hunit registry => ?_) _).bind fun _ => (record _).bind fun _ => pure _
  obtain ⟨hunitText, hlooked⟩ := hlisted unit hunit
  exact (isReporting _ _).register (readUnit hunitText hlooked) registry

private theorem loadAll (registry : Registry) (withAggregates : Bool) :
    Looks tree (store.LooksUp tree id) (store.loadAll registry withAggregates) := by
  refine (record _).bind fun _ => (allFiles store).bind_of_ok fun s units s' htree hunits => ?_
  have hlisted := @isText_of_allFiles _ _ id hsound htext _ _ _ htree hunits
  refine mapM _ fun unit hunit => ?_
  obtain ⟨hunitText, hlooked⟩ := hlisted unit (List.mem_of_mem_filter hunit)
  exact (isReporting _ _).readFile (readUnit hunitText hlooked) registry unit.1

private theorem loadAggregates (registry : Registry) :
    Looks tree (store.LooksUp tree id) (store.loadAggregates registry) :=
  (files store .aggregate).bind_of_ok fun _ _ _ htree hpaths => mapM _ fun path hpath =>
    have ⟨hpathText, hlooked⟩ := htext.isText_of_files hsound htree hpaths path hpath
    (isReporting _ _).readFile (readUnit hpathText hlooked) registry _

end Looks

/-! ## Rendering -/

/-- The paths that are looked up for the definition units when a resource is rendered. -/
def Generator.LooksUp (g : Generator) (tree : FileTree) (name : String) : Path → Prop :=
  g.store.LooksUp tree (g.conventions.resourceName name).definitionId

namespace Looks

variable {tree : FileTree} {looked : Path → Prop} {id : String}

variable (g : Generator) (hsound : tree.IsSound) (htext : g.store.AreText tree)

include hsound htext

private theorem registry : Looks tree (g.store.LooksUp tree id) g.registry where
  kept htree hok := (Generator.ahead_of_registry_eq_ok hok).1.trans htree
  tooLong {s} cause s' htree hstop := by
    rw [g.registry_run] at hstop
    cases hregistry : s.registry with
    | some models => simp [hregistry] at hstop
    | none =>
      rw [hregistry] at hstop
      cases hbuilt : g.store.buildRegistry s with
      | ok models s₁ => simp [hbuilt] at hstop
      | error stop s₁ =>
        simp only [hbuilt] at hstop
        obtain ⟨rfl, rfl⟩ := EStateM.Result.error.inj hstop
        exact (buildRegistry hsound htext).tooLong htree hbuilt

/-- What is looked up to find a unit. -/
theorem findUnit (name : String) : Looks tree (g.LooksUp tree name) (g.findUnit name) :=
  (registry g hsound htext).bind fun _ => resolve g.store _

/-- **Rendering a layer stops without a report only for a path that is too long.** -/
theorem layerOutput (layer : Layer) (name : String) :
    Looks tree (g.LooksUp tree name) (g.layerOutput layer name) :=
  (isReporting _ _).layerOutput g (registry g hsound htext) (fun models => load htext models _)
    (fun models => loadAll hsound htext models true) (loadAggregates hsound htext) layer

end Looks

end NestLayers
