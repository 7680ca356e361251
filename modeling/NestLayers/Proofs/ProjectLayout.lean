import NestLayers.Proofs.ResourceLayers

/-!
# Projects of the default layout

In the default layout the definition units stand below `prisma` and the resources below `src`. What
a layer is rendered from depends on nothing but the contents of the units: a unit is found and read
the same in two trees that have the same contents where units are looked for, and so is the
registry of models if the directories of the units are the same as well.
-/

namespace NestLayers

/-- The names that lead from the root of a project to the units of a location. -/
def Location.names : Location → List String
  | .primary => ["prisma", "schema", "models"]
  | .aggregate => ["prisma", "schema", "models", "info"]

namespace Location

private theorem dots_notMem (location : Location) : ".." ∉ location.names := by
  cases location <;> decide

private theorem isEntryName {location : Location} {name : String} (h : name ∈ location.names) :
    Path.IsEntryName name := by
  have hall : ∀ location ∈ [primary, aggregate], ∀ name ∈ location.names,
      (name ≠ "" ∧ name ≠ "." ∧ name ≠ ".." ∧ '/' ∉ name.toList) ∧ '\x00' ∉ name.toList ∧
        name.utf8ByteSize ≤ FileTree.longestName := by
    decide
  obtain ⟨⟨hempty, hdot, hdots, hslash⟩, hnull, hsize⟩ :=
    hall location (by cases location <;> decide) name h
  exact ⟨⟨hempty, hdot, hdots, hslash⟩, hnull, hsize⟩

end Location

/-- Names are put below one after another. -/
theorem Path.below_below (p : Path) (first second : List String) :
    (p.below first).below second = p.below (first ++ second) := by
  simp [below, List.append_assoc]

/-- A path with something at it leads to its place. -/
theorem FileTree.locate_of_find {tree : FileTree} {path : Path} {entry : Entry}
    (h : tree.find path = .ok (some entry)) : tree.locate path = .ok path.place := by
  unfold find at h
  split at h
  · rename_i place hlocate
    rw [hlocate, (locate_eq_ok_iff.mp hlocate).2.1]
  · cases h
  · cases h

/-! ## The name of a unit -/

namespace DefinitionStore

/-- The file of a unit has a plain name, which is that of a unit. -/
theorem isPlainName_unitId (id : String) :
    Path.IsPlainName (unitId id ++ extension) ∧ IsUnitName (unitId id ++ extension) := by
  have hname : '/' ∉ (Path.ofString id).name.toList := by
    unfold Path.name
    cases hlast : (Path.ofString id).parts.getLast? with
    | none => decide
    | some name =>
      rcases Path.isPlainName_of_mem_ofString (List.mem_of_getLast? hlast) with rfl | hplain
      · decide
      · exact hplain.slash_notMem
  have hslash : '/' ∉ (unitId id).toList := by
    unfold unitId Text.dropEnd
    rw [String.toList_ofList]
    split
    · rename_i rest hrest
      intro hmem
      refine hname (List.mem_reverse.mp ?_)
      rw [Text.append_of_afterStart? hrest]
      exact List.mem_append_right _ (List.mem_reverse.mp hmem)
    · exact hname
  have hlong {text : String} (htext : text.length < 7) : unitId id ++ extension ≠ text := by
    intro heq
    have hlength := congrArg String.length heq
    have hextension : extension.length = 7 := by decide
    rw [String.length_append] at hlength
    omega
  refine ⟨⟨hlong (by decide), hlong (by decide), hlong (by decide), ?_⟩, ?_⟩
  · simp [hslash, extension]
  · simp [IsUnitName, Text.endsWith]

variable {store : DefinitionStore} {s s' : Session} {id : String} {unit : Location × Path}

/-- Where a unit would be in a location. -/
def unitPath (store : DefinitionStore) (location : Location) (id : String) : Path :=
  (store.directory location).below [unitId id ++ extension]

/-- Whether there is a regular file at a path. -/
theorem isFile_eq_ok {path : Path} {answer : Bool} :
    isFile path s = .ok answer s' ↔
      s' = s ∧ ∃ entry, s.tree.find path = .ok entry ∧
        (answer = true ↔ ∃ content, entry = some (.file content)) := by
  simp only [isFile, entryAt, bind_eq_ok, look_eq_ok]
  constructor
  · rintro ⟨entry, s₁, ⟨hfind, rfl⟩, h⟩
    split at h <;> obtain ⟨rfl, rfl⟩ := EStateM.Result.ok.inj h
    · exact ⟨rfl, _, hfind, by simp⟩
    · rename_i hentry
      exact ⟨rfl, entry, hfind, by simpa using hentry⟩
  · rintro ⟨rfl, entry, hfind, hanswer⟩
    refine ⟨entry, s', ⟨hfind, rfl⟩, ?_⟩
    split
    · rw [hanswer.mpr ⟨_, rfl⟩]
      rfl
    · rename_i hentry
      have hfalse : answer = false := by
        refine Bool.eq_false_iff.mpr fun htrue => ?_
        obtain ⟨content, hcontent⟩ := hanswer.mp htrue
        exact hentry content hcontent
      rw [hfalse]
      rfl

/-- The primary unit is looked up first. -/
theorem resolve_eq (store : DefinitionStore) (id : String) :
    store.resolve id = (do
      if ← isFile (store.unitPath .primary id) then
        return (.primary, store.unitPath .primary id)
      else if ← isFile (store.unitPath .aggregate id) then
        return (.aggregate, store.unitPath .aggregate id)
      else fail (.unitMissing (unitId id ++ extension) store.primary store.aggregate)) := by
  have hpath (location : Location) :
      store.directory location / (unitId id ++ extension) = store.unitPath location id :=
    FileTree.div_of_isPlainName (isPlainName_unitId id).1 _
  rw [← hpath, ← hpath]
  rfl

/-- A unit is the file of its name in the first directory, or in the second one if there is none
in the first. -/
theorem resolve_eq_ok :
    store.resolve id s = .ok unit s' ↔
      s' = s ∧ ((∃ content, s.tree.find (store.unitPath .primary id) = .ok (some (.file content)) ∧
          unit = (.primary, store.unitPath .primary id)) ∨
        ∃ entry, s.tree.find (store.unitPath .primary id) = .ok entry ∧
          (∀ content, entry ≠ some (.file content)) ∧
          ∃ content, s.tree.find (store.unitPath .aggregate id) = .ok (some (.file content)) ∧
            unit = (.aggregate, store.unitPath .aggregate id)) := by
  rw [resolve_eq, bind_eq_ok]
  constructor
  · rintro ⟨inPrimary, s₁, hprimary, h⟩
    obtain ⟨rfl, entry, hfind, hanswer⟩ := isFile_eq_ok.mp hprimary
    split at h
    · rename_i htrue
      obtain ⟨content, rfl⟩ := hanswer.mp htrue
      obtain ⟨rfl, rfl⟩ := EStateM.Result.ok.inj h
      exact ⟨rfl, .inl ⟨content, hfind, rfl⟩⟩
    · rename_i hfalse
      obtain ⟨inAggregate, s₂, haggregate, hrest⟩ := bind_eq_ok.mp h
      obtain ⟨rfl, entry', hfind', hanswer'⟩ := isFile_eq_ok.mp haggregate
      split at hrest
      · rename_i htrue
        obtain ⟨content, rfl⟩ := hanswer'.mp htrue
        obtain ⟨rfl, rfl⟩ := EStateM.Result.ok.inj hrest
        have hother (content : Content) : entry ≠ some (.file content) :=
          fun hcontent => hfalse (hanswer.mpr ⟨content, hcontent⟩)
        exact ⟨rfl, .inr ⟨entry, hfind, hother, content, hfind', rfl⟩⟩
      · cases hrest
  · rintro ⟨rfl, ⟨content, hfind, rfl⟩ | ⟨entry, hfind, hentry, content, hfind', rfl⟩⟩
    · exact ⟨true, s', isFile_eq_ok.mpr ⟨rfl, _, hfind, by simp⟩, rfl⟩
    · refine ⟨false, s', isFile_eq_ok.mpr ⟨rfl, entry, hfind, by simpa using hentry⟩, ?_⟩
      exact bind_eq_ok.mpr ⟨true, s', isFile_eq_ok.mpr ⟨rfl, _, hfind', by simp⟩, rfl⟩

end DefinitionStore

/-! ## The layout -/

namespace Generator

variable {g : Generator} {tree before after : FileTree} {location : Location} {name : String}

/-- The tree is sound, and the project in it has the default layout. -/
structure IsDefaultProject (g : Generator) (tree : FileTree) : Prop where
  sound : tree.IsSound
  root : tree.isDirectory g.settings.projectRoot = true
  schemaDir : g.settings.schemaDir = ({} : Settings).schemaDir
  infoSchemaDir : g.settings.infoSchemaDir = ({} : Settings).infoSchemaDir
  sourceDir : g.settings.sourceDir = ({} : Settings).sourceDir
  exporter : g.exporter.settings = g.settings

namespace IsDefaultProject

variable (h : g.IsDefaultProject tree)

include h

/-- The source directory is below the root. -/
theorem sourcePath_eq : g.settings.sourcePath = g.settings.projectRoot.below ["src"] := by
  rw [Settings.sourcePath, h.sourceDir]
  rfl

private theorem directory_eq (location : Location) :
    g.store.directory location = g.settings.projectRoot.below location.names := by
  cases location with
  | primary =>
    change g.settings.projectRoot.join g.settings.schemaDir = _
    rw [h.schemaDir]
    rfl
  | aggregate =>
    change g.settings.projectRoot.join g.settings.infoSchemaDir = _
    rw [h.infoSchemaDir]
    rfl

/-- The unit directories are below the root. -/
theorem place_directory (location : Location) :
    (g.store.directory location).place = g.settings.projectRoot.place ++ location.names := by
  rw [h.directory_eq, Path.place_below _ location.dots_notMem]

/-- The names of the root can be those of entries. -/
theorem isEntryName_root :
    ∀ name ∈ g.settings.projectRoot.parts, name = ".." ∨ Path.IsEntryName name :=
  fun _ => h.sound.isEntryName_of_way (FileTree.isDirectory_iff.mp h.root).2

/-- The names of the source directory are names that files can have. -/
theorem isEntryName_source :
    ∀ name ∈ g.settings.sourcePath.parts, name = ".." ∨ Path.IsEntryName name := by
  intro name hname
  rw [h.sourcePath_eq] at hname
  rcases List.mem_append.mp hname with hname | hname
  · exact h.isEntryName_root name hname
  · obtain rfl := List.mem_singleton.mp hname
    exact .inr ⟨⟨by decide, by decide, by decide, by decide⟩, by decide, by decide⟩

/-- A source directory that is not refused stands in the root of the project, or would do so. -/
theorem locate_source {entry : Option Entry} (hfind : tree.find g.settings.sourcePath = .ok entry) :
    tree.locate g.settings.sourcePath = .ok g.settings.sourcePath.place := by
  refine FileTree.locate_eq_ok_iff.mpr
    ⟨FileTree.isUsable_of_find h.isEntryName_source hfind, rfl, ?_⟩
  have hparent : g.settings.sourcePath.parent = g.settings.projectRoot := by
    rw [h.sourcePath_eq]
    simpa [Path.below] using Path.parent_below g.settings.projectRoot [] "src"
  rw [hparent]
  exact (FileTree.isDirectory_iff.mp h.root).2

/-! ## Finding units -/

/-- A unit is at its path exactly if its content is at its place. -/
theorem find_unit_iff {content : Content} (hname : name ≠ "..") :
    tree.find ((g.store.directory location).below [name]) = .ok (some (.file content)) ↔
      ((g.store.directory location).below [name]).IsUsable ∧
        tree.contentAt? ((g.store.directory location).place ++ [name]) = some content := by
  have hdots : ".." ∉ location.names ++ [name] := by
    simpa [location.dots_notMem] using Ne.symm hname
  have hat (husable : ((g.store.directory location).below [name]).IsUsable) :
      tree.find ((g.store.directory location).below [name]) =
        .ok (tree.get? ((g.store.directory location).place ++ [name])) := by
    rw [FileTree.find_of_isUsable husable, h.place_directory, List.append_assoc]
    rw [h.directory_eq, Path.below_below] at husable ⊢
    rw [FileTree.at?_below h.sound.toIsProper h.root husable hdots]
  rw [FileTree.contentAt?_eq_some]
  constructor
  · intro hfind
    have husable := (FileTree.locate_eq_ok_iff.mp (FileTree.locate_of_find hfind)).1
    rw [hat husable] at hfind
    exact ⟨husable, Except.ok.inj hfind⟩
  · rintro ⟨husable, hentry⟩
    rw [hat husable, hentry]

/-- What is at the path of a directory of units is at its place. -/
theorem at?_directory (husable : (g.store.directory location).IsUsable) :
    tree.at? (g.store.directory location) = tree.get? (g.store.directory location).place := by
  rw [h.place_directory]
  rw [h.directory_eq] at husable ⊢
  rw [FileTree.at?_below h.sound.toIsProper h.root husable location.dots_notMem]

private theorem locate_directory (husable : (g.store.directory location).IsUsable)
    (hplace : tree.get? (g.store.directory location).place = some .directory) :
    tree.locate (g.store.directory location) = .ok (g.store.directory location).place := by
  have hfind : tree.find (g.store.directory location) = .ok (some .directory) := by
    rw [FileTree.find_of_isUsable husable, h.at?_directory husable, hplace]
  exact FileTree.locate_of_find hfind

/-- A directory of units whose path is too long is refused in every tree. -/
theorem isUsable_directory (location : Location) :
    (g.store.directory location).IsUsable ∨ ∀ tree : FileTree,
      tree.find (g.store.directory location) =
        .error (.nameTooLong (g.store.directory location)) := by
  have hnames : ∀ name ∈ (g.store.directory location).parts,
      name = ".." ∨ Path.IsEntryName name := by
    intro name hname
    rw [h.directory_eq] at hname
    rcases List.mem_append.mp hname with hname | hname
    · exact h.isEntryName_root name hname
    · exact .inr (Location.isEntryName hname)
  by_cases hsize : (g.store.directory location).toString.utf8ByteSize ≤ FileTree.longestPath
  · exact .inl (Path.isUsable_of_names hnames hsize)
  · right
    intro tree
    have hlong : tree.locate (g.store.directory location) = .error .nameTooLong := by
      rw [FileTree.locate, if_neg (by simp [Path.hasNull_of_names hnames]), if_pos (by omega)]
    simp [FileTree.find, hlong]

end IsDefaultProject

/-! ## The same units -/

/-- The two trees have the same contents where units are looked for. -/
def SameUnits (g : Generator) (before after : FileTree) : Prop :=
  ∀ location name, IsUnitName name →
    after.contentAt? ((g.store.directory location).place ++ [name]) =
      before.contentAt? ((g.store.directory location).place ++ [name])

/-- The two trees have the same directories of units, with the same entries. -/
def SameSchema (g : Generator) (before after : FileTree) : Prop :=
  ∀ location names, after.get? ((g.store.directory location).place ++ names) =
    before.get? ((g.store.directory location).place ++ names)

/-- The sessions have these trees and these registries. -/
def Between (before after : FileTree) (first second : Option Registry) (s t : Session) : Prop :=
  s.tree = before ∧ t.tree = after ∧ s.registry = first ∧ t.registry = second

/-- The journals are not compared. -/
theorem quiet_between (before after : FileTree) (first second : Option Registry) :
    Quiet (Between before after first second) :=
  ⟨fun _ h => h, fun _ h => h⟩

variable {s s' t : Session} {unit : Location × Path} {id : String}

/-- A unit that is found is a regular file in one of the two directories. -/
theorem exists_of_resolve_eq_ok (hproject : g.IsDefaultProject s.tree)
    (h : g.store.resolve id s = .ok unit s') :
    ∃ location name content, IsUnitName name ∧
      unit = (location, FileTree.entryPath (g.store.directory location) name) ∧
      ((g.store.directory location).below [name]).IsUsable ∧
      s.tree.contentAt? ((g.store.directory location).place ++ [name]) = some content := by
  obtain ⟨hplain, hname⟩ := DefinitionStore.isPlainName_unitId id
  obtain ⟨-, ⟨content, hfind, rfl⟩ | ⟨entry, -, -, content, hfind, rfl⟩⟩ :=
    DefinitionStore.resolve_eq_ok.mp h
  · obtain ⟨husable, hcontent⟩ := (hproject.find_unit_iff hplain.ne_dots).mp hfind
    exact ⟨.primary, _, content, hname, rfl, husable, hcontent⟩
  · obtain ⟨husable, hcontent⟩ := (hproject.find_unit_iff hplain.ne_dots).mp hfind
    exact ⟨.aggregate, _, content, hname, rfl, husable, hcontent⟩

/-- A unit is found in the same place. -/
theorem resolve_of_sameUnits (hs : g.IsDefaultProject s.tree) (ht : g.IsDefaultProject t.tree)
    (hunits : g.SameUnits s.tree t.tree) (h : g.store.resolve id s = .ok unit s') :
    g.store.resolve id t = .ok unit t := by
  obtain ⟨hplain, hname⟩ := DefinitionStore.isPlainName_unitId id
  have hfind (location : Location) (content : Content) :
      t.tree.find (g.store.unitPath location id) = .ok (some (.file content)) ↔
        s.tree.find (g.store.unitPath location id) = .ok (some (.file content)) := by
    rw [DefinitionStore.unitPath, ht.find_unit_iff hplain.ne_dots, hs.find_unit_iff hplain.ne_dots,
      hunits location _ hname]
  obtain ⟨-, ⟨content, hprimary, rfl⟩ | ⟨entry, hentry, hother, content, haggregate, rfl⟩⟩ :=
    DefinitionStore.resolve_eq_ok.mp h
  · exact DefinitionStore.resolve_eq_ok.mpr ⟨rfl, .inl ⟨content, (hfind _ _).mpr hprimary, rfl⟩⟩
  · -- the longer path can be looked for, so the shorter one can be as well
    have husable : (g.store.unitPath .primary id).IsUsable := by
      obtain ⟨husable, -⟩ := (hs.find_unit_iff hplain.ne_dots).mp haggregate
      have hnames : ∀ name ∈ (g.store.unitPath .primary id).parts,
          name = ".." ∨ Path.IsEntryName name := by
        intro name hmem
        rw [DefinitionStore.unitPath, hs.directory_eq] at hmem
        rcases List.mem_append.mp hmem with hmem | hmem
        · rcases List.mem_append.mp hmem with hmem | hmem
          · exact hs.isEntryName_root name hmem
          · exact .inr (Location.isEntryName hmem)
        · obtain rfl := List.mem_singleton.mp hmem
          exact .inr (husable.isEntryName (List.mem_append_right _ hmem) hplain)
      exact FileTree.isUsable_of_find hnames hentry
    refine DefinitionStore.resolve_eq_ok.mpr ⟨rfl, .inr ⟨_, FileTree.find_of_isUsable husable,
      fun content hcontent => ?_, content, (hfind _ _).mpr haggregate, rfl⟩⟩
    have hprimary : t.tree.find (g.store.unitPath .primary id) = _ :=
      FileTree.find_of_isUsable husable
    rw [hcontent, hfind] at hprimary
    rw [hprimary] at hentry
    exact hother content (Except.ok.inj hentry).symm

variable {first second : Option Registry}

/-- **A definition is loaded the same from the same units.** -/
theorem exists_load_eq_ok (hs : g.IsDefaultProject s.tree) (ht : g.IsDefaultProject t.tree)
    (hunits : g.SameUnits s.tree t.tree) {models : Registry} {d : Definition}
    (h : g.store.load models id s = .ok d s') :
    ∃ t', g.store.load models id t = .ok d t' ∧
      Between s.tree t.tree s.registry t.registry s' t' := by
  obtain ⟨unit, s₁, hresolve, hread⟩ := bind_eq_ok.mp h
  obtain rfl := DefinitionStore.session_resolve hresolve
  obtain ⟨location, name, content, hname, rfl, husable, hcontent⟩ :=
    exists_of_resolve_eq_ok hs hresolve
  have hdots : name ≠ ".." := by
    rintro rfl
    exact absurd hname (by decide +kernel)
  have hlocate {tree : FileTree} (hproject : g.IsDefaultProject tree)
      (hcontent : tree.contentAt? ((g.store.directory location).place ++ [name]) = some content) :=
    FileTree.locate_of_find ((hproject.find_unit_iff hdots).mpr ⟨husable, hcontent⟩)
  have hplace : ((g.store.directory location).below [name]).place =
      (g.store.directory location).place ++ [name] :=
    Path.place_below _ (by simpa using Ne.symm hdots)
  have hunit := hunits location name hname
  have hreads : Agrees (Between s₁.tree t.tree s₁.registry t.registry)
      (DefinitionStore.readUnit (FileTree.entryPath (g.store.directory location) name))
      (DefinitionStore.readUnit (FileTree.entryPath (g.store.directory location) name)) := by
    intro s' t' hsession
    refine agree_readUnit hsession ?_ fun place hfound => ?_
    · rw [hsession.1, hsession.2.1]
      exact (hlocate ht (hunit.trans hcontent)).trans (hlocate hs hcontent).symm
    · rw [hsession.1] at hfound ⊢
      obtain rfl := Except.ok.inj ((hlocate hs hcontent).symm.trans hfound)
      rw [hsession.2.1, hplace, hunit]
  have hquiet := quiet_between s₁.tree t.tree s₁.registry t.registry
  have hagree := hquiet.isReporting.readFile hreads models location s₁ t ⟨rfl, rfl, rfl, rfl⟩
  dsimp only at hread
  rw [hread] at hagree
  obtain ⟨_, t', ht', rfl, hbetween⟩ := hagree.exists_of_ok
  exact ⟨t', bind_eq_ok.mpr ⟨_, t, resolve_of_sameUnits hs ht hunits hresolve, ht'⟩, hbetween⟩

/-- Directories of units with the same entries are found, and the same files are listed in them. -/
theorem files_of_sameSchema (hs : g.IsDefaultProject s.tree) (ht : g.IsDefaultProject t.tree)
    (hschema : g.SameSchema s.tree t.tree) (location : Location) :
    t.tree.find (g.store.directory location) = s.tree.find (g.store.directory location) ∧
      (s.tree.find (g.store.directory location) = .ok (some .directory) →
        t.tree.filesIn (g.store.directory location) =
          s.tree.filesIn (g.store.directory location)) := by
  have hplace : t.tree.get? (g.store.directory location).place =
      s.tree.get? (g.store.directory location).place := by
    simpa using hschema location []
  rcases hs.isUsable_directory location with husable | hlong
  · refine ⟨?_, fun hfind => ?_⟩
    · rw [FileTree.find_of_isUsable husable, FileTree.find_of_isUsable husable,
        hs.at?_directory husable, ht.at?_directory husable, hplace]
    · rw [FileTree.find_of_isUsable husable, hs.at?_directory husable] at hfind
      have hdirectory := Except.ok.inj hfind
      exact FileTree.filesIn_congr hs.sound.distinct ht.sound.distinct
        (hs.locate_directory husable hdirectory)
        (ht.locate_directory husable (hplace.trans hdirectory)) fun name => hschema location [name]
  · refine ⟨by rw [hlong, hlong], fun hfind => ?_⟩
    rw [hlong] at hfind
    cases hfind

/-- The same units in the same directories are listed the same. -/
theorem agrees_files (hbefore : g.IsDefaultProject before) (hafter : g.IsDefaultProject after)
    (hschema : g.SameSchema before after) (location : Location) :
    Agrees (Between before after first second) (g.store.files location)
      (g.store.files location) := by
  intro s t hsession
  obtain ⟨rfl, rfl, -, -⟩ := id hsession
  obtain ⟨hfind, hfiles⟩ := files_of_sameSchema hbefore hafter hschema location
  rw [DefinitionStore.files_run, DefinitionStore.files_run, hfind]
  cases hentry : s.tree.find (g.store.directory location) with
  | error fault => exact .error hsession
  | ok entry =>
    dsimp only
    split
    · rename_i hdirectory
      rw [hfiles (hentry.trans (by rw [hdirectory]))]
      cases s.tree.filesIn (g.store.directory location) with
      | error fault => exact .error hsession
      | ok files => exact .ok rfl hsession
    · cases location with
      | primary => exact .error hsession
      | aggregate => exact .ok rfl hsession

/-- The units that are listed have the same texts. -/
theorem agrees_readUnit_of_files (hbefore : g.IsDefaultProject before)
    (hafter : g.IsDefaultProject after) (hschema : g.SameSchema before after)
    {location : Location} {paths : List Path} (hsession : Between before after first second s t)
    (hfiles : g.store.files location s = .ok paths s') {path : Path} (hpath : path ∈ paths) :
    Agrees (Between before after first second) (DefinitionStore.readUnit path)
      (DefinitionStore.readUnit path) := by
  obtain ⟨rfl, rfl, -, -⟩ := id hsession
  obtain ⟨hfind, -⟩ := files_of_sameSchema hbefore hafter hschema location
  rw [DefinitionStore.files_run] at hfiles
  cases hentry : s.tree.find (g.store.directory location) with
  | error fault => simp [hentry] at hfiles
  | ok entry =>
    simp only [hentry] at hfiles
    split at hfiles
    · rename_i hdirectory
      subst hdirectory
      obtain ⟨place, hlocate, hplace⟩ := FileTree.find_eq_directory.mp hentry
      obtain ⟨place', hlocate', hplace'⟩ := FileTree.find_eq_directory.mp (hfind.trans hentry)
      obtain rfl : place = _ := (FileTree.locate_eq_ok_iff.mp hlocate).2.1
      obtain rfl : place' = _ := (FileTree.locate_eq_ok_iff.mp hlocate').2.1
      split at hfiles
      · cases hfiles
      rename_i files hlisted
      obtain ⟨rfl, -⟩ := EStateM.Result.ok.inj hfiles
      rw [FileTree.unitFiles_of_filesIn hlocate hlisted] at hpath
      obtain ⟨name, hname, rfl⟩ := List.mem_map.mp hpath
      exact DefinitionStore.agrees_readUnit_entryPath (fun h => ⟨h.1, h.2.1⟩) hlocate hlocate'
        hplace hplace' (FileTree.mem_unitNames.mp hname).1
        (FileTree.contentAt?_congr (hschema location [name]))
    · cases location with
      | primary => cases hfiles
      | aggregate =>
        obtain ⟨rfl, -⟩ := EStateM.Result.ok.inj hfiles
        simp at hpath

/-- **The registry of the same units in the same directories is the same.** -/
theorem agrees_buildRegistry (hbefore : g.IsDefaultProject before)
    (hafter : g.IsDefaultProject after) (hschema : g.SameSchema before after) :
    Agrees (Between before after first second) g.store.buildRegistry g.store.buildRegistry :=
  Quiet.buildRegistry (agrees_files hbefore hafter hschema)
    (fun _ _ _ _ _ hsession hfiles _ =>
      agrees_readUnit_of_files hbefore hafter hschema hsession hfiles)
    (quiet_between _ _ _ _)

end Generator

end NestLayers
