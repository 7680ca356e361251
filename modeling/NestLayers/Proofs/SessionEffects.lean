import NestLayers.Proofs.FileTreeEffects
import NestLayers.Session

/-!
# What work does to the file tree of a session

Work in sequence is taken apart into the runs of its parts. Of the parts that touch the file
tree, making directories changes no content, writing a file changes the content at one place,
and clearing a directory takes away the regular files directly in it. Work that stops leaves
what it did before.
-/

namespace NestLayers

section Runs

variable {α β : Type} {s s' : Session} {stop : Stop}

/-- Work in sequence goes on where the first part left off. -/
theorem bind_run (work : Work α) (next : α → Work β) (s : Session) :
    (work >>= next) s =
      match work s with
      | .ok a s => next a s
      | .error stop s => .error stop s := by
  change EStateM.bind work next s = _
  unfold EStateM.bind
  cases work s <;> rfl

/-- Work in sequence gives a result if each part does. -/
theorem bind_eq_ok {work : Work α} {next : α → Work β} {b : β} :
    (work >>= next) s = .ok b s' ↔ ∃ a s₁, work s = .ok a s₁ ∧ next a s₁ = .ok b s' := by
  rw [bind_run]
  cases work s <;> simp

/-- Work in sequence stops where one of its parts does. -/
theorem bind_eq_error {work : Work α} {next : α → Work β} :
    (work >>= next) s = .error stop s' ↔
      work s = .error stop s' ∨ ∃ a s₁, work s = .ok a s₁ ∧ next a s₁ = .error stop s' := by
  rw [bind_run]
  cases work s <;> simp

/-- Work goes on after a result. -/
theorem bind_run_of_ok {work : Work α} {next : α → Work β} {a : α} (h : work s = .ok a s') :
    (work >>= next) s = next a s' := by
  rw [bind_run, h]

/-- Work does not go on after a stop. -/
theorem bind_run_of_error {work : Work α} {next : α → Work β} (h : work s = .error stop s') :
    (work >>= next) s = .error stop s' := by
  rw [bind_run, h]

/-- A value leaves the session as it is. -/
@[simp] theorem pure_run (a : α) (s : Session) : (pure a : Work α) s = .ok a s := rfl

/-- The tree is looked at. -/
@[simp] theorem currentTree_run (s : Session) : currentTree s = .ok s.tree s := rfl

/-- An event goes to the journal. -/
@[simp] theorem record_run (e : Event) (s : Session) : record e s = .ok () (s.record e) := rfl

/-- A refusal leaves the session as it is. -/
@[simp] theorem refuse_run (fault : FileFault) (s : Session) :
    (refuse fault : Work α) s = .error (.crash (.fault fault)) s := rfl

/-- Events do not change the tree. -/
@[simp] theorem tree_record (e : Event) (s : Session) : (s.record e).tree = s.tree := rfl

/-- Work on each of some items gives a result if the work on every item does, in order. -/
theorem mapM_cons_eq_ok {work : α → Work β} {a : α} {as : List α} {bs : List β} :
    ((a :: as).mapM work) s = .ok bs s' ↔
      ∃ b s₁ rest, work a s = .ok b s₁ ∧ as.mapM work s₁ = .ok rest s' ∧ bs = b :: rest := by
  simp only [List.mapM_cons, bind_eq_ok, pure_run, EStateM.Result.ok.injEq]
  constructor
  · rintro ⟨b, s₁, hwork, rest, s₂, hrest, rfl, rfl⟩
    exact ⟨b, s₁, rest, hwork, hrest, rfl⟩
  · rintro ⟨b, s₁, rest, hwork, hrest, rfl⟩
    exact ⟨b, s₁, hwork, rest, s', hrest, rfl, rfl⟩

/-- Work on each of some items stops at one of them, and is done with those before it. -/
theorem exists_of_mapM_eq_error {work : α → Work β} {as : List α}
    (h : as.mapM work s = .error stop s') :
    ∃ before a after bs s₁, as = before ++ a :: after ∧ before.mapM work s = .ok bs s₁ ∧
      work a s₁ = .error stop s' := by
  induction as generalizing s with
  | nil => simp at h
  | cons a as ih =>
    simp only [List.mapM_cons, bind_eq_error, pure_run, reduceCtorEq, and_false, exists_false,
      or_false] at h
    obtain hstop | ⟨b, s₁, hwork, hrest⟩ := h
    · exact ⟨[], a, as, [], s, rfl, rfl, hstop⟩
    · obtain ⟨before, c, after, bs, s₂, rfl, hbefore, hstop⟩ := ih hrest
      exact ⟨a :: before, c, after, b :: bs, s₂, rfl,
        mapM_cons_eq_ok.mpr ⟨b, s₁, bs, hwork, hbefore, rfl⟩, hstop⟩

/-- Faults are reported, and values stay. -/
theorem reporting_eq_ok {cause : FileFault → Failure} {work : Work α} {a : α} :
    reporting cause work s = .ok a s' ↔ work s = .ok a s' := by
  unfold reporting
  split
  · split <;> simp_all
  · simp_all

/-- Reported work stops where the work does, with a refusal turned into a failure. -/
theorem exists_of_reporting_eq_error {cause : FileFault → Failure} {work : Work α}
    (h : reporting cause work s = .error stop s') :
    ∃ inner, work s = .error inner s' ∧
      (stop = inner ∨ ∃ fault, inner = .crash (.fault fault) ∧ stop = .failure (cause fault)) := by
  unfold reporting at h
  split at h
  · rename_i fault s₁ hwork
    split at h <;> cases h
    · exact ⟨_, hwork, .inr ⟨fault, rfl, rfl⟩⟩
    · exact ⟨_, hwork, .inl rfl⟩
  · exact ⟨stop, h, .inl rfl⟩

/-- A value is followed by the time of the work. -/
theorem timed_eq_ok {label : String} {work : Work α} {a : α} :
    timed label work s = .ok a s' ↔
      ∃ s₁, work s = .ok a s₁ ∧ s' = s₁.record (.timed label) := by
  unfold timed
  cases work s <;> simp [eq_comm]

/-- A stop is followed by the time of the work. -/
theorem timed_eq_error {label : String} {work : Work α} :
    timed label work s = .error stop s' ↔
      ∃ s₁, work s = .error stop s₁ ∧ s' = s₁.record (.timed label) := by
  unfold timed
  cases work s <;> simp [eq_comm]

end Runs

variable {s s' : Session} {stop : Stop} {path : Path}

/-! ## Work on each of some items -/

/-- A relation between works that a sequence keeps. A property of works is one that leaves the
second work out of account. -/
structure IsSequential (P : {α : Type} → Work α → Work α → Prop) : Prop where
  pure : ∀ {α : Type} (a : α), P (Pure.pure a) (Pure.pure a)
  bind : ∀ {α β : Type} {work other : Work α} {next next' : α → Work β}, P work other →
    (∀ a, P (next a) (next' a)) → P (work >>= next) (other >>= next')

namespace IsSequential

variable {α β : Type} {P : {α : Type} → Work α → Work α → Prop} (hP : IsSequential P)

include hP

/-- Work on all items is like that on each. -/
theorem mapM {work other : α → Work β} (items : List α)
    (h : ∀ item ∈ items, P (work item) (other item)) : P (items.mapM work) (items.mapM other) := by
  induction items with
  | nil => exact hP.pure []
  | cons item items ih =>
    obtain ⟨hitem, hitems⟩ := List.forall_mem_cons.mp h
    rw [List.mapM_cons, List.mapM_cons]
    exact hP.bind hitem fun a => hP.bind (ih hitems) fun as => hP.pure (a :: as)

/-- Loops over items are like their bodies. -/
theorem forM {work other : α → Work PUnit} (items : List α)
    (h : ∀ item ∈ items, P (work item) (other item)) : P (items.forM work) (items.forM other) := by
  induction items with
  | nil => exact hP.pure ()
  | cons item items ih =>
    obtain ⟨hitem, hitems⟩ := List.forall_mem_cons.mp h
    exact hP.bind hitem fun _ => ih hitems

/-- Folds over items are like their steps. -/
theorem foldlM {work other : β → α → Work β} (items : List α)
    (h : ∀ item ∈ items, ∀ b, P (work b item) (other b item)) (b : β) :
    P (items.foldlM work b) (items.foldlM other b) := by
  induction items generalizing b with
  | nil => exact hP.pure b
  | cons item items ih =>
    obtain ⟨hitem, hitems⟩ := List.forall_mem_cons.mp h
    rw [List.foldlM_cons, List.foldlM_cons]
    exact hP.bind (hitem b) fun b => ih hitems b

end IsSequential

/-! ## Looking at the tree -/

section Look

variable {α : Type} {question : FileTree → Except FileFault α} {answer : α}

/-- A question to the tree is answered or refused, and changes nothing. -/
theorem look_run (question : FileTree → Except FileFault α) (s : Session) :
    look question s =
      match question s.tree with
      | .error fault => .error (.crash (.fault fault)) s
      | .ok answer => .ok answer s := by
  rw [look, bind_run, currentTree_run]
  dsimp only
  cases question s.tree <;> rfl

/-- A look leaves the session as it is. -/
theorem look_eq_ok : look question s = .ok answer s' ↔ question s.tree = .ok answer ∧ s' = s := by
  rw [look_run]
  cases question s.tree <;> simp [eq_comm]

/-- A look that fails leaves the session as it is. -/
theorem look_eq_error :
    look question s = .error stop s' ↔
      ∃ fault, question s.tree = .error fault ∧ stop = .crash (.fault fault) ∧ s' = s := by
  rw [look_run]
  cases question s.tree <;> simp [eq_comm]

end Look

/-- A path leads to a directory as it does for the tree alone. -/
theorem isDirectory_eq_ok {answer : Bool} (h : isDirectory path s = .ok answer s') :
    answer = s.tree.isDirectory path ∧ s' = s := by
  obtain ⟨entry, s₁, hentry, hanswer⟩ := bind_eq_ok.mp h
  obtain ⟨hfind, rfl⟩ := look_eq_ok.mp hentry
  cases hanswer
  refine ⟨?_, rfl⟩
  unfold FileTree.find at hfind
  unfold FileTree.isDirectory FileTree.at?
  split at hfind <;> simp_all

/-! ## Changing the tree -/

/-- Making directories keeps what was made, refused or not. -/
theorem ensureDirectory_run (path : Path) (s : Session) :
    ensureDirectory path s =
      match s.tree.makeDirectories path with
      | (tree, some fault) => .error (.crash (.fault fault)) { s with tree }
      | (tree, none) => .ok () ({ s with tree }.record (.directoryEnsured path)) := by
  unfold ensureDirectory
  simp only [bind_run, currentTree_run]
  obtain ⟨tree, fault⟩ := s.tree.makeDirectories path
  cases fault <;> rfl

/-- Writing a text keeps what was made, refused or not. -/
theorem writeFile_run (path : Path) (text : String) (s : Session) :
    writeFile path text s =
      match ensureDirectory path.parent s with
      | .error stop s => .error stop s
      | .ok _ s =>
        match s.tree.putFile path (.text text) with
        | (tree, some fault) => .error (.crash (.fault fault)) { s with tree }
        | (tree, none) =>
          .ok text.utf8ByteSize ({ s with tree }.record (.fileWritten text.utf8ByteSize path)) := by
  unfold writeFile
  simp only [bind_run]
  cases ensureDirectory path.parent s with
  | error stop s => rfl
  | ok _ s =>
    simp only [currentTree_run]
    obtain ⟨tree, fault⟩ := s.tree.putFile path (.text text)
    cases fault <;> rfl

/-- **What writing a text can come to.** The directories above it are not made; they are made, but
the file is not put; or both are done. -/
theorem writeFile_cases (path : Path) (text : String) (s : Session) :
    (∃ fault s', writeFile path text s = .error (.crash (.fault fault)) s' ∧
      s.tree.makeDirectories path.parent = (s'.tree, some fault)) ∨
    ∃ made, s.tree.makeDirectories path.parent = (made, none) ∧
      ((∃ fault s', writeFile path text s = .error (.crash (.fault fault)) s' ∧
          made.putFile path (.text text) = (s'.tree, some fault)) ∨
        ∃ s', writeFile path text s = .ok text.utf8ByteSize s' ∧
          made.putFile path (.text text) = (s'.tree, none)) := by
  rw [writeFile_run, ensureDirectory_run]
  rcases s.tree.makeDirectories path.parent with ⟨made, _ | fault⟩
  · refine .inr ⟨made, rfl, ?_⟩
    dsimp only [Session.record]
    rcases made.putFile path (.text text) with ⟨after, _ | fault⟩
    · exact .inr ⟨_, rfl, rfl⟩
    · exact .inl ⟨fault, _, rfl, rfl⟩
  · exact .inl ⟨fault, _, rfl, rfl⟩

/-- A file is put where its directories are made. -/
theorem writeFile_eq_ok {text : String} {size : Nat} (h : writeFile path text s = .ok size s') :
    ∃ made, s.tree.makeDirectories path.parent = (made, none) ∧
      made.putFile path (.text text) = (s'.tree, none) := by
  rcases writeFile_cases path text s with
    ⟨fault, s₁, hrun, -⟩ | ⟨made, hmake, ⟨fault, s₁, hrun, -⟩ | ⟨s₁, hrun, hput⟩⟩
  all_goals rw [hrun] at h; cases h
  exact ⟨made, hmake, hput⟩

/-- Writing fails at a directory or at the file. -/
theorem writeFile_eq_error {text : String} (h : writeFile path text s = .error stop s') :
    ∃ fault, stop = .crash (.fault fault) ∧
      (s.tree.makeDirectories path.parent = (s'.tree, some fault) ∨
        ∃ made, s.tree.makeDirectories path.parent = (made, none) ∧
          made.putFile path (.text text) = (s'.tree, some fault)) := by
  rcases writeFile_cases path text s with
    ⟨fault, s₁, hrun, hmake⟩ | ⟨made, hmake, ⟨fault, s₁, hrun, hput⟩ | ⟨s₁, hrun, -⟩⟩
  all_goals rw [hrun] at h; cases h
  · exact ⟨fault, rfl, .inl hmake⟩
  · exact ⟨fault, rfl, .inr ⟨made, hmake, hput⟩⟩

/-- A written file stands where its path leads to, and no other content changes. -/
theorem puts_of_writeFile_eq_ok {text : String} {size : Nat}
    (h : writeFile path text s = .ok size s') :
    ∃ place, s'.tree.locate path = .ok place ∧ s.tree.Puts place (.text text) s'.tree := by
  obtain ⟨made, hmake, hput⟩ := writeFile_eq_ok h
  obtain ⟨place, hlocate, hputs⟩ := FileTree.puts_putFile hput
  have hgrows := s.tree.growsTo_makeDirectories path.parent
  rw [hmake] at hgrows
  exact ⟨place, hlocate, hgrows.puts hputs⟩

/-- Writing a file changes no content where it stops. -/
theorem growsTo_of_writeFile_eq_error {text : String}
    (h : writeFile path text s = .error stop s') : s.tree.GrowsTo s'.tree := by
  obtain ⟨fault, -, hfault⟩ := writeFile_eq_error h
  have hgrows := s.tree.growsTo_makeDirectories path.parent
  rcases hfault with hmake | ⟨made, hmake, hput⟩
  · rwa [hmake] at hgrows
  · rw [hmake] at hgrows
    exact hgrows.trans (.of_get?_eq (FileTree.get?_putFile_of_fault hput))

/-- Clearing a path clears what it leads to if that is a directory, and does nothing
otherwise. -/
theorem clearFiles_run (path : Path) (s : Session) :
    clearFiles path s =
      match s.tree.find path with
      | .error fault => .error (.crash (.fault fault)) s
      | .ok entry =>
        if entry = some .directory then
          match s.tree.clearFiles path with
          | (tree, .error fault) => .error (.crash (.fault fault)) { s with tree }
          | (tree, .ok removed) =>
            .ok removed ({ s with tree }.record (.filesCleared removed.length path))
        else .ok [] s := by
  unfold clearFiles isDirectory entryAt
  simp only [bind_run, look_run]
  cases s.tree.find path with
  | error fault => rfl
  | ok entry =>
    by_cases hentry : entry = some .directory
    · subst hentry
      simp only [pure_run, beq_self_eq_true, if_true, bind_run, currentTree_run]
      rcases s.tree.clearFiles path with ⟨tree, fault | removed⟩ <;> rfl
    · simp [hentry]

/-- A path that was cleared leads to a directory that was emptied, or to none. -/
theorem clearFiles_eq_ok {removed : List Path} (h : clearFiles path s = .ok removed s') :
    ∃ entry, s.tree.find path = .ok entry ∧
      (entry = some .directory ∧ s.tree.clearFiles path = (s'.tree, .ok removed) ∨
        entry ≠ some .directory ∧ removed = [] ∧ s' = s) := by
  rw [clearFiles_run] at h
  split at h
  · cases h
  · rename_i entry hfind
    refine ⟨entry, hfind, ?_⟩
    split at h
    · rename_i hentry
      rcases hclear : s.tree.clearFiles path with ⟨tree, fault | cleared⟩ <;> rw [hclear] at h
      · cases h
      · cases h
        exact .inl ⟨hentry, rfl⟩
    · rename_i hentry
      cases h
      exact .inr ⟨hentry, rfl, rfl⟩

/-- Clearing a path stops only where the file system refuses it. -/
theorem clearFiles_eq_error (h : clearFiles path s = .error stop s') :
    ∃ fault, stop = .crash (.fault fault) := by
  rw [clearFiles_run] at h
  split at h
  · cases h
    exact ⟨_, rfl⟩
  · split at h
    · split at h <;> cases h
      exact ⟨_, rfl⟩
    · cases h

end NestLayers
