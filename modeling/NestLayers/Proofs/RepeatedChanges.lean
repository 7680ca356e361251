import NestLayers.Proofs.Changes

/-!
# Making the same changes again

Changes are made of a tree one after another. When they have been made and are made once more, they
leave the tree as it is, whatever they are: the last change to a place has the last word each time.
No file has to be written only once for this, and none has to stay where it was removed.
-/

namespace NestLayers

/-- The directory at a place, if there is one there. -/
def Entry.asDirectory (entry : Option Entry) : Option Entry :=
  entry.filter (· == .directory)

/-- A directory is one already. -/
@[simp] theorem Entry.asDirectory_asDirectory (entry : Option Entry) :
    asDirectory (asDirectory entry) = asDirectory entry := by
  simp [asDirectory, Option.filter_filter]

/-- The change puts something at the place. -/
def Change.Puts (change : Change) (place : Place) : Prop :=
  change.Writes place ∨ change.Makes place

namespace FileTree

variable {before middle after before' after' : FileTree} {change : Change} {changes : List Change}
  {place : Place}

/-! ## One change -/

namespace Becomes

/-- Where one change puts something, it puts the same in every tree. -/
theorem get?_of_puts (h : before.Becomes [change] after) (h' : before'.Becomes [change] after')
    (hputs : change.Puts place) : after'.get? place = after.get? place := by
  rcases hputs with hwrites | hmakes
  · obtain ⟨file, content, rfl, rfl⟩ := Change.exists_of_writes hwrites
    rw [h.written file content List.mem_cons_self, h'.written file content List.mem_cons_self]
  · rw [h.made place change List.mem_cons_self hmakes, h'.made place change List.mem_cons_self hmakes]

/-- Where one change puts nothing, it removes a regular file or leaves what is there. -/
theorem get?_of_not_puts (h : before.Becomes [change] after) (hputs : ¬ change.Puts place) :
    (change.Clears place → after.get? place = Entry.asDirectory (before.get? place)) ∧
      (¬ change.Clears place → after.get? place = before.get? place) := by
  have hplace : ∀ other ∈ [change], ¬ other.Writes place ∧ ¬ other.Makes place :=
    List.forall_mem_singleton.mpr (not_or.mp hputs)
  exact ⟨fun hclears => h.cleared place hplace ⟨change, List.mem_cons_self, hclears⟩,
    fun hclears => h.kept place hplace (List.forall_mem_singleton.mpr hclears)⟩

end Becomes

/-! ## Changes one after another -/

/-- The tree becomes another one by changes, one after another. -/
inductive Undergoes : FileTree → List Change → FileTree → Prop
  | nil (tree : FileTree) : Undergoes tree [] tree
  | cons {before middle after : FileTree} {change : Change} {changes : List Change} :
      before.Becomes [change] middle → Undergoes middle changes after →
        Undergoes before (change :: changes) after

namespace Undergoes

/-- One change is a step. -/
theorem single (h : before.Becomes [change] after) : before.Undergoes [change] after :=
  .cons h (.nil _)

/-- Changes may go on after others. -/
theorem append {first second : List Change} (h₁ : before.Undergoes first middle)
    (h₂ : middle.Undergoes second after) : before.Undergoes (first ++ second) after := by
  induction h₁ with
  | nil => exact h₂
  | cons hchange _ ih => exact .cons hchange (ih h₂)

/-- Changes keep the directories. -/
theorem keepsDirectories (h : before.Undergoes changes after) : before.KeepsDirectories after := by
  induction h with
  | nil => exact .refl _
  | cons hchange _ ih => exact hchange.directories.trans ih

/-- A directory was there before or is made. -/
theorem get?_eq_directory_iff (h : before.Undergoes changes after) :
    after.get? place = some .directory ↔
      before.get? place = some .directory ∨ ∃ change ∈ changes, change.Makes place := by
  induction h with
  | nil => simp
  | cons hchange _ ih =>
    rw [ih, hchange.get?_eq_directory_iff]
    simp [or_assoc]

/-- A place stays free if no change puts anything there. -/
theorem get?_eq_none (h : before.Undergoes changes after)
    (hputs : ∀ change ∈ changes, ¬ change.Puts place) (hfree : before.get? place = none) :
    after.get? place = none := by
  induction h with
  | nil => exact hfree
  | @cons _ middle _ change _ hchange _ ih =>
    obtain ⟨hfirst, hrest⟩ := List.forall_mem_cons.mp hputs
    refine ih hrest ?_
    obtain ⟨hcleared, hkept⟩ := hchange.get?_of_not_puts hfirst
    by_cases hclears : change.Clears place
    · rw [hcleared hclears, hfree]
      rfl
    · rw [hkept hclears, hfree]

/-- A content stays if no change writes or removes a file there. -/
theorem contentAt?_eq (h : before.Undergoes changes after)
    (hplace : ∀ change ∈ changes, ¬ change.Writes place ∧ ¬ change.Clears place) :
    after.contentAt? place = before.contentAt? place := by
  induction h with
  | nil => rfl
  | cons hchange _ ih =>
    obtain ⟨hfirst, hrest⟩ := List.forall_mem_cons.mp hplace
    rw [ih hrest, hchange.contentAt?_eq (List.forall_mem_singleton.mpr hfirst.1)
      (List.forall_mem_singleton.mpr hfirst.2)]

/-- A regular file stays at its place, or is written over, if no change removes it. -/
theorem contentAt?_ne_none (h : before.Undergoes changes after)
    (hclears : ∀ change ∈ changes, ¬ change.Clears place)
    (hcontent : before.contentAt? place ≠ none) : after.contentAt? place ≠ none := by
  induction h with
  | nil => exact hcontent
  | cons hchange _ ih =>
    obtain ⟨hfirst, hrest⟩ := List.forall_mem_cons.mp hclears
    exact ih hrest
      (hchange.contentAt?_ne_none (List.forall_mem_singleton.mpr hfirst) hcontent)

end Undergoes

/-! ## The same changes in two trees -/

/-- The trees differ at most where changes are still to be made: anywhere that one of them puts
something, and in the regular files that one of them removes. -/
def Differs (before before' : FileTree) (changes : List Change) : Prop :=
  ∀ place, (∀ change ∈ changes, ¬ change.Puts place) →
    Entry.asDirectory (before'.get? place) = Entry.asDirectory (before.get? place) ∧
      ((∀ change ∈ changes, ¬ change.Clears place) → before'.get? place = before.get? place)

namespace Differs

/-- **Step.** One change that is made in both trees takes what it is about from the difference. -/
theorem step (h : before.Differs before' (change :: changes)) (hb : before.Becomes [change] after)
    (hb' : before'.Becomes [change] after') : after.Differs after' changes := by
  intro place hrest
  by_cases hputs : change.Puts place
  · have hsame := hb.get?_of_puts hb' hputs
    exact ⟨by rw [hsame], fun _ => hsame⟩
  obtain ⟨hdirectory, hsame⟩ := h place (List.forall_mem_cons.mpr ⟨hputs, hrest⟩)
  obtain ⟨hcleared, hkept⟩ := hb.get?_of_not_puts hputs
  obtain ⟨hcleared', hkept'⟩ := hb'.get?_of_not_puts hputs
  by_cases hclears : change.Clears place
  · rw [hcleared hclears, hcleared' hclears, hdirectory]
    exact ⟨rfl, fun _ => rfl⟩
  · rw [hkept hclears, hkept' hclears]
    exact ⟨hdirectory, fun hothers => hsame (List.forall_mem_cons.mpr ⟨hclears, hothers⟩)⟩

/-- **Run.** The same changes leave no difference. -/
theorem get?_eq (h : before.Differs before' changes) (hb : before.Undergoes changes after)
    (hb' : before'.Undergoes changes after') (place : Place) :
    after'.get? place = after.get? place := by
  induction hb generalizing before' with
  | nil =>
    cases hb'
    exact (h place (by simp)).2 (by simp)
  | cons hchange _ ih =>
    cases hb' with
    | cons hchange' hrest' => exact ih (h.step hchange hchange') hrest'

end Differs

/-- Changes leave a tree that differs from the one before at most where they are made. -/
theorem Undergoes.differs (h : before.Undergoes changes after) : before.Differs after changes := by
  induction h with
  | nil => exact fun place _ => ⟨rfl, fun _ => rfl⟩
  | @cons _ middle _ change _ hchange _ ih =>
    intro place hputs
    obtain ⟨hfirst, hrest⟩ := List.forall_mem_cons.mp hputs
    obtain ⟨hdirectory, hsame⟩ := ih place hrest
    obtain ⟨hcleared, hkept⟩ := hchange.get?_of_not_puts hfirst
    rw [hdirectory]
    by_cases hclears : change.Clears place
    · rw [hcleared hclears, Entry.asDirectory_asDirectory]
      exact ⟨rfl, fun hothers => absurd hclears (hothers change List.mem_cons_self)⟩
    · rw [hkept hclears]
      refine ⟨rfl, fun hothers => ?_⟩
      rw [hsame (List.forall_mem_cons.mp hothers).2, hkept hclears]

/-- **Again.** Changes that have been made leave the tree as it is when they are made again. -/
theorem Undergoes.get?_again {again : FileTree} (h : before.Undergoes changes after)
    (h' : after.Undergoes changes again) (place : Place) : again.get? place = after.get? place :=
  h.differs.get?_eq h h' place

end FileTree

end NestLayers
