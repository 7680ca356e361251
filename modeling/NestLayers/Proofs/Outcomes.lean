import Mathlib.Tactic.Common

/-!
# Computations that may fail

A sequence of computations is taken apart into its parts. A search that asks one item after another
ends at the first one that gives an answer or fails, and all items before it were asked in vain. A
selection succeeds if every item can be asked.
-/

namespace NestLayers

variable {ε α β : Type} {e : ε} {b : β}

/-- A successful sequence is a successful first part with a successful second one. -/
theorem except_bind_eq_ok {first : Except ε α} {next : α → Except ε β} :
    first >>= next = .ok b ↔ ∃ a, first = .ok a ∧ next a = .ok b := by
  cases first with
  | error e => simp [bind, Except.bind]
  | ok a => simp [bind, Except.bind]

/-- A sequence fails in its first part, or in its second one. -/
theorem except_bind_eq_error {first : Except ε α} {next : α → Except ε β} :
    first >>= next = .error e ↔ first = .error e ∨ ∃ a, first = .ok a ∧ next a = .error e := by
  cases first with
  | error e => simp [bind, Except.bind]
  | ok a => simp [bind, Except.bind]

/-- A mapped computation succeeds with what its result is mapped to. -/
theorem except_map_eq_ok {first : Except ε α} {f : α → β} :
    first.map f = .ok b ↔ ∃ a, first = .ok a ∧ f a = b := by
  cases first with
  | error e => simp [Except.map]
  | ok a => simp [Except.map]

variable {ask : α → Except ε (Option β)} {as : List α}

/-- A search is in vain if every item is asked in vain. -/
theorem findSomeM?_eq_none : as.findSomeM? ask = .ok none ↔ ∀ a ∈ as, ask a = .ok none := by
  induction as with
  | nil => simp [pure, Except.pure]
  | cons a as ih =>
    rw [List.findSomeM?_cons, List.forall_mem_cons, ← ih]
    rcases ask a with e | _ | b <;> simp [bind, Except.bind, pure, Except.pure]

/-- A search comes to an answer or a failure at the first item that does. -/
theorem findSomeM?_eq_iff {result : Except ε (Option β)} (hresult : result ≠ .ok none) :
    as.findSomeM? ask = result ↔
      ∃ front a back, as = front ++ a :: back ∧ (∀ c ∈ front, ask c = .ok none) ∧
        ask a = result := by
  induction as with
  | nil => simpa [pure, Except.pure] using hresult.symm
  | cons a as ih =>
    have hstep : (a :: as).findSomeM? ask = result ↔
        ask a = result ∨ ask a = .ok none ∧ as.findSomeM? ask = result := by
      rw [List.findSomeM?_cons]
      rcases ask a with e | _ | b <;> simp [bind, Except.bind, pure, Except.pure, hresult.symm]
    rw [hstep, ih]
    constructor
    · rintro (ha | ⟨ha, front, c, back, rfl, hfront, hc⟩)
      · exact ⟨[], a, as, rfl, by simp, ha⟩
      · exact ⟨a :: front, c, back, rfl, List.forall_mem_cons.mpr ⟨ha, hfront⟩, hc⟩
    · rintro ⟨_ | ⟨c, front⟩, d, back, heq, hfront, hd⟩
      · obtain ⟨rfl, -⟩ := List.cons.inj heq
        exact .inl hd
      · obtain ⟨rfl, rfl⟩ := List.cons.inj heq
        obtain ⟨ha, hfront⟩ := List.forall_mem_cons.mp hfront
        exact .inr ⟨ha, front, d, back, rfl, hfront, hd⟩

/-- A selection from items that can be asked is made from the answers. -/
theorem filterMapM_eq_ok {answer : α → Option β} (h : ∀ a ∈ as, ask a = .ok (answer a)) :
    as.filterMapM ask = .ok (as.filterMap answer) := by
  induction as with
  | nil => rfl
  | cons a as ih =>
    obtain ⟨ha, has⟩ := List.forall_mem_cons.mp h
    rw [List.filterMapM_cons, ha, ih has, List.filterMap_cons]
    cases answer a <;> rfl

/-- A selection succeeds only if every item can be asked. -/
theorem exists_of_filterMapM_eq_ok {bs : List β} (h : as.filterMapM ask = .ok bs) :
    ∀ a ∈ as, ∃ answer, ask a = .ok answer := by
  induction as generalizing bs with
  | nil => simp
  | cons a as ih =>
    rw [List.filterMapM_cons] at h
    obtain ⟨answer, ha, h⟩ := except_bind_eq_ok.mp h
    refine List.forall_mem_cons.mpr ⟨⟨answer, ha⟩, ?_⟩
    cases answer with
    | none => exact ih h
    | some b =>
      obtain ⟨bs, hbs, -⟩ := except_bind_eq_ok.mp h
      exact ih hbs

/-- A selection fails only at an item that cannot be asked. -/
theorem exists_of_filterMapM_eq_error (h : as.filterMapM ask = .error e) :
    ∃ a ∈ as, ask a = .error e := by
  induction as with
  | nil => cases h
  | cons a as ih =>
    rw [List.filterMapM_cons] at h
    rcases except_bind_eq_error.mp h with ha | ⟨answer, -, h⟩
    · exact ⟨a, List.mem_cons_self, ha⟩
    have has : as.filterMapM ask = .error e := by
      cases answer with
      | none => exact h
      | some b =>
        rcases except_bind_eq_error.mp h with has | ⟨bs, -, hbs⟩
        · exact has
        · cases hbs
    obtain ⟨c, hc, hask⟩ := ih has
    exact ⟨c, List.mem_cons_of_mem _ hc, hask⟩

end NestLayers
