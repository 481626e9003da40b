/-!
# Runs of a labelled system

A system (a set of controllers and the users and machines around them) has states, initial
states and labelled steps. A run is the list of the steps taken, each with the state before and
after it, so that a property can speak about a step in its run.

* `Run.invariant`: an inductive invariant holds before and after every step of a run.
* `Run.forall_iff`: if an invariant survives every step that meets a condition, and for a step
  from a state with the invariant the condition decides if the step is good, then the steps of a
  run are all good exactly when they all meet the condition. The runs of a system with a defect
  are described this way: the condition says that the defect is not hit.
* `Run.simulates`: forward simulation. If each step of a system is one of an abstract system, or none,
  its runs are runs of the abstract system.
-/

namespace Effect

/-- A system with states `St` whose steps carry a label (module doc). -/
structure Sys (St Lbl : Type) where
  init : St → Prop
  step : St → Lbl → St → Prop

/-- One step of a run. -/
structure Trans (St Lbl : Type) where
  pre : St
  lbl : Lbl
  post : St

/-- The runs of a system: the steps taken and the state reached. -/
inductive Run {St Lbl : Type} (S : Sys St Lbl) : List (Trans St Lbl) → St → Prop
  | nil {s : St} : S.init s → Run S [] s
  | snoc {ts : List (Trans St Lbl)} {s s' : St} {l : Lbl} :
      Run S ts s → S.step s l s' → Run S (ts ++ [⟨s, l, s'⟩]) s'

namespace Run

variable {St Lbl : Type} {S : Sys St Lbl} {I : St → Prop} {Good Cond : Trans St Lbl → Prop}
  {ts : List (Trans St Lbl)} {s : St}

theorem mem_snoc {t u : Trans St Lbl} (h : t ∈ ts ++ [u]) : t ∈ ts ∨ t = u := by
  simpa using h

/-- An invariant of the steps that meet `Cond` holds throughout a run whose steps all do. -/
theorem invariant (hi : ∀ s, S.init s → I s)
    (hs : ∀ t : Trans St Lbl, S.step t.pre t.lbl t.post → I t.pre → Cond t → I t.post)
    (h : Run S ts s) (hc : ∀ t ∈ ts, Cond t) :
    I s ∧ ∀ t ∈ ts, S.step t.pre t.lbl t.post ∧ I t.pre ∧ I t.post := by
  induction h with
  | nil h => exact ⟨hi _ h, by simp⟩
  | @snoc ts s s' l h hst ih =>
    obtain ⟨hI, hts⟩ := ih fun t ht => hc t (by simp [ht])
    have hI' := hs ⟨s, l, s'⟩ hst hI (hc _ (by simp))
    refine ⟨hI', fun t ht => ?_⟩
    rcases mem_snoc ht with ht | rfl
    · exact hts t ht
    · exact ⟨hst, hI, hI'⟩

/-- The same with no condition. -/
theorem invariant' (hi : ∀ s, S.init s → I s)
    (hs : ∀ t : Trans St Lbl, S.step t.pre t.lbl t.post → I t.pre → I t.post)
    (h : Run S ts s) : I s ∧ ∀ t ∈ ts, S.step t.pre t.lbl t.post ∧ I t.pre ∧ I t.post :=
  have hs' : ∀ t : Trans St Lbl, S.step t.pre t.lbl t.post → I t.pre → True → I t.post :=
    fun t ht hI _ => hs t ht hI
  h.invariant hi hs' fun _ _ => trivial

/-- The steps of a run are all good exactly when they all meet the condition (module doc). -/
theorem forall_iff (hi : ∀ s, S.init s → I s)
    (hs : ∀ t : Trans St Lbl, S.step t.pre t.lbl t.post → I t.pre → Cond t → I t.post)
    (hg : ∀ t : Trans St Lbl, S.step t.pre t.lbl t.post → I t.pre → (Good t ↔ Cond t))
    (h : Run S ts s) : (∀ t ∈ ts, Good t) ↔ ∀ t ∈ ts, Cond t := by
  induction h with
  | nil => simp
  | @snoc ts s s' l h hst ih =>
    have key : (∀ t ∈ ts, Cond t) → (Good ⟨s, l, s'⟩ ↔ Cond ⟨s, l, s'⟩) := fun hc =>
      hg ⟨s, l, s'⟩ hst (h.invariant hi hs hc).1
    simp only [List.forall_mem_append, List.forall_mem_singleton]
    rw [ih]
    exact and_congr_right key

/-- Forward simulation (module doc). What is assumed of the steps, `Good`, gives what is needed of
those of the abstract system, `Good'`. -/
theorem simulates {St' Lbl' : Type} {A : Sys St' Lbl'} {R : St → St' → Prop}
    {Good' : Trans St' Lbl' → Prop} (hi : ∀ s, S.init s → ∃ a, A.init a ∧ R s a)
    (hs : ∀ (t : Trans St Lbl) a, S.step t.pre t.lbl t.post → R t.pre a → Good t →
      R t.post a ∨ ∃ l a', A.step a l a' ∧ R t.post a' ∧ Good' ⟨a, l, a'⟩)
    (h : Run S ts s) (hgood : ∀ t ∈ ts, Good t) :
    ∃ ts' a, Run A ts' a ∧ R s a ∧ ∀ t ∈ ts', Good' t := by
  induction h with
  | nil h =>
    obtain ⟨a, ha, hR⟩ := hi _ h
    exact ⟨[], a, .nil ha, hR, by simp⟩
  | @snoc ts s s' l h hst ih =>
    obtain ⟨ts', a, hrun, hR, hts'⟩ := ih fun t ht => hgood t (by simp [ht])
    rcases hs ⟨s, l, s'⟩ a hst hR (hgood _ (by simp)) with hR' | ⟨l', a', hst', hR', hgood'⟩
    · exact ⟨ts', a, hrun, hR', hts'⟩
    · refine ⟨_, a', hrun.snoc hst', hR', fun t ht => ?_⟩
      rcases mem_snoc ht with ht | rfl
      · exact hts' t ht
      · exact hgood'

end Run

end Effect
