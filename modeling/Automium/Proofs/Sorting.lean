import Automium.Utils.Node

/-!
# How `SortNodesByNumber` ends

The `less` closure reads the first number of two hostnames. It panics on a hostname without a
digit, and records an error for a number that is no `int`. A sort that compares anything compares
each Node (`SliceSort.asks_of_compares`), so:

* if every number is in range, the result is sorted (`SortNodesByNumber_sorted`);
* if one is out of range, there is no result (`SortNodesByNumber_overflow`);
* without a digit in a hostname, the sort panics for some order of the Nodes
  (`exists_SortNodesByNumber_crash`), and with a digit in each for none
  (`SortNodesByNumber_no_crash`).
-/

namespace Automium

open Data Effect

/-- The hostname has a number, and it is an `int`. -/
def Fits (node : Node) : Prop :=
  ∃ ds, Go.firstNumber node.spec.hostname = some ds ∧ (Go.atoi ds).2 = none

/-- The number that a Node is sorted by. -/
def numberOf (node : Node) : Int :=
  ((Go.firstNumber node.spec.hostname).map fun ds => (Go.atoi ds).1).getD 0

section

variable {sort : SliceSort} {nodes : List Node} {a b node : Node}

theorem lessByNumber_fits (ha : Fits a) (hb : Fits b) :
    (lessByNumber a b).run none = pure (decide (numberOf a < numberOf b), none) := by
  obtain ⟨da, hda, hna⟩ := ha
  obtain ⟨db, hdb, hnb⟩ := hb
  rw [lessByNumber_eq hda hdb, hna, hnb, numberOf, numberOf, hda, hdb]
  rfl

/-- A hostname without a digit. -/
theorem lessByNumber_noDigit (h : Go.firstNumber a.spec.hostname = none ∨
    Go.firstNumber b.spec.hostname = none) :
    (lessByNumber a b).run none = .error "runtime error: index out of range" := by
  have hget : (getThe (Option Error) : LessM (Option Error)).run none = pure (none, none) := rfl
  have hnone : ∀ {x : Node}, Go.firstNumber x.spec.hostname = none →
      ∀ s, (firstNumberOf x).run s = .error "runtime error: index out of range" :=
    fun hx s => by unfold firstNumberOf; rw [hx]; rfl
  unfold lessByNumber
  cases hda : Go.firstNumber a.spec.hostname with
  | none =>
    simp only [StateT.run_bind, hget, pure_bind, Option.isSome_none, Bool.false_eq_true, if_false,
      hnone hda]
    rfl
  | some da =>
    have hdb := h.resolve_left (by rw [hda]; exact nofun)
    simp only [StateT.run_bind, hget, pure_bind, Option.isSome_none, Bool.false_eq_true, if_false,
      firstNumberOf_run hda, atoiGlobal_run, hnone hdb]
    rfl

/-- A comparison that records no error. -/
theorem fits_of_lessByNumber {c : Bool} (h : (lessByNumber a b).run none = .ok (c, none)) :
    Fits a ∧ Fits b := by
  cases hda : Go.firstNumber a.spec.hostname with
  | none => rw [lessByNumber_noDigit (.inl hda)] at h; cases h
  | some da =>
    cases hdb : Go.firstNumber b.spec.hostname with
    | none => rw [lessByNumber_noDigit (.inr hdb)] at h; cases h
    | some db =>
      rw [lessByNumber_eq hda hdb] at h
      have herr := (Prod.mk.inj (Except.ok.inj h)).2
      rw [Option.or_eq_none_iff, Option.map_eq_none_iff, Option.map_eq_none_iff] at herr
      exact ⟨⟨da, hda, herr.2⟩, ⟨db, hdb, herr.1⟩⟩

/-- A result of the sort: no error was recorded. -/
theorem run_of_SortNodesByNumber {sorted : List Node}
    (h : SortNodesByNumber sort nodes = .ret (.ok sorted)) :
    (sort.sortM lessByNumber nodes).run none = .ok (sorted, none) := by
  unfold SortNodesByNumber at h
  split at h
  · cases h
  · cases h
  · cases h
    assumption

theorem SortNodesByNumber_of_run {sorted : List Node}
    (h : (sort.sortM lessByNumber nodes).run none = .ok (sorted, none)) :
    SortNodesByNumber sort nodes = .ret (.ok sorted) := by
  unfold SortNodesByNumber
  rw [h]

/-- With all numbers in range. -/
theorem SortNodesByNumber_sorted (sort : SliceSort) (h : ∀ node ∈ nodes, Fits node) :
    ∃ sorted, SortNodesByNumber sort nodes = .ret (.ok sorted) ∧ sorted.Perm nodes ∧
      sorted.Pairwise fun a b => numberOf a ≤ numberOf b := by
  obtain ⟨sorted, he, hp, hs⟩ := sort.sortM_run nodes
    (fun a ha b hb => lessByNumber_fits (h a ha) (h b hb)) (StrictWeak.of_key numberOf)
  refine ⟨sorted, SortNodesByNumber_of_run he, hp, hs.imp fun hab => ?_⟩
  simpa using hab

/-- A sort that compares nothing. -/
theorem SortNodesByNumber_silent {order : List (Fin nodes.length)}
    (htree : sort.tree nodes.length = .done order) :
    SortNodesByNumber sort nodes = .ret (.ok (sort.sortBy (fun _ _ => false) nodes)) := by
  refine SortNodesByNumber_of_run ?_
  unfold SliceSort.sortM SliceSort.sortBy
  rw [htree]
  rfl

/-- A number out of range: there is no result. -/
theorem SortNodesByNumber_overflow (hc : sort.Compares nodes.length) (hm : node ∈ nodes)
    (hn : ¬ Fits node) (sorted : List Node) :
    SortNodesByNumber sort nodes ≠ .ret (.ok sorted) := by
  intro h
  have hrun := run_of_SortNodesByNumber h
  unfold SliceSort.sortM at hrun
  rw [StateT.run_bind] at hrun
  obtain ⟨x, rfl⟩ := List.get_of_mem hm
  -- What the comparisons find is the order of the numbers.
  have hlt : ∀ i j c, (lessByNumber (nodes.get i) (nodes.get j)).run none = .ok (c, none) →
      c = decide (numberOf (nodes.get i) < numberOf (nodes.get j)) := fun i j c hl => by
    obtain ⟨hi, hj⟩ := fits_of_lessByNumber hl
    rw [lessByNumber_fits hi hj] at hl
    exact (Prod.mk.inj (Except.ok.inj hl)).1.symm
  cases he : ((sort.tree nodes.length).evalM fun i j =>
      lessByNumber (nodes.get i) (nodes.get j)).run none with
  | error msg => rw [he] at hrun; cases hrun
  | ok r =>
    obtain ⟨order, t⟩ := r
    rw [he] at hrun
    cases hrun
    obtain ⟨y, c, hl | hl⟩ := Decision.evalM_keeps
      (fun i j => lessByNumber_sticky (nodes.get i) (nodes.get j)) hlt _ he
      (sort.asks_of_compares hc (fun i => numberOf (nodes.get i)) x)
    · exact hn (fits_of_lessByNumber hl).1
    · exact hn (fits_of_lessByNumber hl).2

/-- With a digit in each hostname, nothing panics. -/
theorem SortNodesByNumber_no_crash
    (h : ∀ node ∈ nodes, Go.firstNumber node.spec.hostname ≠ none) (msg : String) :
    SortNodesByNumber sort nodes ≠ .crash msg := by
  have hless : ∀ (i j : Fin nodes.length) t,
      ∃ r, (lessByNumber (nodes.get i) (nodes.get j)).run t = .ok r := fun i j t => by
    cases t with
    | some e => exact ⟨_, lessByNumber_some _ _ e⟩
    | none =>
      obtain ⟨di, hi⟩ := Option.ne_none_iff_exists'.mp (h _ (List.get_mem nodes i))
      obtain ⟨dj, hj⟩ := Option.ne_none_iff_exists'.mp (h _ (List.get_mem nodes j))
      exact ⟨_, lessByNumber_eq hi hj⟩
  obtain ⟨r, hr⟩ := Decision.evalM_total hless (sort.tree nodes.length) none
  have hrun : (sort.sortM lessByNumber nodes).run none = .ok (r.1.map nodes.get, r.2) := by
    unfold SliceSort.sortM
    rw [StateT.run_bind, hr]
    rfl
  unfold SortNodesByNumber
  rw [hrun]
  split
  · rename_i herr
    cases herr
  · exact nofun
  · exact nofun

/-- Without a digit in the hostname that is compared first, the sort panics. -/
theorem SortNodesByNumber_crash {x y : Fin nodes.length}
    {k : Bool → Decision (Fin nodes.length) (List (Fin nodes.length))}
    (htree : sort.tree nodes.length = .ask x y k)
    (h : Go.firstNumber (nodes.get x).spec.hostname = none) :
    SortNodesByNumber sort nodes = .crash "runtime error: index out of range" := by
  have hrun : (sort.sortM lessByNumber nodes).run none =
      .error "runtime error: index out of range" := by
    unfold SliceSort.sortM
    rw [htree, StateT.run_bind, Decision.evalM, StateT.run_bind, lessByNumber_noDigit (.inl h)]
    rfl
  unfold SortNodesByNumber
  rw [hrun]

/-- A Node without a digit may be compared first. -/
theorem exists_SortNodesByNumber_crash (hc : sort.Compares nodes.length) (hm : node ∈ nodes)
    (h : Go.firstNumber node.spec.hostname = none) :
    ∃ ys : List Node, ys.Perm nodes ∧
      SortNodesByNumber sort ys = .crash "runtime error: index out of range" := by
  obtain ⟨ys, hp, x, y, k, htree, rfl⟩ := sort.exists_first hm hc
  exact ⟨ys, hp, SortNodesByNumber_crash htree h⟩

end

end Automium
