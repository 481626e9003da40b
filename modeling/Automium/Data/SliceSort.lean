import Mathlib.Data.List.FinRange
import Mathlib.Data.List.Perm.Basic

/-!
# Sorting a slice by comparisons

A library sort that takes a `less` closure calls it on pairs of items in an order of its own, and
leaves the order of equal items open. When the closure has effects (it records an error, it can
fail) the calls matter, so a sort is not only a function on lists here: it is a tree of the
comparisons it makes.

* `Decision α β`: compare pairs of `α`, then return a `β`. `evalM` answers the comparisons in a
  monad, `eval` with a pure order.
* `SliceSort`: for each length, the comparisons of positions and the order of the positions that
  they lead to. The order is a permutation for any answers, and sorted if the answers come from a
  strict weak order. Nothing else is known about it; in particular it need not be stable.
* `insertionSort`: the one that inserts each item from the right end of the sorted part.
-/

namespace Data

/-- A computation that compares items (module doc). -/
inductive Decision (α β : Type) where
  | done (b : β)
  | ask (x y : α) (k : Bool → Decision α β)

namespace Decision

variable {α β γ : Type}

/-- Answer the comparisons in a monad. -/
def evalM {m : Type → Type} [Monad m] (less : α → α → m Bool) : Decision α β → m β
  | .done b => pure b
  | .ask x y k => less x y >>= fun c => (k c).evalM less

/-- Answer the comparisons with `lt`. -/
def eval (lt : α → α → Bool) : Decision α β → β
  | .done b => b
  | .ask x y k => (k (lt x y)).eval lt

/-- `d`, then `f` of its result. -/
def bind : Decision α β → (β → Decision α γ) → Decision α γ
  | .done b, f => f b
  | .ask x y k, f => .ask x y fun c => (k c).bind f

@[simp] theorem eval_done (lt : α → α → Bool) (b : β) : (done b).eval lt = b := rfl

@[simp] theorem eval_ask (lt : α → α → Bool) (x y : α) (k : Bool → Decision α β) :
    (ask x y k).eval lt = (k (lt x y)).eval lt := rfl

@[simp] theorem eval_bind (lt : α → α → Bool) (d : Decision α β) (f : β → Decision α γ) :
    (d.bind f).eval lt = (f (d.eval lt)).eval lt := by
  induction d with
  | done b => rfl
  | ask x y k ih => exact ih _

/-- Comparisons that leave the state `s` as it is. -/
theorem evalM_run {τ : Type} {m : Type → Type} [Monad m] [LawfulMonad m]
    {less : α → α → StateT τ m Bool} {lt : α → α → Bool} {s : τ}
    (h : ∀ x y, (less x y).run s = pure (lt x y, s)) (d : Decision α β) :
    (d.evalM less).run s = pure (d.eval lt, s) := by
  induction d with
  | done b => rfl
  | ask x y k ih => simp only [evalM, StateT.run_bind, h, pure_bind, ih, eval_ask]

/-- The computation with `lt` compares `x` with something. -/
def Asks (lt : α → α → Bool) (x : α) : Decision α β → Prop
  | .done _ => False
  | .ask y z k => x = y ∨ x = z ∨ Asks lt x (k (lt y z))

/-- The answers about an item that is not compared do not matter. -/
theorem eval_congr {lt lt' : α → α → Bool} {x : α} (d : Decision α β) (hx : ¬ Asks lt x d)
    (h : ∀ y z, y ≠ x → z ≠ x → lt' y z = lt y z) : d.eval lt' = d.eval lt := by
  induction d with
  | done b => rfl
  | ask y z k ih =>
    simp only [Asks, not_or] at hx
    obtain ⟨hy, hz, hrest⟩ := hx
    rw [eval_ask, eval_ask, h y z (Ne.symm hy) (Ne.symm hz)]
    exact ih _ hrest

section Sticky

variable {τ ε : Type} {less : α → α → StateT τ (Except ε) Bool} {s : τ}

/-- Comparisons that never come back to `s` once they have left it. -/
def Sticky (less : α → α → StateT τ (Except ε) Bool) (s : τ) : Prop :=
  ∀ x y t c, t ≠ s → (less x y).run t ≠ .ok (c, s)

theorem Sticky.evalM (h : Sticky less s) (d : Decision α β) {t : τ} {b : β} (ht : t ≠ s) :
    (d.evalM less).run t ≠ .ok (b, s) := by
  induction d generalizing t with
  | done b => intro e; cases e; exact ht rfl
  | ask x y k ih =>
    intro e
    rw [Decision.evalM, StateT.run_bind] at e
    cases hl : (less x y).run t with
    | error msg => rw [hl] at e; cases e
    | ok r =>
      rw [hl] at e
      exact ih r.1 (fun hs => h x y t r.1 ht (hs ▸ hl)) e

/-- The answer of a comparison in the state `s`. -/
def answerAt (less : α → α → StateT τ (Except ε) Bool) (s : τ) (x y : α) : Bool :=
  match (less x y).run s with
  | .ok (c, _) => c
  | .error _ => false

/-- A computation that ends in the state it started from compared as `answerAt` does. -/
theorem eq_eval_of_sticky (h : Sticky less s) (d : Decision α β) {b : β}
    (hd : (d.evalM less).run s = .ok (b, s)) : b = d.eval (answerAt less s) := by
  induction d with
  | done b => cases hd; rfl
  | ask x y k ih =>
    rw [Decision.evalM, StateT.run_bind] at hd
    cases hl : (less x y).run s with
    | error msg => rw [hl] at hd; cases hd
    | ok r =>
      obtain ⟨c, t⟩ := r
      rw [hl] at hd
      have hc : answerAt less s x y = c := by unfold answerAt; rw [hl]
      by_cases ht : t = s
      · subst ht
        rw [eval_ask, hc]
        exact ih c hd
      · exact absurd hd (h.evalM (k c) ht)

/-- In a computation that comes back to where it started, every comparison leaves the state alone. -/
theorem evalM_keeps (h : Sticky less s) {lt : α → α → Bool}
    (hlt : ∀ x y c, (less x y).run s = .ok (c, s) → c = lt x y) (d : Decision α β) {b : β}
    (hd : (d.evalM less).run s = .ok (b, s)) {x : α} (hx : Asks lt x d) :
    ∃ y c, (less x y).run s = .ok (c, s) ∨ (less y x).run s = .ok (c, s) := by
  induction d with
  | done b => exact hx.elim
  | ask y z k ih =>
    rw [Decision.evalM, StateT.run_bind] at hd
    cases hl : (less y z).run s with
    | error msg => rw [hl] at hd; cases hd
    | ok r =>
      obtain ⟨c, t⟩ := r
      rw [hl] at hd
      by_cases ht : t = s
      · subst ht
        rcases hx with rfl | rfl | hx
        · exact ⟨z, c, .inl hl⟩
        · exact ⟨y, c, .inr hl⟩
        · rw [← hlt y z c hl] at hx
          exact ih c hd hx
      · exact absurd hd (h.evalM (k c) ht)

/-- Comparisons that do not fail. -/
theorem evalM_total (h : ∀ x y t, ∃ r, (less x y).run t = .ok r) (d : Decision α β) (t : τ) :
    ∃ r, (d.evalM less).run t = .ok r := by
  induction d generalizing t with
  | done b => exact ⟨_, rfl⟩
  | ask x y k ih =>
    obtain ⟨⟨c, t'⟩, hl⟩ := h x y t
    obtain ⟨r, hr⟩ := ih c t'
    refine ⟨r, ?_⟩
    rw [Decision.evalM, StateT.run_bind, hl]
    exact hr

end Sticky

end Decision

/-- A strict weak order: no pair is below each other, and "not below" is transitive. -/
structure StrictWeak {α : Type} (lt : α → α → Bool) : Prop where
  asymm : ∀ x y, lt x y = true → lt y x = false
  trans : ∀ x y z, lt x y = false → lt y z = false → lt x z = false

/-- The order of a numeric key is strict and weak. -/
theorem StrictWeak.of_key {α : Type} (key : α → Int) :
    StrictWeak fun x y => decide (key x < key y) where
  asymm x y h := by simp only [decide_eq_true_eq, decide_eq_false_iff_not] at h ⊢; omega
  trans x y z h₁ h₂ := by simp only [decide_eq_false_iff_not] at h₁ h₂ ⊢; omega

/-- An implementation of a sort by comparisons (module doc). -/
structure SliceSort where
  tree : (n : Nat) → Decision (Fin n) (List (Fin n))
  perm : ∀ n lt, ((tree n).eval lt).Perm (List.finRange n)
  sorted : ∀ n lt, StrictWeak lt → ((tree n).eval lt).Pairwise fun x y => lt y x = false

namespace SliceSort

variable {α : Type} {m : Type → Type} [Monad m]

/-- Sort `xs`, with the comparisons in a monad. -/
def sortM (S : SliceSort) (less : α → α → m Bool) (xs : List α) : m (List α) :=
  (S.tree xs.length).evalM (fun i j => less (xs.get i) (xs.get j)) >>= fun order =>
    pure (order.map xs.get)

/-- The items in the order that the comparisons with `lt` lead to. -/
def sortBy (S : SliceSort) (lt : α → α → Bool) (xs : List α) : List α :=
  ((S.tree xs.length).eval fun i j => lt (xs.get i) (xs.get j)).map xs.get

theorem sortBy_perm (S : SliceSort) (lt : α → α → Bool) (xs : List α) :
    (S.sortBy lt xs).Perm xs := by
  have hp := (S.perm xs.length fun i j => lt (xs.get i) (xs.get j)).map xs.get
  rwa [← List.ofFn_eq_map, List.ofFn_get] at hp

/-- Comparisons of the items of `xs` that keep the state. -/
theorem sortM_eq {τ : Type} [LawfulMonad m] (S : SliceSort) {less : α → α → StateT τ m Bool}
    {lt : α → α → Bool} {s : τ} (xs : List α)
    (h : ∀ x ∈ xs, ∀ y ∈ xs, (less x y).run s = pure (lt x y, s)) :
    (S.sortM less xs).run s = pure (S.sortBy lt xs, s) := by
  unfold sortM
  rw [StateT.run_bind,
    Decision.evalM_run fun i j => h _ (List.get_mem xs i) _ (List.get_mem xs j), pure_bind]
  rfl

/-- If the comparisons of the items of `xs` keep the state and follow a strict weak order, the
result is a sorted permutation of `xs`. -/
theorem sortM_run {τ : Type} [LawfulMonad m] (S : SliceSort) {less : α → α → StateT τ m Bool}
    {lt : α → α → Bool} {s : τ} (xs : List α)
    (h : ∀ x ∈ xs, ∀ y ∈ xs, (less x y).run s = pure (lt x y, s)) (hlt : StrictWeak lt) :
    ∃ ys, (S.sortM less xs).run s = pure (ys, s) ∧ ys.Perm xs ∧
      ys.Pairwise fun x y => lt y x = false := by
  refine ⟨S.sortBy lt xs, S.sortM_eq xs h, S.sortBy_perm lt xs, ?_⟩
  unfold sortBy
  rw [List.pairwise_map]
  exact S.sorted _ _ ⟨fun i j => hlt.asymm _ _, fun i j k => hlt.trans _ _ _⟩

/-- The sort of `n` items makes a comparison. -/
def Compares (S : SliceSort) (n : ℕ) : Prop := ∃ x y k, S.tree n = .ask x y k

/-- If there are two items, then each of them is compared: the order of the result would not fit both
a lower and a higher key of an item that is not. -/
theorem asks_all (S : SliceSort) {n : ℕ} (hn : 2 ≤ n) (key : Fin n → Int) (x : Fin n) :
    Decision.Asks (fun i j => decide (key i < key j)) x (S.tree n) := by
  by_contra hnot
  obtain ⟨y, hy⟩ : ∃ y : Fin n, y ≠ x := by
    by_cases hx : x.val = 0
    · exact ⟨⟨1, by omega⟩, fun h => by rw [← h] at hx; simp at hx⟩
    · exact ⟨⟨0, by omega⟩, fun h => hx (by rw [← h])⟩
  have hsame : ∀ v : Int, (S.tree n).eval (fun i j =>
      decide (Function.update key x v i < Function.update key x v j)) =
        (S.tree n).eval fun i j => decide (key i < key j) := fun v =>
    Decision.eval_congr _ hnot fun i j hi hj => by
      rw [Function.update_of_ne hi, Function.update_of_ne hj]
  have hsorted : ∀ v : Int, ((S.tree n).eval fun i j => decide (key i < key j)).Pairwise
      fun i j => ¬ Function.update key x v j < Function.update key x v i := fun v => by
    rw [← hsame v]
    exact (S.sorted n _ (.of_key _)).imp fun h => by simpa using h
  have hperm := S.perm n fun i j => decide (key i < key j)
  have hmem : ∀ i, i ∈ (S.tree n).eval fun i j => decide (key i < key j) := fun i =>
    hperm.mem_iff.mpr (List.mem_finRange i)
  obtain ⟨pre, post, hsplit⟩ := List.append_of_mem (hmem x)
  have hy' := hmem y
  rw [hsplit, List.mem_append, List.mem_cons] at hy'
  rcases hy' with hpre | rfl | hpost
  · have h := hsorted (key y - 1)
    rw [hsplit, List.pairwise_append] at h
    have := h.2.2 y hpre x List.mem_cons_self
    rw [Function.update_self, Function.update_of_ne hy] at this
    omega
  · exact hy rfl
  · have h := hsorted (key y + 1)
    rw [hsplit, List.pairwise_append, List.pairwise_cons] at h
    have := h.2.1.1 y hpost
    rw [Function.update_self, Function.update_of_ne hy] at this
    omega

/-- Each item is compared if any is. -/
theorem asks_of_compares (S : SliceSort) {n : ℕ} (h : S.Compares n) (key : Fin n → Int) (x : Fin n) :
    Decision.Asks (fun i j => decide (key i < key j)) x (S.tree n) := by
  by_cases hn : 2 ≤ n
  · exact S.asks_all hn key x
  · obtain ⟨y, z, k, htree⟩ := h
    rw [htree]
    exact .inl (Fin.ext (by omega))

/-- An item can be moved to any position. -/
theorem exists_perm_get {xs : List α} {x : α} (hx : x ∈ xs) (p : Fin xs.length) :
    ∃ (ys : List α) (h : ys.length = xs.length), ys.Perm xs ∧ ys.get (p.cast h.symm) = x := by
  obtain ⟨pre, post, rfl⟩ := List.append_of_mem hx
  have hle : p.val ≤ (pre ++ post).length := by
    have := p.isLt
    simp only [List.length_append, List.length_cons] at this ⊢
    omega
  have hperm : ((pre ++ post).insertIdx p x).Perm (pre ++ x :: post) :=
    (List.perm_insertIdx x _ hle).trans List.perm_middle.symm
  exact ⟨_, hperm.length_eq, hperm,
    List.getElem_insertIdx_self (by rw [hperm.length_eq]; exact p.isLt)⟩

/-- It depends on the order before which item is compared first. -/
theorem exists_first (S : SliceSort) {xs : List α} {x : α} (hx : x ∈ xs)
    (h : S.Compares xs.length) :
    ∃ ys : List α, ys.Perm xs ∧ ∃ p q k, S.tree ys.length = .ask p q k ∧ ys.get p = x := by
  obtain ⟨p, q, k, htree⟩ := h
  obtain ⟨ys, hlen, hperm, hget⟩ := exists_perm_get hx p
  have hcast : ∀ (N : ℕ) (e : N = xs.length),
      ∃ k', S.tree N = .ask (p.cast e.symm) (q.cast e.symm) k' := by
    rintro _ rfl
    exact ⟨k, htree⟩
  obtain ⟨k', hk'⟩ := hcast _ hlen
  exact ⟨ys, hperm, p.cast hlen.symm, q.cast hlen.symm, k', hk', hget⟩

/-- If no item is below another, then it depends on the order before which item comes last. -/
theorem exists_last (S : SliceSort) {xs : List α} {x : α} (hx : x ∈ xs) {n : ℕ}
    (hn : n < xs.length) :
    ∃ ys : List α, ys.Perm xs ∧ x ∈ (S.sortBy (fun _ _ => false) ys).drop n := by
  have hsort : ∀ (N : ℕ) (ys : List α) (h : ys.length = N), S.sortBy (fun _ _ => false) ys =
      ((S.tree N).eval fun _ _ => false).map fun i => ys.get (i.cast h.symm) := by
    rintro _ ys rfl
    rfl
  have hlen := (S.perm xs.length fun _ _ => false).length_eq
  rw [List.length_finRange] at hlen
  -- `p` is the position that comes last.
  rcases List.eq_nil_or_concat' ((S.tree xs.length).eval fun _ _ => false) with hnil | ⟨init, p, hp⟩
  · rw [hnil, List.length_nil] at hlen
    omega
  obtain ⟨ys, hys, hperm, hget⟩ := exists_perm_get hx p
  refine ⟨ys, hperm, ?_⟩
  rw [hsort _ _ hys, hp, List.map_append, List.drop_append_of_le_length]
  · exact List.mem_append_right _ (List.mem_singleton.mpr hget.symm)
  · rw [hp, List.length_append, List.length_singleton] at hlen
    rw [List.length_map]
    omega

/-- A sort that ends in the state it started from permutes, if its comparisons do not come back to
a state they have left. -/
theorem sortM_perm {τ ε : Type} (S : SliceSort) {less : α → α → StateT τ (Except ε) Bool} {s : τ}
    (h : Decision.Sticky less s) {xs ys : List α}
    (hs : (S.sortM less xs).run s = .ok (ys, s)) : ys.Perm xs := by
  unfold sortM at hs
  rw [StateT.run_bind] at hs
  cases he : ((S.tree xs.length).evalM fun i j => less (xs.get i) (xs.get j)).run s with
  | error msg => rw [he] at hs; cases hs
  | ok r =>
    obtain ⟨order, t⟩ := r
    rw [he] at hs
    cases hs
    have horder := Decision.eq_eval_of_sticky (fun i j => h (xs.get i) (xs.get j)) _ he
    dsimp only
    rw [horder]
    refine ((S.perm xs.length _).map xs.get).trans ?_
    rw [← List.ofFn_eq_map, List.ofFn_get]

end SliceSort

/-! ## Insertion sort -/

namespace InsertionSort

variable {α : Type}

/-- Insert `x` into `l`, the sorted part read from its right end. -/
def insert (x : α) : List α → Decision α (List α)
  | [] => .done [x]
  | y :: ys => .ask x y fun c =>
    if c then (insert x ys).bind fun zs => .done (y :: zs) else .done (x :: y :: ys)

/-- Insert the items of a list one after the other. -/
def insertAll : List α → List α → Decision α (List α)
  | [], l => .done l
  | x :: xs, l => (insert x l).bind (insertAll xs)

theorem insert_perm (lt : α → α → Bool) (x : α) (l : List α) :
    ((insert x l).eval lt).Perm (x :: l) := by
  induction l with
  | nil => exact .refl _
  | cons y ys ih =>
    simp only [insert, Decision.eval_ask]
    split
    · simp only [Decision.eval_bind, Decision.eval_done]
      exact (ih.cons y).trans (.swap x y ys)
    · exact .refl _

theorem insert_sorted {lt : α → α → Bool} (hlt : StrictWeak lt) (x : α) {l : List α}
    (hl : l.Pairwise fun y z => lt y z = false) :
    ((insert x l).eval lt).Pairwise fun y z => lt y z = false := by
  induction l with
  | nil => exact List.pairwise_singleton _ _
  | cons y ys ih =>
    obtain ⟨hy, hys⟩ := List.pairwise_cons.mp hl
    simp only [insert, Decision.eval_ask]
    split
    · rename_i hxy
      simp only [Decision.eval_bind, Decision.eval_done]
      refine List.pairwise_cons.mpr ⟨fun z hz => ?_, ih hys⟩
      rcases List.mem_cons.mp ((insert_perm lt x ys).mem_iff.mp hz) with rfl | hz
      · exact hlt.asymm _ _ hxy
      · exact hy z hz
    · rename_i hxy
      have hxy : lt x y = false := by simpa using hxy
      refine List.pairwise_cons.mpr ⟨fun z hz => ?_, hl⟩
      rcases List.mem_cons.mp hz with rfl | hz
      · exact hxy
      · exact hlt.trans _ _ _ hxy (hy z hz)

theorem insertAll_perm (lt : α → α → Bool) (xs l : List α) :
    ((insertAll xs l).eval lt).Perm (xs ++ l) := by
  induction xs generalizing l with
  | nil => exact .refl _
  | cons x xs ih =>
    simp only [insertAll, Decision.eval_bind]
    exact (ih _).trans (((insert_perm lt x l).append_left xs).trans List.perm_middle)

theorem insertAll_sorted {lt : α → α → Bool} (hlt : StrictWeak lt) (xs : List α) {l : List α}
    (hl : l.Pairwise fun y z => lt y z = false) :
    ((insertAll xs l).eval lt).Pairwise fun y z => lt y z = false := by
  induction xs generalizing l with
  | nil => exact hl
  | cons x xs ih =>
    simp only [insertAll, Decision.eval_bind]
    exact ih (insert_sorted hlt x hl)

end InsertionSort

/-- Insertion sort: each position is compared with the sorted part from its right end. -/
def insertionSort : SliceSort where
  tree n := (InsertionSort.insertAll (List.finRange n) []).bind fun l => .done l.reverse
  perm n lt := by
    simp only [Decision.eval_bind, Decision.eval_done]
    have h := InsertionSort.insertAll_perm lt (List.finRange n) []
    rw [List.append_nil] at h
    exact (List.reverse_perm _).trans h
  sorted n lt hlt := by
    simp only [Decision.eval_bind, Decision.eval_done, List.pairwise_reverse]
    exact InsertionSort.insertAll_sorted hlt _ List.Pairwise.nil

example : insertionSort.sortM (fun x y : Nat => some (decide (x < y))) [3, 1, 2] =
    some [1, 2, 3] := by decide

end Data
