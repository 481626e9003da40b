import Mathlib.Data.Finset.Card
import Mathlib.Data.Finset.Range
import Mathlib.Data.List.Sort

/-!
# Numbered replicas

A controller that wants replicas `0, …, R-1` keeps a numbered record for each. A record that is no
longer wanted is marked, and removed later by somebody else. `ReplicaSet` is the state of the
records: the numbers in use (`live`) and the marked ones.

`manage R` compares the number of all records with `R`: with too few it adds the missing numbers
below `R`, with too many it marks every record but the `R` first. A marked record counts in both
comparisons, so the live numbers end up as `0, …, R-1` only if no marked one is in the way
(`manage_live_iff`). The sets for which that is asked are `Packed`: the live numbers are
`0, …, k-1` and the marked ones come after them.
-/

namespace Data

/-- The numbers of the records (module doc). -/
@[ext] structure ReplicaSet where
  live : Finset ℕ
  marked : Finset ℕ
  disjoint : Disjoint live marked

namespace ReplicaSet

/-- No records. -/
def empty : ReplicaSet := ⟨∅, ∅, Finset.disjoint_empty_left _⟩

/-- All numbers, also the marked ones. -/
def all (s : ReplicaSet) : Finset ℕ := s.live ∪ s.marked

/-- The number of records before `i`. -/
def rank (s : ReplicaSet) (i : ℕ) : ℕ := (s.all.filter fun j => j < i).card

/-- Add the numbers in `l` that are not there. -/
def add (s : ReplicaSet) (l : Finset ℕ) : ReplicaSet where
  live := s.live ∪ (l \ s.all)
  marked := s.marked
  disjoint := by
    refine Finset.disjoint_union_left.mpr ⟨s.disjoint, ?_⟩
    exact (Finset.sdiff_disjoint).mono_right Finset.subset_union_right

/-- Mark the live numbers in `l`. -/
def mark (s : ReplicaSet) (l : Finset ℕ) : ReplicaSet where
  live := s.live \ l
  marked := s.marked ∪ (s.live ∩ l)
  disjoint := by
    refine Finset.disjoint_union_right.mpr ⟨s.disjoint.mono_left Finset.sdiff_subset, ?_⟩
    exact Finset.sdiff_disjoint.mono_right Finset.inter_subset_right

/-- A marked record is removed. -/
def remove (s : ReplicaSet) (i : ℕ) : ReplicaSet where
  live := s.live
  marked := s.marked.erase i
  disjoint := s.disjoint.mono_right (Finset.erase_subset _ _)

/-- Aim at the replicas below `R` (module doc). -/
def manage (s : ReplicaSet) (R : ℕ) : ReplicaSet :=
  if s.all.card < R then s.add (Finset.range R)
  else if R < s.all.card then s.mark (s.live.filter fun i => R ≤ s.rank i)
  else s

variable {s : ReplicaSet} {i k R : ℕ}

theorem range_inj {m n : ℕ} : Finset.range m = Finset.range n ↔ m = n :=
  ⟨fun h => by simpa using congrArg Finset.card h, fun h => h ▸ rfl⟩

theorem card_all (s : ReplicaSet) : s.all.card = s.live.card + s.marked.card :=
  Finset.card_union_of_disjoint s.disjoint

theorem add_add (s : ReplicaSet) (l l' : Finset ℕ) : (s.add l).add l' = s.add (l ∪ l') := by
  apply ReplicaSet.ext
  · ext i
    simp only [add, all, Finset.mem_union, Finset.mem_sdiff]
    tauto
  · rfl

theorem mark_mark (s : ReplicaSet) (l l' : Finset ℕ) : (s.mark l).mark l' = s.mark (l ∪ l') := by
  apply ReplicaSet.ext <;> ext i <;>
    simp only [mark, Finset.mem_union, Finset.mem_sdiff, Finset.mem_inter] <;> tauto

@[simp] theorem add_empty (s : ReplicaSet) : s.add ∅ = s := by
  apply ReplicaSet.ext <;> simp [add]

@[simp] theorem mark_empty (s : ReplicaSet) : s.mark ∅ = s := by
  apply ReplicaSet.ext <;> simp [mark]

/-- Only the live numbers of a mark count. -/
theorem mark_congr {l l' : Finset ℕ} (h : ∀ i ∈ s.live, i ∈ l ↔ i ∈ l') :
    s.mark l = s.mark l' := by
  apply ReplicaSet.ext <;> ext i <;>
    simp only [mark, Finset.mem_union, Finset.mem_sdiff, Finset.mem_inter]
  · exact and_congr_right fun hi => not_congr (h i hi)
  · exact or_congr_right (and_congr_right fun hi => h i hi)

theorem mark_of_not_live (h : i ∉ s.live) : s.mark {i} = s :=
  (mark_congr fun j hj => by
    simp only [Finset.mem_singleton, Finset.notMem_empty, iff_false]
    exact fun e => h (e ▸ hj)).trans s.mark_empty

/-! ### One number -/

theorem add_of_mem (h : i ∈ s.all) : s.add {i} = s := by
  apply ReplicaSet.ext
  · ext j
    simp only [add, Finset.mem_union, Finset.mem_sdiff, Finset.mem_singleton]
    exact or_iff_left fun hj => hj.2 (hj.1 ▸ h)
  · rfl

theorem mem_live_add (h : i ∉ s.all) {j : ℕ} :
    j ∈ (s.add {i}).live ↔ j = i ∨ j ≠ i ∧ j ∈ s.live := by
  simp only [add, Finset.mem_union, Finset.mem_sdiff, Finset.mem_singleton]
  by_cases hj : j = i
  · simp [hj, h]
  · simp [hj]

theorem mem_marked_add (h : i ∉ s.all) {j : ℕ} :
    j ∈ (s.add {i}).marked ↔ j ≠ i ∧ j ∈ s.marked := by
  have hi : i ∉ s.marked := fun hm => h (Finset.mem_union_right _ hm)
  exact (and_iff_right_of_imp fun hj => ne_of_mem_of_not_mem hj hi).symm

theorem mem_live_mark {j : ℕ} : j ∈ (s.mark {i}).live ↔ j ≠ i ∧ j ∈ s.live := by
  simp [mark, and_comm]

theorem mem_marked_mark (h : i ∈ s.live) {j : ℕ} :
    j ∈ (s.mark {i}).marked ↔ j = i ∨ j ≠ i ∧ j ∈ s.marked := by
  simp only [mark, Finset.mem_union, Finset.mem_inter, Finset.mem_singleton]
  by_cases hj : j = i
  · simp [hj, h]
  · simp [hj]

/-! ## Packed sets -/

/-- The live numbers are those below `k`, and the marked ones are not. -/
def Packed (s : ReplicaSet) (k : ℕ) : Prop :=
  s.live = Finset.range k ∧ ∀ i ∈ s.marked, k ≤ i

theorem packed_empty : empty.Packed 0 := ⟨rfl, by simp [empty]⟩

theorem Packed.remove (h : s.Packed k) : (s.remove i).Packed k :=
  ⟨h.1, fun j hj => h.2 j (Finset.mem_of_mem_erase hj)⟩

theorem Packed.card (h : s.Packed k) : s.live.card = k := by
  rw [h.1, Finset.card_range]

/-- The rank of a live number of a packed set is the number itself. -/
theorem Packed.rank (h : s.Packed k) (hi : i < k) : s.rank i = i := by
  have hf : (s.all.filter fun j => j < i) = Finset.range i := by
    ext j
    simp only [all, h.1, Finset.mem_filter, Finset.mem_union, Finset.mem_range]
    constructor
    · exact fun hj => hj.2
    · exact fun hj => ⟨.inl (hj.trans hi), hj⟩
  rw [ReplicaSet.rank, hf, Finset.card_range]

/-- The state lets `manage R` reach its aim: no new replica is wanted, or all records are too few
and no marked one is in the way. -/
def Reachable (s : ReplicaSet) (R : ℕ) : Prop :=
  R ≤ s.live.card ∨ s.all.card < R ∧ ∀ i ∈ s.marked, R ≤ i

/-- With too few records, the live numbers become those below `R` but for the marked ones. -/
theorem Packed.add_live (h : s.Packed k) (hR : k ≤ R) :
    (s.add (Finset.range R)).live = Finset.range R ↔ ∀ i ∈ s.marked, R ≤ i := by
  rw [Finset.ext_iff]
  simp only [add, all, h.1, Finset.mem_union, Finset.mem_sdiff, Finset.mem_range]
  constructor
  · intro hall i hi
    by_contra hlt
    have := (hall i).mpr (by omega)
    rcases this with hk | ⟨-, hn⟩
    · exact absurd (h.2 i hi) (by omega)
    · exact hn (.inr hi)
  · intro hm i
    constructor
    · rintro (hk | ⟨hr, -⟩)
      · omega
      · exact hr
    · intro hr
      by_cases hk : i < k
      · exact .inl hk
      · refine .inr ⟨hr, ?_⟩
        rintro (hk' | hi)
        · exact hk hk'
        · exact absurd (hm i hi) (by omega)

/-- With too many records, the first `R` live numbers are kept. -/
theorem Packed.mark_live (h : s.Packed k) :
    (s.mark (s.live.filter fun i => R ≤ s.rank i)).live = Finset.range (min k R) := by
  ext i
  simp only [mark, Finset.mem_sdiff, Finset.mem_filter, h.1, Finset.mem_range, lt_min_iff]
  constructor
  · rintro ⟨hk, hn⟩
    refine ⟨hk, ?_⟩
    by_contra hR
    exact hn ⟨hk, by rw [h.rank hk]; omega⟩
  · rintro ⟨hk, hR⟩
    refine ⟨hk, fun hn => ?_⟩
    have := hn.2
    rw [h.rank hk] at this
    omega

/-- The aim is reached from a packed set exactly if the state lets it. -/
theorem manage_live_iff (h : s.Packed k) :
    (s.manage R).live = Finset.range R ↔ s.Reachable R := by
  have hcard := s.card_all
  rw [h.card] at hcard
  unfold manage Reachable
  rw [h.card]
  split
  · rename_i hlt
    rw [h.add_live (by omega)]
    exact ⟨fun hm => .inr ⟨hlt, hm⟩, fun hc => hc.elim (fun hk => absurd hlt (by omega)) And.right⟩
  · rename_i hge
    have hout : ¬ (s.all.card < R ∧ ∀ i ∈ s.marked, R ≤ i) := fun hc => hge hc.1
    rw [or_iff_left hout]
    split
    · rw [h.mark_live, range_inj, min_eq_right_iff]
    · rw [h.1, range_inj]
      omega

/-- If the aim is reached, the set is packed again. -/
theorem Packed.manage (h : s.Packed k) (hr : s.Reachable R) : (s.manage R).Packed R := by
  refine ⟨(manage_live_iff h).mpr hr, ?_⟩
  have hcard := s.card_all
  rw [h.card] at hcard
  unfold Reachable at hr
  rw [h.card] at hr
  unfold ReplicaSet.manage
  split
  · rcases hr with hk | ⟨-, hm⟩
    · omega
    · exact hm
  · have hk : R ≤ k := by omega
    split
    · intro i hi
      simp only [mark, Finset.mem_union, Finset.mem_inter, Finset.mem_filter, h.1,
        Finset.mem_range] at hi
      rcases hi with hi | ⟨hik, -, hR⟩
      · exact hk.trans (h.2 i hi)
      · rwa [h.rank hik] at hR
    · exact fun i hi => hk.trans (h.2 i hi)

end ReplicaSet

/-! ## The end of a sorted list -/

/-- In a strictly sorted list, an item is dropped if at least as many items come before it. -/
theorem mem_drop_iff {l : List ℕ} (hs : l.Pairwise (· < ·)) {x R : ℕ} (hx : x ∈ l) :
    x ∈ l.drop R ↔ R ≤ (l.filter fun y => y < x).length := by
  induction l generalizing R with
  | nil => cases hx
  | cons a l ih =>
    obtain ⟨ha, hl⟩ := List.pairwise_cons.mp hs
    rcases List.mem_cons.mp hx with rfl | hx
    · -- Nothing comes before the head.
      have hf : ((x :: l).filter fun y => y < x) = [] := by
        rw [List.filter_eq_nil_iff]
        intro y hy
        rcases List.mem_cons.mp hy with rfl | hy
        · simp
        · simpa using (ha y hy).le
      rw [hf, List.length_nil, Nat.le_zero]
      cases R with
      | zero => simp
      | succ R =>
        simp only [List.drop_succ_cons, Nat.add_one_ne_zero, iff_false]
        exact fun hm => absurd (ha x (List.mem_of_mem_drop hm)) (lt_irrefl x)
    · rw [List.filter_cons_of_pos (by simpa using ha x hx), List.length_cons]
      cases R with
      | zero => simpa using .inr hx
      | succ R => rw [List.drop_succ_cons, ih hl hx]; omega

/-- If the first numbers are all there, what is dropped after them are the higher ones. -/
theorem mem_drop_iff_le {l : List ℕ} (hs : l.Pairwise (· < ·)) {x R : ℕ} (hR : ∀ y < R, y ∈ l)
    (hx : x ∈ l) : x ∈ l.drop R ↔ R ≤ x := by
  have hnd : l.Nodup := hs.imp ne_of_lt
  rw [mem_drop_iff hs hx]
  constructor
  · intro hle
    have hsub : (l.filter fun y => y < x).Subperm (List.range x) :=
      (hnd.filter _).subperm fun y hy => by simpa using (List.mem_filter.mp hy).2
    exact hle.trans (by simpa using hsub.length_le)
  · intro hle
    have hsub : (List.range R).Subperm (l.filter fun y => y < x) :=
      List.nodup_range.subperm fun y hy => by
        have hy := List.mem_range.mp hy
        exact List.mem_filter.mpr ⟨hR y hy, by simpa using by omega⟩
    simpa using hsub.length_le

end Data
