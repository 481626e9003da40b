import Automium.Api.World

/-!
# Resource versions

Every write gives its object a version that no object had before. So a copy that was read once
and has the version of the stored object is the stored object (`Known.eq`), however many writes
were made in between, and a write of a copy is accepted only then (`Serves.update_known`,
`Serves.updateStatus_known`).
-/

namespace Automium

open Effect Data

/-- Every stored object has a version that the server has given. -/
def Cluster.Bounded (c : Cluster) : Prop :=
  ∀ k, ∀ o : k.Obj, o ∈ c.tbl k → o.metadata.resourceVersion ≤ c.version

/-- What is stored afterwards was stored before or has a new version. -/
structure Renews (c c' : Cluster) : Prop where
  version : c.version ≤ c'.version
  new : ∀ k, ∀ o : k.Obj, o ∈ c'.tbl k → o ∈ c.tbl k ∨
    c.version < o.metadata.resourceVersion ∧ o.metadata.resourceVersion ≤ c'.version

/-- A copy that was stored once: its version is not that of any other object of its key. -/
structure Known (c : Cluster) {k : Kind} (o : k.Obj) : Prop where
  bound : o.metadata.resourceVersion ≤ c.version
  same : ∀ o' : k.Obj, o' ∈ c.tbl k → o'.key = o.key →
    o'.metadata.resourceVersion = o.metadata.resourceVersion → o' = o

section

variable {c c' c'' : Cluster} {k : Kind} {key : Key} {o o' old : k.Obj} {op : Request}
  {r : op.Reply}

theorem Renews.refl (c : Cluster) : Renews c c := ⟨le_rfl, fun _ _ h => .inl h⟩

theorem Renews.trans (h : Renews c c') (h' : Renews c' c'') : Renews c c'' where
  version := h.version.trans h'.version
  new k o ho := by
    rcases h'.new k o ho with ho' | ⟨hlt, hle⟩
    · rcases h.new k o ho' with ho | ⟨hlt, hle⟩
      · exact .inl ho
      · exact .inr ⟨hlt, hle.trans h'.version⟩
    · exact .inr ⟨h.version.trans_lt hlt, hle⟩

theorem Renews.of_star (h : Relation.ReflTransGen Renews c c') : Renews c c' := by
  induction h with
  | refl => exact .refl c
  | tail _ h ih => exact ih.trans h

theorem Renews.bounded (h : Renews c c') (hc : c.Bounded) : c'.Bounded := by
  intro k o ho
  rcases h.new k o ho with ho | ⟨-, hle⟩
  · exact (hc k o ho).trans h.version
  · exact hle

theorem bounded_empty : Cluster.empty.Bounded := fun _ _ ho => (Table.not_mem_empty ho).elim

theorem Cluster.Bounded.put (hc : c.Bounded) (ho : o.metadata.resourceVersion ≤ c.version + 1) :
    (c.setTbl k ((c.tbl k).put o)).Bounded := by
  intro k' x hx
  by_cases hk : k' = k
  · subst hk
    rw [Cluster.setTbl_self] at hx
    rcases Table.mem_put.mp hx with rfl | ⟨hx, -⟩
    · exact ho
    · exact (hc k' x hx).trans (Nat.le_succ _)
  · rw [Cluster.setTbl_ne _ _ hk] at hx
    exact (hc k' x hx).trans (Nat.le_succ _)

/-- A write at the next version. -/
theorem Renews.put (c : Cluster) (hv : o.metadata.resourceVersion = c.version + 1) :
    Renews c (c.setTbl k ((c.tbl k).put o)) where
  version := Nat.le_succ _
  new k' x hx := by
    by_cases hk : k' = k
    · subst hk
      rw [Cluster.setTbl_self] at hx
      rcases Table.mem_put.mp hx with rfl | ⟨hx, -⟩
      · exact .inr ⟨by omega, by rw [hv]; exact le_rfl⟩
      · exact .inl hx
    · rw [Cluster.setTbl_ne _ _ hk] at hx
      exact .inl hx

theorem Renews.erase (c : Cluster) (key : Key) : Renews c (c.setTbl k ((c.tbl k).erase key)) where
  version := Nat.le_succ _
  new _ _ hx := .inl (mem_of_erase hx)

theorem Serves.renews (h : Serves c op r c') : Renews c c' := by
  rcases h.cases with rfl | ⟨k, o, o', -, rfl, hw⟩ | ⟨k, key, -, rfl⟩
  · exact .refl _
  · refine .put c ?_
    rcases hw with ⟨-, -, rfl⟩ | ⟨old, -, -, -, rfl⟩ | ⟨old, -, -, -, rfl⟩ <;> rfl
  · exact .erase c key

/-- What has been stored once stays known. -/
theorem Known.renews (h : Known c o) (hc : Renews c c') : Known c' o where
  bound := h.bound.trans hc.version
  same x hx hkey hv := by
    rcases hc.new k x hx with hx | ⟨hlt, -⟩
    · exact h.same x hx hkey hv
    · exact absurd h.bound (by omega)

theorem known_of_find? (hc : c.Bounded) (h : c.find? k key = some o) : Known c o where
  bound := hc k o (find?_mem h)
  same _ hx hkey _ := Table.eq_of_key hx (find?_mem h) hkey

theorem Known.eq (h : Known c o) (hf : c.find? k o.key = some old)
    (hv : o.metadata.resourceVersion = old.metadata.resourceVersion) : old = o :=
  h.same old (find?_mem hf) (find?_key hf) hv.symm

/-- The update of a known copy: it is the stored object, or nothing happens. -/
theorem Serves.update_known {m : k.Obj} {r : Except Error k.Obj} (h : Serves c (.update k m) r c')
    (ho : Known c o) (hkey : m.key = o.key)
    (hv : m.metadata.resourceVersion = o.metadata.resourceVersion) :
    (c' = c ∧ ∃ e, r = .error e) ∨
      c.find? k o.key = some o ∧ r = .ok (updatedObj k o m (c.version + 1)) ∧
        c' = c.setTbl k ((c.tbl k).put (updatedObj k o m (c.version + 1))) := by
  rcases h.update_cases with hfail | ⟨old, hf, hv', hr, hc⟩
  · exact .inl hfail
  · rw [hkey] at hf
    obtain rfl := ho.eq hf (hv.symm.trans hv')
    exact .inr ⟨hf, hr, hc⟩

/-- The same for the status. -/
theorem Serves.updateStatus_known {m : k.Obj} {r : Except Error k.Obj}
    (h : Serves c (.updateStatus k m) r c') (ho : Known c o) (hkey : m.key = o.key)
    (hv : m.metadata.resourceVersion = o.metadata.resourceVersion) :
    (c' = c ∧ ∃ e, r = .error e) ∨
      c.find? k o.key = some o ∧ r = .ok (statusObj k o m (c.version + 1)) ∧
        c' = c.setTbl k ((c.tbl k).put (statusObj k o m (c.version + 1))) := by
  rcases h.updateStatus_cases with hfail | ⟨old, hf, hv', hr, hc⟩
  · exact .inl hfail
  · rw [hkey] at hf
    obtain rfl := ho.eq hf (hv.symm.trans hv')
    exact .inr ⟨hf, hr, hc⟩

end

end Automium
