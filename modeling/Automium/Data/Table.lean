import Mathlib.Data.List.Nodup
import Mathlib.Data.List.Perm.Basic

/-!
# Tables of records that carry their own key

A table is the list of the records a server stores, with no two records of one key. `put` writes
a record under its key (in place if the key is there, at the end if not), `erase` removes a key,
`find?` reads one, and a listing is `items`.
-/

namespace Data

/-- The records of a server, at most one for each key (module doc). -/
structure Table {κ α : Type} (key : α → κ) where
  items : List α
  nodup : (items.map key).Nodup

namespace Table

variable {κ α : Type} {key : α → κ}

/-- The empty table. -/
def empty : Table key := ⟨[], List.nodup_nil⟩

instance : EmptyCollection (Table key) := ⟨empty⟩

instance : Membership α (Table key) := ⟨fun t x => x ∈ t.items⟩

theorem mem_def {t : Table key} {x : α} : x ∈ t ↔ x ∈ t.items := Iff.rfl

@[simp] theorem not_mem_empty {x : α} : ¬ x ∈ (∅ : Table key) := List.not_mem_nil

/-- Two records of a table with one key are the same record. -/
theorem eq_of_key {t : Table key} {x y : α} (hx : x ∈ t) (hy : y ∈ t) (h : key x = key y) :
    x = y :=
  List.inj_on_of_nodup_map t.nodup hx hy h

variable [DecidableEq κ]

/-- The record with key `k`. -/
def find? (t : Table key) (k : κ) : Option α := t.items.find? fun x => key x = k

/-- `items` with `x` in the place of the record with its key. -/
def replace (key : α → κ) (items : List α) (x : α) : List α :=
  items.map fun y => if key y = key x then x else y

theorem map_key_replace (items : List α) (x : α) :
    (replace key items x).map key = items.map key := by
  unfold replace
  rw [List.map_map]
  apply List.map_congr_left
  intro y _
  simp only [Function.comp_apply]
  split
  · rename_i h; exact h.symm
  · rfl

theorem nodup_put (t : Table key) (x : α) :
    ((if key x ∈ t.items.map key then replace key t.items x
      else t.items ++ [x]).map key).Nodup := by
  split
  · rw [map_key_replace]; exact t.nodup
  · rename_i h
    rw [List.map_append, List.map_singleton]
    exact t.nodup.append (List.nodup_singleton _) (by simpa [List.disjoint_singleton] using h)

/-- Write `x` under its key. -/
def put (t : Table key) (x : α) : Table key where
  items := if key x ∈ t.items.map key then replace key t.items x else t.items ++ [x]
  nodup := t.nodup_put x

/-- Remove the record with key `k`. -/
def erase (t : Table key) (k : κ) : Table key where
  items := t.items.filter fun x => key x ≠ k
  nodup := (t.nodup.sublist (List.filter_sublist.map key))

variable {t : Table key} {x y : α} {k : κ}

theorem find?_eq_some : t.find? k = some x ↔ x ∈ t ∧ key x = k := by
  constructor
  · intro h
    exact ⟨List.mem_of_find?_eq_some h, by simpa using List.find?_some h⟩
  · rintro ⟨hx, rfl⟩
    unfold find?
    cases h : t.items.find? fun y => key y = key x with
    | none => exact absurd (List.find?_eq_none.mp h x hx) (by simp)
    | some y =>
      have hy : key y = key x := by simpa using List.find?_some h
      rw [eq_of_key (List.mem_of_find?_eq_some h) hx hy]

theorem find?_eq_none : t.find? k = none ↔ ∀ x : α, x ∈ t → key x ≠ k := by
  simp [find?, mem_def]

theorem find?_of_mem (hx : x ∈ t) : t.find? (key x) = some x := find?_eq_some.mpr ⟨hx, rfl⟩

theorem mem_put : y ∈ t.put x ↔ y = x ∨ y ∈ t ∧ key y ≠ key x := by
  show y ∈ (if key x ∈ t.items.map key then replace key t.items x
    else t.items ++ [x]) ↔ _
  split
  · rename_i h
    obtain ⟨z, hz, hzx⟩ := List.mem_map.mp h
    unfold replace
    rw [List.mem_map]
    constructor
    · rintro ⟨w, hw, rfl⟩
      split
      · exact .inl rfl
      · rename_i hne; exact .inr ⟨hw, hne⟩
    · rintro (rfl | ⟨hy, hne⟩)
      · exact ⟨z, hz, by rw [if_pos hzx]⟩
      · exact ⟨y, hy, by rw [if_neg hne]⟩
  · rename_i h
    rw [List.mem_append, List.mem_singleton]
    constructor
    · rintro (hy | rfl)
      · exact .inr ⟨hy, fun e => h (List.mem_map.mpr ⟨y, hy, e⟩)⟩
      · exact .inl rfl
    · rintro (rfl | ⟨hy, -⟩)
      · exact .inr rfl
      · exact .inl hy

theorem mem_erase : y ∈ t.erase k ↔ y ∈ t ∧ key y ≠ k := by
  show y ∈ t.items.filter _ ↔ _
  simp [List.mem_filter, mem_def]

theorem find?_put : (t.put x).find? k = if k = key x then some x else t.find? k := by
  split
  · rename_i h; subst h; exact find?_of_mem (mem_put.mpr (.inl rfl))
  · rename_i hk
    cases h : t.find? k with
    | none =>
      rw [find?_eq_none] at h ⊢
      intro y hy e
      rcases mem_put.mp hy with rfl | ⟨hy, -⟩
      · exact hk e.symm
      · exact h y hy e
    | some y =>
      obtain ⟨hy, rfl⟩ := find?_eq_some.mp h
      exact find?_of_mem (mem_put.mpr (.inr ⟨hy, hk⟩))

@[simp] theorem find?_put_self : (t.put x).find? (key x) = some x := by
  rw [find?_put, if_pos rfl]

theorem find?_put_ne (h : k ≠ key x) : (t.put x).find? k = t.find? k := by
  rw [find?_put, if_neg h]

theorem find?_erase {k' : κ} :
    (t.erase k).find? k' = if k' = k then none else t.find? k' := by
  split
  · rename_i h
    rw [find?_eq_none]
    intro y hy e
    exact (mem_erase.mp hy).2 (e.trans h)
  · rename_i hk
    cases h : t.find? k' with
    | none =>
      rw [find?_eq_none] at h ⊢
      exact fun y hy => h y (mem_erase.mp hy).1
    | some y =>
      obtain ⟨hy, rfl⟩ := find?_eq_some.mp h
      exact find?_of_mem (mem_erase.mpr ⟨hy, hk⟩)

/-- Writing a new key adds its record at the end. -/
theorem items_put_new (h : t.find? (key x) = none) : (t.put x).items = t.items ++ [x] := by
  have hx : key x ∉ t.items.map key := fun hm => by
    obtain ⟨y, hy, e⟩ := List.mem_map.mp hm
    exact find?_eq_none.mp h y hy e
  show (if _ then _ else _) = _
  rw [if_neg hx]

/-- What a function reads of records of the table, read off their keys. -/
theorem filterMap_keys {β : Type} {l : List α} {f : α → Option β} (h : ∀ x ∈ l, x ∈ t) :
    l.filterMap f = (l.map key).filterMap fun k => (t.find? k).bind f := by
  rw [List.filterMap_map]
  refine List.filterMap_congr fun x hx => ?_
  rw [Function.comp_apply, find?_of_mem (h x hx), Option.bind_some]

end Table

/-- What is added to a list without duplicates does not show if the function does not see it. -/
theorem filterMap_of_sublist {α β : Type} {f : α → Option β} {xs ys : List α} (h : xs.Sublist ys)
    (hnd : ys.Nodup) (hf : ∀ y ∈ ys, y ∉ xs → f y = none) : ys.filterMap f = xs.filterMap f := by
  induction h with
  | slnil => rfl
  | @cons xs ys y h ih =>
    obtain ⟨hy, hnd⟩ := List.nodup_cons.mp hnd
    rw [List.filterMap_cons_none (hf y List.mem_cons_self fun hm => hy (h.subset hm))]
    exact ih hnd fun z hz => hf z (List.mem_cons_of_mem _ hz)
  | @cons_cons xs ys y h ih =>
    obtain ⟨hy, hnd⟩ := List.nodup_cons.mp hnd
    have hrest := ih hnd fun z hz hno => hf z (List.mem_cons_of_mem _ hz) fun hm => by
      rcases List.mem_cons.mp hm with rfl | hm
      · exact hy hz
      · exact hno hm
    rw [List.filterMap_cons, List.filterMap_cons, hrest]

end Data
