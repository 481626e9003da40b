import Mathlib.Data.Finset.Basic

/-!
# `vendor/k8s.io/client-go/util/workqueue`

The queue from which the workers of a controller take what they are to reconcile. An item that is
added while it is processed is queued when its processing is done. `DelayingQueue` adds items
later; the time at which it does so is left open, and so are the metrics.

`WorkQueue.Valid` is the invariant: what is queued is what is dirty and not processed, each item
once. `Done` keeps it for an item that is processed.
-/

namespace Automium

/-- `workqueue.Type`. -/
structure WorkQueue (T : Type) where
  queue : List T := []
  dirty : Finset T := ∅
  processing : Finset T := ∅
  shuttingDown : Bool := false

namespace WorkQueue

variable {T : Type} [DecidableEq T]

def Add (q : WorkQueue T) (item : T) : WorkQueue T :=
  if q.shuttingDown then q
  else if item ∈ q.dirty then q
  else if item ∈ q.processing then { q with dirty := insert item q.dirty }
  else { q with dirty := insert item q.dirty, queue := q.queue ++ [item] }

/-- The item, or `none` when the queue shuts down. There is no result while the caller waits. -/
def Get (q : WorkQueue T) : Option (Option T × WorkQueue T) :=
  match q.queue with
  | [] => if q.shuttingDown then some (none, q) else none
  | item :: rest =>
    some (some item, { q with queue := rest, processing := insert item q.processing,
                              dirty := q.dirty.erase item })

def Done (q : WorkQueue T) (item : T) : WorkQueue T :=
  if item ∈ q.dirty then
    { q with processing := q.processing.erase item, queue := q.queue ++ [item] }
  else { q with processing := q.processing.erase item }

def ShutDown (q : WorkQueue T) : WorkQueue T := { q with shuttingDown := true }

/-- The invariant (module doc). -/
structure Valid (q : WorkQueue T) : Prop where
  nodup : q.queue.Nodup
  mem : ∀ item, item ∈ q.queue ↔ item ∈ q.dirty ∧ item ∉ q.processing

variable {q q' : WorkQueue T} {item x : T}

omit [DecidableEq T] in
theorem valid_empty : Valid ({} : WorkQueue T) := ⟨.nil, by simp⟩

@[simp] theorem Add_processing : (q.Add item).processing = q.processing := by
  unfold Add; split_ifs <;> rfl

@[simp] theorem Add_shuttingDown : (q.Add item).shuttingDown = q.shuttingDown := by
  unfold Add; split_ifs <;> rfl

theorem mem_Add_dirty (h : q.shuttingDown = false) :
    x ∈ (q.Add item).dirty ↔ x ∈ q.dirty ∨ x = item := by
  unfold Add
  rw [if_neg (by simp [h])]
  split_ifs with hdirty
  · exact ⟨.inl, fun hx => hx.elim id fun e => e ▸ hdirty⟩
  · rw [Finset.mem_insert, or_comm]
  · rw [Finset.mem_insert, or_comm]

theorem of_mem_Add_dirty (h : x ∈ (q.Add item).dirty) : x ∈ q.dirty ∨ x = item := by
  cases hdown : q.shuttingDown with
  | false => exact (mem_Add_dirty hdown).mp h
  | true => exact .inl (by simpa [Add, hdown] using h)

theorem Valid.Add (h : q.Valid) : (q.Add item).Valid := by
  unfold WorkQueue.Add
  split_ifs with hdown hdirty hprocessing
  · exact h
  · exact h
  · refine ⟨h.nodup, fun x => ?_⟩
    rw [h.mem, Finset.mem_insert]
    refine ⟨fun hx => ⟨.inr hx.1, hx.2⟩, fun ⟨hx, hnot⟩ => ⟨hx.resolve_left ?_, hnot⟩⟩
    rintro rfl
    exact hnot hprocessing
  · have hnew : item ∉ q.queue := fun hm => hdirty ((h.mem item).mp hm).1
    refine ⟨List.nodup_append.mpr ⟨h.nodup, List.nodup_singleton item, ?_⟩, fun x => ?_⟩
    · intro a ha b hb
      rw [List.mem_singleton] at hb
      rintro rfl
      exact hnew (hb ▸ ha)
    · rw [List.mem_append, List.mem_singleton, Finset.mem_insert, h.mem, or_comm, or_and_right]
      refine or_congr_left ⟨fun e => ⟨e, e ▸ hprocessing⟩, And.left⟩

theorem Get_item (h : q.Get = some (some item, q')) :
    ∃ rest, q.queue = item :: rest ∧
      q' = { q with queue := rest, processing := insert item q.processing,
                    dirty := q.dirty.erase item } := by
  unfold Get at h
  split at h
  · split at h <;> simp at h
  · rename_i hq
    simp only [Option.some.injEq, Prod.mk.injEq] at h
    obtain ⟨rfl, rfl⟩ := h
    exact ⟨_, hq, rfl⟩

/-- The item was dirty and was not processed. -/
theorem Valid.of_Get (h : q.Valid) (hget : q.Get = some (some item, q')) :
    item ∈ q.dirty ∧ item ∉ q.processing := by
  obtain ⟨rest, hq, -⟩ := Get_item hget
  exact (h.mem item).mp (by simp [hq])

theorem Valid.Get (h : q.Valid) (hget : q.Get = some (some item, q')) : q'.Valid := by
  obtain ⟨rest, hq, rfl⟩ := Get_item hget
  have hnodup := h.nodup
  rw [hq] at hnodup
  obtain ⟨hnew, hrest⟩ := List.nodup_cons.mp hnodup
  refine ⟨hrest, fun x => ?_⟩
  simp only [Finset.mem_erase, Finset.mem_insert, not_or]
  have hx := h.mem x
  rw [hq, List.mem_cons] at hx
  refine ⟨fun hm => ?_, fun ⟨⟨hne, hdirty⟩, _, hnot⟩ => (hx.mpr ⟨hdirty, hnot⟩).resolve_left hne⟩
  have hne : x ≠ item := fun e => hnew (e ▸ hm)
  obtain ⟨hdirty, hnot⟩ := hx.mp (.inr hm)
  exact ⟨⟨hne, hdirty⟩, hne, hnot⟩

@[simp] theorem Done_dirty : (q.Done item).dirty = q.dirty := by
  unfold Done; split_ifs <;> rfl

@[simp] theorem Done_processing : (q.Done item).processing = q.processing.erase item := by
  unfold Done; split_ifs <;> rfl

@[simp] theorem Done_shuttingDown : (q.Done item).shuttingDown = q.shuttingDown := by
  unfold Done; split_ifs <;> rfl

theorem Valid.Done (h : q.Valid) (hitem : item ∈ q.processing) : (q.Done item).Valid := by
  have hnew : item ∉ q.queue := fun hm => ((h.mem item).mp hm).2 hitem
  unfold WorkQueue.Done
  split_ifs with hdirty
  · refine ⟨List.nodup_append.mpr ⟨h.nodup, List.nodup_singleton item, ?_⟩, fun x => ?_⟩
    · intro a ha b hb
      rw [List.mem_singleton] at hb
      rintro rfl
      exact hnew (hb ▸ ha)
    · rw [List.mem_append, List.mem_singleton, h.mem, Finset.mem_erase, not_and_or, not_not]
      by_cases hx : x = item
      · subst hx; simp [hdirty]
      · simp [hx]
  · refine ⟨h.nodup, fun x => ?_⟩
    rw [h.mem, Finset.mem_erase, not_and_or, not_not]
    by_cases hx : x = item
    · subst hx; simp [hdirty]
    · simp [hx]

omit [DecidableEq T] in
theorem Valid.ShutDown (h : q.Valid) : q.ShutDown.Valid := ⟨h.nodup, h.mem⟩

end WorkQueue

/-- `workqueue.delayingType`. -/
structure DelayingQueue (T : Type) where
  /-- `Interface`. -/
  base : WorkQueue T := {}
  /-- `waitingForAddCh`. -/
  adding : List T := []
  /-- The items of `waitingEntryByData`. -/
  waiting : Finset T := ∅

namespace DelayingQueue

variable {T : Type} [DecidableEq T]

def Add (q : DelayingQueue T) (item : T) : DelayingQueue T := { q with base := q.base.Add item }

/-- `AddAfter`, for a duration in any unit. -/
def AddAfter (q : DelayingQueue T) (item : T) (duration : Int) : DelayingQueue T :=
  if q.base.shuttingDown then q
  else if duration ≤ 0 then q.Add item
  else { q with adding := q.adding ++ [item] }

def Done (q : DelayingQueue T) (item : T) : DelayingQueue T := { q with base := q.base.Done item }

/-- What `waitingLoop` may do next: it takes an entry from the channel, which is added if it is ready
and else waits, or an entry that waited is added. -/
inductive WaitingLoop : DelayingQueue T → DelayingQueue T → Prop
  | ready {q : DelayingQueue T} {item : T} {rest : List T} : q.adding = item :: rest →
      WaitingLoop q { q with adding := rest, base := q.base.Add item }
  | insert {q : DelayingQueue T} {item : T} {rest : List T} : q.adding = item :: rest →
      WaitingLoop q { q with adding := rest, waiting := insert item q.waiting }
  | add {q : DelayingQueue T} {item : T} : item ∈ q.waiting →
      WaitingLoop q { q with waiting := q.waiting.erase item, base := q.base.Add item }

/-- The item is to be added later. -/
def Delayed (q : DelayingQueue T) (item : T) : Prop := item ∈ q.adding ∨ item ∈ q.waiting

instance (q : DelayingQueue T) (item : T) : Decidable (q.Delayed item) :=
  inferInstanceAs (Decidable (_ ∨ _))

end DelayingQueue

end Automium
