import Automium.Runtime.Watches

/-!
# The workers of a controller share one queue

The work queue knows which requests the workers have (`Consistent`), whatever the workers, the
informers and the other actors do, and however often the controller is stopped or replaced.
`alone_of_run`: a request is never reconciled by two workers at a time, and is neither lost nor
queued twice.
-/

namespace Automium

open Effect

namespace Controller

variable {S : Sig} {ι : Type} {Obj : ι → Type} {W : Type} {C : Controller S Obj}
  {s s' : ControllerState S Obj W} {req : Key}

/-- A worker reconciles the request, and `p` is left to do. -/
def Runs (s : ControllerState S Obj W) (req : Key) (p : Prog S (Except Error Result)) : Prop :=
  ∃ w, s.workers w = some (req, p)

/-- No request is reconciled by two workers at a time. -/
def Alone (s : ControllerState S Obj W) : Prop :=
  ∀ w w' req p p', s.workers w = some (req, p) → s.workers w' = some (req, p') → w = w'

/-- The queue is valid, and knows which requests the workers have. -/
structure Consistent (s : ControllerState S Obj W) : Prop where
  queue : s.queue.base.Valid
  processing : ∀ req, req ∈ s.queue.base.processing ↔ ∃ p, Runs s req p
  alone : Alone s

/-! ## The queue -/

section Queue

variable {q : WorkQueue Key} {dq dq' : DelayingQueue Key} {reqs : List Key} {x : Key}
  {delay : Int} {res : Except Error Result}

@[simp] theorem addAll_processing : (addAll q reqs).processing = q.processing := by
  induction reqs generalizing q with
  | nil => rfl
  | cons item rest ih => exact (ih (q := q.Add item)).trans WorkQueue.Add_processing

@[simp] theorem addAll_shuttingDown : (addAll q reqs).shuttingDown = q.shuttingDown := by
  induction reqs generalizing q with
  | nil => rfl
  | cons item rest ih => exact (ih (q := q.Add item)).trans WorkQueue.Add_shuttingDown

theorem mem_addAll_dirty (h : q.shuttingDown = false) :
    x ∈ (addAll q reqs).dirty ↔ x ∈ q.dirty ∨ x ∈ reqs := by
  induction reqs generalizing q with
  | nil => simp [addAll]
  | cons item rest ih =>
    have hrest := ih (q := q.Add item) (by simpa using h)
    rw [WorkQueue.mem_Add_dirty h] at hrest
    exact hrest.trans (by rw [List.mem_cons, or_assoc])

theorem of_mem_addAll_dirty (h : x ∈ (addAll q reqs).dirty) : x ∈ q.dirty ∨ x ∈ reqs := by
  induction reqs generalizing q with
  | nil => exact .inl h
  | cons item rest ih =>
    rcases ih (q := q.Add item) h with h | h
    · exact (WorkQueue.of_mem_Add_dirty h).imp_right fun e => List.mem_cons.mpr (.inl e)
    · exact .inr (List.mem_cons_of_mem _ h)

theorem addAll_valid (h : q.Valid) : (addAll q reqs).Valid := by
  induction reqs generalizing q with
  | nil => exact h
  | cons item rest ih => exact ih h.Add

/-- A request is added again, at once or later, and then it is done. -/
theorem processed_eq : ∃ d, processed dq x delay res =
    if addsAgain res then (dq.AddAfter x d).Done x else dq.Done x := by
  unfold processed addsAgain
  cases res with
  | error e => exact ⟨delay, rfl⟩
  | ok result =>
    dsimp only
    by_cases hafter : result.requeueAfter > 0
    · exact ⟨result.requeueAfter, by simp [hafter]⟩
    · exact ⟨delay, by simp [hafter]⟩

/-- `dq'` is `dq` where `x` was added `now`, or will be `later`. A queue that shuts down adds nothing. -/
structure Added (dq : DelayingQueue Key) (x : Key) (now later : Bool) (dq' : DelayingQueue Key) :
    Prop where
  processing : dq'.base.processing = dq.base.processing
  down : dq'.base.shuttingDown = dq.base.shuttingDown
  valid : dq.base.Valid → dq'.base.Valid
  dirty : ∀ y, y ∈ dq'.base.dirty → y ∈ dq.base.dirty ∨ y = x ∧ now = true
  delayed : ∀ y, dq'.Delayed y → dq.Delayed y ∨ y = x ∧ later = true
  still_dirty : dq.base.shuttingDown = false → ∀ y,
    y ∈ dq.base.dirty ∨ y = x ∧ now = true → y ∈ dq'.base.dirty
  still_delayed : dq.base.shuttingDown = false → ∀ y,
    dq.Delayed y ∨ y = x ∧ later = true → dq'.Delayed y

theorem Added.none : Added dq x false false dq where
  processing := rfl
  down := rfl
  valid h := h
  dirty _ h := .inl h
  delayed _ h := .inl h
  still_dirty _ _ h := h.resolve_right nofun
  still_delayed _ _ h := h.resolve_right nofun

theorem Added.refused (hdown : dq.base.shuttingDown = true) : Added dq x true false dq :=
  have hno : ∀ {P : Prop}, dq.base.shuttingDown = false → P := fun h => by simp [hdown] at h
  { Added.none with dirty := fun _ h => .inl h, still_dirty := fun h => hno h }

theorem Added.now (hdown : dq.base.shuttingDown = false) : Added dq x true false (dq.Add x) where
  processing := WorkQueue.Add_processing
  down := WorkQueue.Add_shuttingDown
  valid h := h.Add
  dirty _ h := (WorkQueue.of_mem_Add_dirty h).imp_right fun e => ⟨e, rfl⟩
  delayed _ h := .inl h
  still_dirty _ _ h := (WorkQueue.mem_Add_dirty hdown).mpr (h.imp_right And.left)
  still_delayed _ _ h := h.resolve_right nofun

theorem Added.later : Added dq x false true { dq with adding := dq.adding ++ [x] } where
  processing := rfl
  down := rfl
  valid h := h
  dirty _ h := .inl h
  delayed y h := by
    rcases h with h | h
    · exact (List.mem_append.mp h).imp .inl fun e => ⟨List.mem_singleton.mp e, rfl⟩
    · exact .inl (.inr h)
  still_dirty _ _ h := h.resolve_right nofun
  still_delayed _ y h := by
    rcases h with (h | h) | ⟨rfl, -⟩
    · exact .inl (List.mem_append_left _ h)
    · exact .inr h
    · exact .inl (List.mem_append_right _ (List.mem_singleton_self _))

theorem AddAfter_added (d : Int) : ∃ soon, Added dq x soon (!soon) (dq.AddAfter x d) := by
  unfold DelayingQueue.AddAfter
  cases hdown : dq.base.shuttingDown with
  | true => exact ⟨true, .refused hdown⟩
  | false =>
    by_cases hd : d ≤ 0
    · exact ⟨true, by simpa [hd] using Added.now hdown⟩
    · exact ⟨false, by simpa [hd] using Added.later⟩

/-- The queue after a reconcile of `x`. -/
structure Processed (dq : DelayingQueue Key) (x : Key) (res : Except Error Result) (soon : Bool)
    (dq' : DelayingQueue Key) : Prop where
  processing : dq'.base.processing = dq.base.processing.erase x
  down : dq'.base.shuttingDown = dq.base.shuttingDown
  valid : dq.base.Valid → x ∈ dq.base.processing → dq'.base.Valid
  dirty : ∀ y, y ∈ dq'.base.dirty → y ∈ dq.base.dirty ∨ y = x ∧ (addsAgain res && soon) = true
  delayed : ∀ y, dq'.Delayed y → dq.Delayed y ∨ y = x ∧ (addsAgain res && !soon) = true
  still_dirty : dq.base.shuttingDown = false → ∀ y,
    y ∈ dq.base.dirty ∨ y = x ∧ (addsAgain res && soon) = true → y ∈ dq'.base.dirty
  still_delayed : dq.base.shuttingDown = false → ∀ y,
    dq.Delayed y ∨ y = x ∧ (addsAgain res && !soon) = true → dq'.Delayed y

theorem Added.done {soon : Bool} (h : Added dq x (addsAgain res && soon) (addsAgain res && !soon) dq') :
    Processed dq x res soon (dq'.Done x) where
  processing := by rw [DelayingQueue.Done, WorkQueue.Done_processing, h.processing]
  down := by rw [DelayingQueue.Done, WorkQueue.Done_shuttingDown, h.down]
  valid hvalid hx := (h.valid hvalid).Done (h.processing ▸ hx)
  dirty y hy := h.dirty y (by simpa [DelayingQueue.Done] using hy)
  delayed := h.delayed
  still_dirty hdown y hy := by simpa [DelayingQueue.Done] using h.still_dirty hdown y hy
  still_delayed := h.still_delayed

theorem processed_spec : ∃ soon, Processed dq x res soon (processed dq x delay res) := by
  obtain ⟨d, hd⟩ : ∃ d, processed dq x delay res =
      if addsAgain res then (dq.AddAfter x d).Done x else dq.Done x := processed_eq
  rw [hd]
  cases hagain : addsAgain res with
  | false =>
    refine ⟨true, Added.done ?_⟩
    simpa [hagain] using Added.none
  | true =>
    obtain ⟨soon, hadded⟩ : ∃ soon, Added dq x soon (!soon) (dq.AddAfter x d) := AddAfter_added d
    refine ⟨soon, Added.done ?_⟩
    simpa [hagain] using hadded

end Queue

/-! ## The workers -/

section Workers

variable [DecidableEq W] {w : W} {x : Option (Key × Prog S (Except Error Result))}

/-- A worker that has not the request, before and after, does not matter for it. -/
theorem runs_update_iff {p : Prog S (Except Error Result)}
    (hold : ∀ p, s.workers w ≠ some (req, p)) (hnew : ∀ p, x ≠ some (req, p)) :
    (∃ w', Function.update s.workers w x w' = some (req, p)) ↔ Runs s req p := by
  constructor
  · rintro ⟨w', hw'⟩
    by_cases hw : w' = w
    · subst hw
      rw [Function.update_self] at hw'
      exact absurd hw' (hnew p)
    · rw [Function.update_of_ne hw] at hw'
      exact ⟨w', hw'⟩
  · rintro ⟨w', hw'⟩
    have hw : w' ≠ w := by
      rintro rfl
      exact hold p hw'
    exact ⟨w', by rwa [Function.update_of_ne hw]⟩

/-- The only worker that has the request. -/
theorem runs_update_self_iff {p p' : Prog S (Except Error Result)}
    (hothers : ∀ w' p, w' ≠ w → s.workers w' ≠ some (req, p)) :
    (∃ w', Function.update s.workers w (some (req, p')) w' = some (req, p)) ↔ p = p' := by
  constructor
  · rintro ⟨w', hw'⟩
    by_cases hw : w' = w
    · subst hw
      rw [Function.update_self] at hw'
      cases hw'
      rfl
    · rw [Function.update_of_ne hw] at hw'
      exact absurd hw' (hothers w' p hw)
  · rintro rfl
    exact ⟨w, Function.update_self ..⟩

theorem runs_update_none {p : Prog S (Except Error Result)}
    (hothers : ∀ w' p, w' ≠ w → s.workers w' ≠ some (req, p)) :
    ¬ ∃ w', Function.update s.workers w none w' = some (req, p) := by
  rintro ⟨w', hw'⟩
  by_cases hw : w' = w
  · subst hw
    rw [Function.update_self] at hw'
    cases hw'
  · rw [Function.update_of_ne hw] at hw'
    exact hothers w' p hw hw'

/-- What a worker has now, no other worker has. -/
theorem Alone.update (h : Alone s) (q : DelayingQueue Key) (a : (i : ι) → Obj i)
    (pending : (i : ι) → List (Obj i))
    (hx : ∀ y p, x = some (y, p) → ∀ w' p', w' ≠ w → s.workers w' ≠ some (y, p')) :
    Alone (ControllerState.mk a pending q (Function.update s.workers w x)) := by
  intro w₁ w₂ y p₁ p₂ h₁ h₂
  dsimp only at h₁ h₂
  by_cases hw₁ : w₁ = w <;> by_cases hw₂ : w₂ = w
  · exact hw₁.trans hw₂.symm
  · subst hw₁
    rw [Function.update_self] at h₁
    rw [Function.update_of_ne hw₂] at h₂
    exact absurd h₂ (hx y p₁ h₁ w₂ p₂ hw₂)
  · subst hw₂
    rw [Function.update_self] at h₂
    rw [Function.update_of_ne hw₁] at h₁
    exact absurd h₁ (hx y p₂ h₂ w₁ p₁ hw₁)
  · rw [Function.update_of_ne hw₁] at h₁
    rw [Function.update_of_ne hw₂] at h₂
    exact h w₁ w₂ y p₁ p₂ h₁ h₂

end Workers

/-! ## One worker for each request -/

section Store

variable [DecidableEq ι]

@[simp] theorem store_queue (s : ControllerState S Obj W) (a : Option (Sigma Obj)) :
    (store s a).queue = s.queue := by
  cases a <;> rfl

@[simp] theorem store_workers (s : ControllerState S Obj W) (a : Option (Sigma Obj)) :
    (store s a).workers = s.workers := by
  cases a <;> rfl

@[simp] theorem store_delivered (s : ControllerState S Obj W) (a : Option (Sigma Obj)) :
    (store s a).delivered = s.delivered := by
  cases a <;> rfl

end Store

section Consistent

variable {w : W}

/-- The other workers do not have the request of a worker. -/
theorem Consistent.others (h : Consistent s) {p : Prog S (Except Error Result)}
    (hw : s.workers w = some (req, p)) : ∀ w' p', w' ≠ w → s.workers w' ≠ some (req, p') :=
  fun w' p' hne hw' => hne (h.alone w' w req p' p hw' hw)

/-- Nobody has the request that `Get` returns. -/
theorem Consistent.free (h : Consistent s) {q : WorkQueue Key}
    (hget : s.queue.base.Get = some (some req, q)) : ∀ w p, s.workers w ≠ some (req, p) :=
  fun w p hp => (h.queue.of_Get hget).2 ((h.processing req).mpr ⟨p, w, hp⟩)

/-- The queue adds requests. -/
theorem Consistent.queue_eq (h : Consistent s) {q : DelayingQueue Key}
    (hvalid : q.base.Valid) (hprocessing : q.base.processing = s.queue.base.processing) :
    Consistent { s with queue := q } :=
  ⟨hvalid, fun y => hprocessing ▸ h.processing y, h.alone⟩

variable [DecidableEq W]

/-- A worker takes a request. -/
theorem Consistent.get (h : Consistent s) {q : WorkQueue Key} {p : Prog S (Except Error Result)}
    (hw : s.workers w = none) (hget : s.queue.base.Get = some (some req, q)) :
    Consistent { s with queue := { s.queue with base := q },
                        workers := Function.update s.workers w (some (req, p)) } := by
  refine ⟨h.queue.Get hget, fun y => ?_, h.alone.update _ _ _ ?_⟩
  · obtain ⟨rest, -, rfl⟩ := WorkQueue.Get_item hget
    rw [Finset.mem_insert, h.processing]
    by_cases hy : y = req
    · subst hy
      simp only [true_or, true_iff]
      exact ⟨p, w, Function.update_self ..⟩
    · simp only [hy, false_or]
      exact exists_congr fun p => (runs_update_iff (by simp [hw]) fun p' e => hy (by cases e; rfl)).symm
  · rintro y p' e w' p'' -
    cases e
    exact h.free hget w' p''

/-- A worker goes on with its request. -/
theorem Consistent.continue (h : Consistent s) {p : Prog S (Except Error Result)}
    (hw : s.workers w = some (req, p)) (p' : Prog S (Except Error Result)) :
    Consistent { s with workers := Function.update s.workers w (some (req, p')) } := by
  refine ⟨h.queue, fun y => ?_, h.alone.update _ _ _ ?_⟩
  · rw [h.processing]
    by_cases hy : y = req
    · subst hy
      exact ⟨fun _ => ⟨p', w, Function.update_self ..⟩, fun _ => ⟨p, w, hw⟩⟩
    · refine exists_congr fun p => (runs_update_iff (fun p' e => hy ?_) fun p' e => hy ?_).symm
      · rw [hw] at e
        cases e
        rfl
      · cases e
        rfl
  · rintro y p'' e w' p''' hne
    cases e
    exact h.others hw w' p''' hne

/-- A worker is done with its request. -/
theorem Consistent.finish (h : Consistent s) {p : Prog S (Except Error Result)}
    {res : Except Error Result} {soon : Bool} {q : DelayingQueue Key}
    (hw : s.workers w = some (req, p)) (hq : Processed s.queue req res soon q) :
    Consistent { s with queue := q, workers := Function.update s.workers w none } := by
  have hmem : req ∈ s.queue.base.processing := (h.processing req).mpr ⟨p, w, hw⟩
  refine ⟨hq.valid h.queue hmem, fun y => ?_, h.alone.update _ _ _ (by simp)⟩
  rw [hq.processing, Finset.mem_erase, h.processing]
  by_cases hy : y = req
  · subst hy
    simp only [ne_eq, not_true_eq_false, false_and, false_iff, not_exists]
    exact fun p' => runs_update_none (h.others hw)
  · simp only [ne_eq, hy, not_false_eq_true, true_and]
    refine exists_congr fun p => (runs_update_iff (fun p' e => hy ?_) (by simp)).symm
    rw [hw] at e
    cases e
    rfl

theorem Step.consistent [DecidableEq ι] {move : Move ι} (hstep : C.Step s move s')
    (h : Consistent s) : Consistent s' := by
  cases hstep with
  | edit => exact ⟨h.queue, h.processing, h.alone⟩
  | @deliver i _ _ o =>
    have h' := h.queue_eq
      (q := { s.queue with base := addAll s.queue.base (C.requests i (s.delivered i) o) })
      (addAll_valid h.queue) addAll_processing
    exact ⟨h'.queue, h'.processing, h'.alone⟩
  | get hw hget => exact h.get hw hget
  | @call w req op k r a hw ha =>
    have h' := h.continue hw (k r)
    exact ⟨by simpa using h'.queue, by simpa [Runs] using h'.processing,
      by simpa [Alone] using h'.alone⟩
  | finish delay hw =>
    obtain ⟨soon, hq⟩ := processed_spec
    exact h.finish hw hq
  | delayed hq =>
    cases hq with
    | ready | add => exact h.queue_eq h.queue.Add WorkQueue.Add_processing
    | insert => exact h.queue_eq h.queue rfl
  | stop => exact h.queue_eq h.queue.ShutDown rfl
  | restart => exact ⟨WorkQueue.valid_empty, by simp [Runs], nofun⟩

end Consistent

/-- In every run, a request is reconciled by one worker at most, and the requests that wait in the
queue are those that are dirty and that no worker has, each once. -/
theorem alone_of_run [DecidableEq ι] [DecidableEq W]
    {ts : List (Trans (ControllerState S Obj W) (Move ι))} (h : Run C.sys ts s) :
    Alone s ∧ s.queue.base.queue.Nodup ∧
      ∀ req, req ∈ s.queue.base.queue ↔ req ∈ s.queue.base.dirty ∧ ∀ p, ¬ Runs s req p := by
  have hinit : ∀ s : ControllerState S Obj W, C.sys.init s → Consistent s := by
    rintro s ⟨pending, rfl⟩
    exact ⟨WorkQueue.valid_empty, by simp [Runs], nofun⟩
  have hs := (h.invariant' hinit fun t ht hc => ht.consistent hc).1
  refine ⟨hs.alone, hs.queue.nodup, fun req => ?_⟩
  rw [hs.queue.mem, hs.processing, not_exists]

end Controller

namespace ReconcileNode

/-- A Node that was created and then changed, of which the informer knows nothing yet. -/
def changedNode : Node where
  metadata := { name := "web-node-0", ns := "default" }
  spec := { hostname := "web-0" }
  status := {}

def markedNode : Node :=
  { changedNode with spec := { hostname := "web-0", deletionDate := "1" } }

def changedVersions : Cached (.node, changedNode.key) × Cached (.node, changedNode.key) :=
  (some ⟨changedNode, rfl⟩, some ⟨markedNode, rfl⟩)

def unlistedChanges : ControllerState NodeApi Cached Bool where
  delivered _ := none
  pending := Function.update (fun _ => []) (.node, changedNode.key)
    [changedVersions.1, changedVersions.2]

/-- One of two workers has the Node when its change is delivered: it is dirty, but not queued. -/
theorem alone_of_run_changed : ∃ s : ControllerState NodeApi Cached Bool,
    changedNode.key ∈ s.queue.base.dirty ∧ changedNode.key ∉ s.queue.base.queue ∧
      Controller.Alone s := by
  have h₀ : Run controller.sys [] unlistedChanges := .nil ⟨_, rfl⟩
  have h₁ := h₀.snoc (.deliver (show _ = [] ++ changedVersions.1 :: [changedVersions.2] from rfl))
  have h₂ := h₁.snoc (.get (w := true) rfl rfl)
  have h₃ := h₂.snoc (@Controller.Step.deliver _ _ _ _ _ _ _ _ (.node, changedNode.key) [] []
    changedVersions.2 rfl)
  exact ⟨_, by decide, by decide, (Controller.alone_of_run h₃).1⟩

end ReconcileNode

end Automium
