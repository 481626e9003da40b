import Automium.Effect.Loop
import Automium.Proofs.Workers

/-!
# The workers of a controller run one loop for each key

`Controller.loop` is what a controller does for one request, in the terms of `Effect.Loop`: the key is
queued if it is dirty, it is scheduled if it is delayed, and it is running if a worker has it.

* `refines`: a run of the controller, with any number of workers, is a run of the loop of each
  request.
* `at_rest`: what `Loop.at_rest` says of the loop, for the controller.
-/

namespace Automium

open Effect

namespace Controller

variable {S : Sig} {ι : Type} {Obj : ι → Type} {W : Type} {C : Controller S Obj}
  {s s' : ControllerState S Obj W} {req : Key}

/-- What the controller does for one request (module doc). -/
def loop (C : Controller S Obj) (req : Key) : Loop S Obj (Except Error Result) where
  program := C.Reconcile req
  requeues := addsAgain
  absent := C.absent
  watched := C.reads req
  wakes i old new := decide (req ∈ C.requests i old new)
  answer := C.answer req
  answer_congr := C.answer_congr

/-- The state of the loop for a request. While the queue shuts down, the loop may have more to do. -/
structure Shows (req : Key) (s : ControllerState S Obj W)
    (a : Looped S Obj (Except Error Result)) : Prop where
  delivered : a.delivered = s.delivered
  pending : a.pending = s.pending
  running : ∀ p, a.running = some p ↔ Runs s req p
  queued : req ∈ s.queue.base.dirty → a.queued = true
  scheduled : s.queue.Delayed req → a.scheduled = true
  dirty : s.queue.base.shuttingDown = false → a.queued = true → req ∈ s.queue.base.dirty
  delayed : s.queue.base.shuttingDown = false → a.scheduled = true → s.queue.Delayed req

/-- An event that does not add the request is not one of a change of what its reconcile reads. -/
def Heeds (C : Controller S Obj) (req : Key) (t : Trans (ControllerState S Obj W) (Move ι)) :
    Prop :=
  ∀ i, t.lbl = .deliver i → C.reads req i →
    req ∉ C.requests i (t.pre.delivered i) (t.post.delivered i) →
    t.post.delivered i = t.pre.delivered i

namespace Shows

variable {a a' : Looped S Obj (Except Error Result)}

theorem stored (h : Shows req s a) : a.stored = Controller.stored s := by
  funext i
  rw [Looped.stored, h.pending, h.delivered, Controller.stored]

/-- Nobody has the request. -/
theorem running_none (h : Shows req s a) (hs : ∀ p, ¬ Runs s req p) : a.running = none := by
  cases hr : a.running with
  | none => rfl
  | some p => exact absurd ((h.running p).mp hr) (hs p)

/-- What a step does to the objects, it does in both. -/
theorem heeds (h : Shows req s a) (h' : Shows req s' a') {move : Move ι} {l : Loop.Move ι}
    (hl : ∀ i, l = .deliver i → move = .deliver i) (hs : C.Heeds req ⟨s, move, s'⟩) :
    (C.loop req).Heeds ⟨a, l, a'⟩ := by
  intro i hi hreads hwakes
  have hheeds := hs i (hl i hi) hreads
  rw [← h.delivered, ← h'.delivered] at hheeds
  exact hheeds (by simpa [loop] using hwakes)

/-- A worker goes on with another request. -/
theorem other [DecidableEq W] (h : Shows req s a) {w : W}
    {x : Option (Key × Prog S (Except Error Result))} (hold : ∀ p, s.workers w ≠ some (req, p))
    (hnew : ∀ p, x ≠ some (req, p)) :
    Shows req { s with workers := Function.update s.workers w x } a :=
  { h with running := fun p => (h.running p).trans (runs_update_iff hold hnew).symm }

/-- The queue adds the request, or nothing changes for it. -/
theorem requeue (h : Shows req s a) {q : DelayingQueue Key} {queued scheduled : Bool}
    (hdown : q.base.shuttingDown = s.queue.base.shuttingDown)
    (hqueued : req ∈ q.base.dirty → queued = true)
    (hscheduled : q.Delayed req → scheduled = true)
    (hdirty : s.queue.base.shuttingDown = false → queued = true → req ∈ q.base.dirty)
    (hdelayed : s.queue.base.shuttingDown = false → scheduled = true → q.Delayed req) :
    Shows req { s with queue := q } { a with queued := queued, scheduled := scheduled } :=
  { delivered := h.delivered
    pending := h.pending
    running := h.running
    queued := hqueued
    scheduled := hscheduled
    dirty := fun hd => hdirty (hdown ▸ hd)
    delayed := fun hd => hdelayed (hdown ▸ hd) }

/-- The queue changes for other requests. -/
theorem queue_eq (h : Shows req s a) {q : DelayingQueue Key}
    (hdown : q.base.shuttingDown = s.queue.base.shuttingDown)
    (hdirty : req ∈ q.base.dirty ↔ req ∈ s.queue.base.dirty)
    (hdelayed : q.Delayed req ↔ s.queue.Delayed req) : Shows req { s with queue := q } a :=
  h.requeue hdown (fun hq => h.queued (hdirty.mp hq)) (fun hq => h.scheduled (hdelayed.mp hq))
    (fun hd hq => hdirty.mpr (h.dirty hd hq)) fun hd hq => hdelayed.mpr (h.delayed hd hq)

variable [DecidableEq ι]

theorem push (h : Shows req s a) (i : ι) (o : Obj i) :
    Shows req (Controller.push s i o) (a.push i o) :=
  { h with pending := by simp [Looped.push, Controller.push, h.pending] }

theorem store (h : Shows req s a) (o : Option (Sigma Obj)) :
    Shows req (Controller.store s o) (a.store o) := by
  cases o with
  | none => exact h
  | some x => exact h.push x.1 x.2

theorem deliver (h : Shows req s a) {i : ι} {skipped rest : List (Obj i)} {o : Obj i}
    (hp : s.pending i = skipped ++ o :: rest) :
    ∃ a', (C.loop req).Step a (.deliver i) a' ∧
      Shows req { s with delivered := Function.update s.delivered i o,
                         pending := Function.update s.pending i rest,
                         queue := { s.queue with
                           base := addAll s.queue.base (C.requests i (s.delivered i) o) } } a' := by
  refine ⟨_, .deliver (by rw [h.pending]; exact hp), ?_⟩
  have hadd : req ∈ (addAll s.queue.base (C.requests i (s.delivered i) o)).dirty →
      (a.queued || (C.loop req).wakes i (a.delivered i) o) = true := by
    intro hm
    rw [Bool.or_eq_true, h.delivered]
    exact (of_mem_addAll_dirty hm).imp h.queued fun hr => decide_eq_true hr
  refine ⟨by rw [h.delivered], by rw [h.pending], h.running, hadd, h.scheduled, fun hdown hq => ?_,
    fun hdown => h.delayed (by simpa using hdown)⟩
  have hdown : s.queue.base.shuttingDown = false := by simpa using hdown
  rw [h.delivered, Bool.or_eq_true] at hq
  exact (mem_addAll_dirty hdown).mpr (hq.imp (h.dirty hdown) of_decide_eq_true)

/-- A worker takes the request, or another. -/
theorem get [DecidableEq W] (h : Shows req s a) (hs : Consistent s) {w : W} {req' : Key}
    {q : WorkQueue Key} (hw : s.workers w = none)
    (hget : s.queue.base.Get = some (some req', q)) :
    ∃ a', ((C.loop req).Step a .take a' ∨ a' = a) ∧
      Shows req { s with queue := { s.queue with base := q },
                         workers := Function.update s.workers w (some (req', C.Reconcile req')) }
        a' := by
  have hdirty := (hs.queue.of_Get hget).1
  have hfree := hs.free hget
  obtain ⟨rest, -, rfl⟩ := WorkQueue.Get_item hget
  by_cases hreq : req' = req
  · subst hreq
    have hnone : a.running = none := h.running_none fun p ⟨w', hp⟩ => hfree w' p hp
    refine ⟨_, .inl (.take (h.queued hdirty) hnone), h.delivered, h.pending, fun p => ?_, ?_,
      h.scheduled, nofun, h.delayed⟩
    · rw [Runs, runs_update_self_iff fun w' p _ => hfree w' p]
      exact ⟨fun e => (Option.some.inj e).symm, fun e => congrArg some e.symm⟩
    · simp
  · refine ⟨a, .inr rfl, ?_⟩
    have h' := h.other (w := w) (x := some (req', C.Reconcile req')) (by simp [hw])
      fun p e => hreq (by cases e; rfl)
    refine h'.queue_eq rfl ?_ .rfl
    simp [Ne.symm hreq]

/-- A worker makes a call for the request, or for another. -/
theorem call [DecidableEq W] (h : Shows req s a) (hs : Consistent s) {w : W} {req' : Key}
    {op : S.Op} {k : S.Reply op → Prog S (Except Error Result)} {r : S.Reply op}
    {o : Option (Sigma Obj)} (hw : s.workers w = some (req', .call op k))
    (ha : C.answer req' s.delivered (Controller.stored s) op r o) :
    ∃ l a', ((C.loop req).Step a l a' ∨ a' = a) ∧ (∀ i, l ≠ .deliver i) ∧
      Shows req { Controller.store s o with
        workers := Function.update s.workers w (some (req', k r)) } a' := by
  by_cases hreq : req' = req
  · subst hreq
    have hr : a.running = some (.call op k) := (h.running _).mpr ⟨w, hw⟩
    refine ⟨.call, { a.store o with running := some (k r) }, .inl (.call hr ?_), by simp, ?_⟩
    · rw [h.delivered, h.stored]
      exact ha
    · refine { h.store o with running := fun p => ?_ }
      rw [Runs, runs_update_self_iff (hs.others hw)]
      exact ⟨fun e => (Option.some.inj e).symm, fun e => congrArg some e.symm⟩
  · have hold : ∀ p, s.workers w ≠ some (req, p) := fun p e => hreq (by
      rw [hw] at e
      cases e
      rfl)
    have h' := (h.other hold fun p (e : some (req', k r) = some (req, p)) => hreq (by
      cases e
      rfl)).store o
    refine ⟨.edit, a.store o, ?_, by simp, ?_⟩
    · cases o with
      | none => exact .inr rfl
      | some x => exact .inl .edit
    · cases o <;> exact h'

/-- A worker is done with the request, or with another. -/
theorem finish [DecidableEq W] (h : Shows req s a) (hs : Consistent s) {w : W} {req' : Key}
    {res : Except Error Result} {soon : Bool} {q : DelayingQueue Key}
    (hw : s.workers w = some (req', .ret res)) (hq : Processed s.queue req' res soon q) :
    ∃ a', ((C.loop req).Step a .finish a' ∨ a' = a) ∧
      Shows req { s with queue := q, workers := Function.update s.workers w none } a' := by
  by_cases hreq : req' = req
  · subst hreq
    have hr : a.running = some (.ret res) := (h.running _).mpr ⟨w, hw⟩
    have hstep : (C.loop req').Step a .finish { a with
        running := none, queued := a.queued || addsAgain res && soon,
        scheduled := a.scheduled || addsAgain res && !soon } := .finish hr
    refine ⟨_, .inl hstep, ?_⟩
    have hrunning : ∀ p, none = some p ↔
        ∃ w', Function.update s.workers w none w' = some (req', p) := fun p =>
      iff_of_false nofun (runs_update_none (hs.others hw))
    refine { delivered := h.delivered, pending := h.pending, running := hrunning, queued := ?_,
             scheduled := ?_, dirty := ?_, delayed := ?_ }
    · exact fun hm => Bool.or_eq_true _ _ ▸ (hq.dirty req' hm).imp h.queued And.right
    · exact fun hm => Bool.or_eq_true _ _ ▸ (hq.delayed req' hm).imp h.scheduled And.right
    · intro hdown hm
      rw [hq.down] at hdown
      exact hq.still_dirty hdown req' ((Bool.or_eq_true _ _ ▸ hm).imp (h.dirty hdown) fun e => ⟨rfl, e⟩)
    · intro hdown hm
      rw [hq.down] at hdown
      exact hq.still_delayed hdown req'
        ((Bool.or_eq_true _ _ ▸ hm).imp (h.delayed hdown) fun e => ⟨rfl, e⟩)
  · have hold : ∀ p, s.workers w ≠ some (req, p) := fun p e => hreq (by
      rw [hw] at e
      cases e
      rfl)
    have hne : ∀ {P : Prop}, req = req' ∧ P → False := fun h => hreq h.1.symm
    refine ⟨a, .inr rfl, (h.other hold (by simp)).requeue hq.down ?_ ?_ ?_ ?_⟩
    · exact fun hm => h.queued ((hq.dirty req hm).resolve_right hne)
    · exact fun hm => h.scheduled ((hq.delayed req hm).resolve_right hne)
    · exact fun hd hm => hq.still_dirty hd req (.inl (h.dirty hd hm))
    · exact fun hd hm => hq.still_delayed hd req (.inl (h.delayed hd hm))

omit [DecidableEq ι] in
/-- A delayed item that is added, where what else is delayed is left open. -/
theorem add (h : Shows req s a) {item : Key} {q : DelayingQueue Key}
    (hbase : q.base = s.queue.base.Add item) (hitem : s.queue.Delayed item)
    (hothers : ∀ x, x ≠ item → (q.Delayed x ↔ s.queue.Delayed x)) :
    ∃ a', ((∃ again, a.scheduled = true ∧ a' = { a with scheduled := again, queued := true }) ∨
      a' = a) ∧ Shows req { s with queue := q } a' := by
  have hdown : q.base.shuttingDown = s.queue.base.shuttingDown := by
    rw [hbase, WorkQueue.Add_shuttingDown]
  by_cases hreq : req = item
  · subst hreq
    refine ⟨_, .inl ⟨decide (q.Delayed req), h.scheduled hitem, rfl⟩, h.requeue hdown ?_ ?_ ?_ ?_⟩
    · exact fun _ => rfl
    · exact fun hq => decide_eq_true hq
    · intro hd _
      rw [hbase]
      exact (WorkQueue.mem_Add_dirty hd).mpr (.inr rfl)
    · exact fun _ hq => of_decide_eq_true hq
  · refine ⟨a, .inr rfl, h.requeue hdown ?_ ?_ ?_ ?_⟩
    · intro hm
      rw [hbase] at hm
      exact h.queued ((WorkQueue.of_mem_Add_dirty hm).resolve_right hreq)
    · exact fun hq => h.scheduled ((hothers req hreq).mp hq)
    · intro hd hm
      rw [hbase]
      exact (WorkQueue.mem_Add_dirty hd).mpr (.inl (h.dirty hd hm))
    · exact fun hd hm => (hothers req hreq).mpr (h.delayed hd hm)

/-- The delaying queue adds the request, or another, or it takes an entry from its channel. -/
theorem delayed_step (h : Shows req s a) {q : DelayingQueue Key} (hq : s.queue.WaitingLoop q) :
    ∃ a', ((C.loop req).Step a .expire a' ∨ a' = a) ∧ Shows req { s with queue := q } a' := by
  have hexpire : ∀ a', ((∃ again, a.scheduled = true ∧
      a' = { a with scheduled := again, queued := true }) ∨ a' = a) →
      (C.loop req).Step a .expire a' ∨ a' = a := by
    rintro a' (⟨again, hscheduled, rfl⟩ | rfl)
    · exact .inl (.expire hscheduled)
    · exact .inr rfl
  cases hq with
  | @ready item rest hadding =>
    have hothers : ∀ x, x ≠ item → (DelayingQueue.Delayed
        { s.queue with adding := rest, base := s.queue.base.Add item } x ↔ s.queue.Delayed x) := by
      intro x hx
      simp [DelayingQueue.Delayed, hadding, hx]
    obtain ⟨a', hstep, h'⟩ := h.add (q := { s.queue with adding := rest, base := s.queue.base.Add item })
      rfl (.inl (by simp [hadding])) hothers
    exact ⟨a', hexpire a' hstep, h'⟩
  | @insert item rest hadding =>
    refine ⟨a, .inr rfl, h.queue_eq rfl .rfl ?_⟩
    simp only [DelayingQueue.Delayed, hadding, Finset.mem_insert, List.mem_cons]
    rw [or_left_comm, or_assoc]
  | @add item hwaiting =>
    have hothers : ∀ x, x ≠ item → (DelayingQueue.Delayed
        { s.queue with waiting := s.queue.waiting.erase item, base := s.queue.base.Add item } x ↔
          s.queue.Delayed x) := by
      intro x hx
      simp [DelayingQueue.Delayed, hx]
    obtain ⟨a', hstep, h'⟩ := h.add
      (q := { s.queue with waiting := s.queue.waiting.erase item, base := s.queue.base.Add item })
      rfl (.inr hwaiting) hothers
    exact ⟨a', hexpire a' hstep, h'⟩

end Shows

section Refines

variable [DecidableEq ι] [DecidableEq W]

/-- A step of the controller is one of the loop of a request, or none. -/
theorem Step.refines {a : Looped S Obj (Except Error Result)} {move : Move ι}
    (hstep : C.Step s move s') (hs : Consistent s) (h : Shows req s a) :
    Shows req s' a ∨ ∃ l a', (C.loop req).Step a l a' ∧ Shows req s' a' ∧
      ∀ i, l = .deliver i → move = .deliver i := by
  cases hstep with
  | @edit i o => exact .inr ⟨.edit, _, .edit, h.push i o, by simp⟩
  | @deliver i skipped rest o hp =>
    obtain ⟨a', hl, h'⟩ := h.deliver hp
    exact .inr ⟨.deliver i, a', hl, h', fun j e => by cases e; rfl⟩
  | get hw hget =>
    obtain ⟨a', hl | rfl, h'⟩ := h.get hs hw hget
    · exact .inr ⟨.take, a', hl, h', by simp⟩
    · exact .inl h'
  | call hw ha =>
    obtain ⟨l, a', hl | rfl, hne, h'⟩ := h.call hs hw ha
    · exact .inr ⟨l, a', hl, h', fun i e => absurd e (hne i)⟩
    · exact .inl h'
  | finish delay hw =>
    obtain ⟨soon, hq⟩ := processed_spec
    obtain ⟨a', hl | rfl, h'⟩ := h.finish hs hw hq
    · exact .inr ⟨.finish, a', hl, h', by simp⟩
    · exact .inl h'
  | delayed hq =>
    obtain ⟨a', hl | rfl, h'⟩ := h.delayed_step hq
    · exact .inr ⟨.expire, a', hl, h', by simp⟩
    · exact .inl h'
  | stop =>
    have hdown : (s.queue.base.ShutDown).shuttingDown = true := rfl
    exact .inl { h with dirty := fun hd => by simp [hdown] at hd,
                        delayed := fun hd => by simp [hdown] at hd }
  | restart =>
    refine .inr ⟨.restart, _, .restart, ?_, by simp⟩
    exact { delivered := rfl, pending := by rw [h.stored], running := by simp [Runs],
            queued := by simp, scheduled := by simp [DelayingQueue.Delayed], dirty := by simp,
            delayed := by simp }

/-- A run of the controller is one of the loop of each request (module doc). -/
theorem refines {ts : List (Trans (ControllerState S Obj W) (Move ι))} (h : Run C.sys ts s)
    (hheeds : ∀ t ∈ ts, C.Heeds req t) :
    ∃ ts' a, Run (C.loop req).sys ts' a ∧ Shows req s a ∧ ∀ t ∈ ts', (C.loop req).Heeds t := by
  have hinit : ∀ s : ControllerState S Obj W, C.sys.init s →
      ∃ a, (C.loop req).sys.init a ∧ Consistent s ∧ Shows req s a := by
    rintro s ⟨pending, rfl⟩
    refine ⟨_, ⟨pending, rfl⟩, ⟨WorkQueue.valid_empty, by simp [Runs], by simp [Alone]⟩, ?_⟩
    exact { delivered := rfl, pending := rfl, running := by simp [Runs], queued := by simp,
            scheduled := by simp [DelayingQueue.Delayed], dirty := by simp, delayed := by simp }
  have hstep : ∀ (t : Trans (ControllerState S Obj W) (Move ι)) a, C.sys.step t.pre t.lbl t.post →
      Consistent t.pre ∧ Shows req t.pre a → C.Heeds req t →
      (Consistent t.post ∧ Shows req t.post a) ∨
        ∃ l a', (C.loop req).sys.step a l a' ∧ (Consistent t.post ∧ Shows req t.post a') ∧
          (C.loop req).Heeds ⟨a, l, a'⟩ := by
    rintro t a hst ⟨hs, hshows⟩ hheeds
    have hs' := Step.consistent hst hs
    rcases Step.refines hst hs hshows with h' | ⟨l, a', hl, h', hlbl⟩
    · exact .inl ⟨hs', h'⟩
    · exact .inr ⟨l, a', hl, ⟨hs', h'⟩, hshows.heeds h' hlbl hheeds⟩
  obtain ⟨ts', a, hrun, ⟨-, hshows⟩, hts'⟩ := h.simulates hinit hstep hheeds
  exact ⟨ts', a, hrun, hshows, hts'⟩

end Refines

/-- The controller has nothing to do for a request: it does not shut down, the request is not dirty,
not delayed and not reconciled, and what its reconcile reads was delivered. -/
structure Rests (C : Controller S Obj) (req : Key) (s : ControllerState S Obj W) : Prop where
  running : s.queue.base.shuttingDown = false
  dirty : req ∉ s.queue.base.dirty
  delayed : ¬ s.queue.Delayed req
  alone : ∀ p, ¬ Runs s req p
  delivered : ∀ i, C.reads req i → s.pending i = []

/-- The rule for requests for which there is nothing to do (module doc). -/
theorem at_rest [DecidableEq ι] [DecidableEq W]
    {ts : List (Trans (ControllerState S Obj W) (Move ι))} (h : Run C.sys ts s)
    (hheeds : ∀ t ∈ ts, C.Heeds req t) (hs : C.Rests req s) : (C.loop req).Done (stored s) := by
  obtain ⟨ts', a, hrun, hshows, hts'⟩ := refines h hheeds
  have hrests : (C.loop req).Rests a := {
    queued := Bool.eq_false_iff.mpr fun hq => hs.dirty (hshows.dirty hs.running hq)
    scheduled := Bool.eq_false_iff.mpr fun hq => hs.delayed (hshows.delayed hs.running hq)
    running := hshows.running_none hs.alone
    delivered := fun i hi => hshows.pending ▸ hs.delivered i hi }
  refine (Loop.at_rest hrun hts' hrests).congr fun i hi => ?_
  rw [← hshows.stored, hrests.stored hi]

end Controller

end Automium
