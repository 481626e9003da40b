import Automium.Controller.Module
import Automium.Effect.Runs
import Automium.Runtime.WorkQueue

/-!
# The workers of a controller

`vendor/sigs.k8s.io/controller-runtime/pkg`: the event handlers (`handler`) and the controller that
runs `Reconcile` (`internal/controller`).

Informers keep copies of the watched objects. The handlers add the requests of an event to the work
queue, from which any number of workers take them; a request may be delayed by the result of its
last reconcile. `Controller.sys` has the steps of the informers, the queue and the workers, and
those of other actors, which store new versions of the objects, in any order.
-/

namespace Automium

open Effect

/-- `metav1.GetControllerOf`. -/
def GetControllerOf (controllee : ObjectMeta) : Option OwnerReference :=
  controllee.ownerReferences.find? (·.controller)

/-- What a handler looks at: the new object of a create event, both of an update event and the old one
of a delete event. -/
def eventMetas (old new : Option ObjectMeta) : List ObjectMeta := old.toList ++ new.toList

namespace EnqueueRequestForObject

def requests (old new : Option ObjectMeta) : List Key :=
  (eventMetas old new).map fun evt => ⟨evt.ns, evt.name⟩

end EnqueueRequestForObject

namespace EnqueueRequestForOwner

/-- With `IsController`. A kind stands for a group and a kind. -/
def getOwnerReconcileRequest (ownerType : String) (object : ObjectMeta) : List Key :=
  match GetControllerOf object with
  | none => []
  | some ref => if ref.kind = ownerType then [⟨object.ns, ref.name⟩] else []

def requests (ownerType : String) (old new : Option ObjectMeta) : List Key :=
  (eventMetas old new).flatMap (getOwnerReconcileRequest ownerType)

end EnqueueRequestForOwner

/-- The end of `processNextWorkItem`, where the rate limiter says `delay`. -/
def processed (q : DelayingQueue Key) (req : Key) (delay : Int) (res : Except Error Result) :
    DelayingQueue Key :=
  match res with
  | .error _ => (q.AddAfter req delay).Done req
  | .ok result =>
    if result.requeueAfter > 0 then (q.AddAfter req result.requeueAfter).Done req
    else if result.requeue then (q.AddAfter req delay).Done req
    else q.Done req

/-- The results after which the request is added again. -/
def addsAgain : Except Error Result → Bool
  | .error _ => true
  | .ok result => result.requeueAfter > 0 || result.requeue

/-- A controller and what it watches. -/
structure Controller (S : Sig) {ι : Type} (Obj : ι → Type) where
  Reconcile : Key → Prog S (Except Error Result)
  /-- What is known of an object before it was delivered. -/
  absent : (i : ι) → Obj i
  /-- The requests of an event, given the object before and after it. -/
  requests : (i : ι) → Obj i → Obj i → List Key
  /-- The objects that a reconcile reads from the informers. -/
  reads : Key → ι → Prop
  /-- The calls of a reconcile, by the versions delivered and the stored ones, with the version that
  they store. -/
  answer : Key → ((i : ι) → Obj i) → ((i : ι) → Obj i) → (op : S.Op) → S.Reply op →
    Option (Sigma Obj) → Prop
  answer_congr : ∀ {req : Key} {v w : (i : ι) → Obj i}, (∀ i, reads req i → v i = w i) →
    ∀ stored op r a, answer req v stored op r a → answer req w stored op r a

/-- The state of a controller with the workers `W`, and of the objects. -/
structure ControllerState (S : Sig) {ι : Type} (Obj : ι → Type) (W : Type) where
  delivered : (i : ι) → Obj i
  /-- The versions stored since, oldest first. -/
  pending : (i : ι) → List (Obj i)
  queue : DelayingQueue Key := {}
  /-- The request of each worker, and what is left of its reconcile. -/
  workers : W → Option (Key × Prog S (Except Error Result)) := fun _ => none

namespace Controller

variable {S : Sig} {ι : Type} {Obj : ι → Type} {W : Type}

/-- The stored objects. -/
def stored (s : ControllerState S Obj W) (i : ι) : Obj i := (s.pending i).getLastD (s.delivered i)

/-- The handlers add requests. -/
def addAll (q : WorkQueue Key) (reqs : List Key) : WorkQueue Key := reqs.foldl WorkQueue.Add q

/-- Which kind of step is taken. -/
inductive Move (ι : Type) where
  | edit | deliver (i : ι) | get | call | finish | delayed | stop | restart

variable [DecidableEq ι] [DecidableEq W]

/-- A new version of an object is stored. -/
def push (s : ControllerState S Obj W) (i : ι) (o : Obj i) : ControllerState S Obj W :=
  { s with pending := Function.update s.pending i (s.pending i ++ [o]) }

/-- What a call stores. -/
def store (s : ControllerState S Obj W) : Option (Sigma Obj) → ControllerState S Obj W
  | none => s
  | some ⟨i, o⟩ => push s i o

/-- The steps (module doc). -/
inductive Step (C : Controller S Obj) :
    ControllerState S Obj W → Move ι → ControllerState S Obj W → Prop
  | edit {s : ControllerState S Obj W} {i : ι} {o : Obj i} : Step C s .edit (push s i o)
  | deliver {s : ControllerState S Obj W} {i : ι} {skipped rest : List (Obj i)} {o : Obj i} :
      s.pending i = skipped ++ o :: rest →
      Step C s (.deliver i)
        { s with delivered := Function.update s.delivered i o,
                 pending := Function.update s.pending i rest,
                 queue := { s.queue with
                   base := addAll s.queue.base (C.requests i (s.delivered i) o) } }
  | get {s : ControllerState S Obj W} {w : W} {req : Key} {q : WorkQueue Key} :
      s.workers w = none → s.queue.base.Get = some (some req, q) →
      Step C s .get
        { s with queue := { s.queue with base := q },
                 workers := Function.update s.workers w (some (req, C.Reconcile req)) }
  | call {s : ControllerState S Obj W} {w : W} {req : Key} {op : S.Op}
      {k : S.Reply op → Prog S (Except Error Result)} {r : S.Reply op} {a : Option (Sigma Obj)} :
      s.workers w = some (req, .call op k) → C.answer req s.delivered (stored s) op r a →
      Step C s .call { store s a with workers := Function.update s.workers w (some (req, k r)) }
  | finish {s : ControllerState S Obj W} {w : W} {req : Key} {res : Except Error Result}
      (delay : Int) : s.workers w = some (req, .ret res) →
      Step C s .finish { s with queue := processed s.queue req delay res,
                                workers := Function.update s.workers w none }
  | delayed {s : ControllerState S Obj W} {q : DelayingQueue Key} : s.queue.WaitingLoop q →
      Step C s .delayed { s with queue := q }
  | stop {s : ControllerState S Obj W} :
      Step C s .stop { s with queue := { s.queue with base := s.queue.base.ShutDown } }
  /-- A process that crashed, or was killed, is replaced. -/
  | restart {s : ControllerState S Obj W} :
      Step C s .restart { delivered := C.absent, pending := fun i => [stored s i] }

/-- The runs start before anything was delivered. -/
def sys (C : Controller S Obj) : Sys (ControllerState S Obj W) (Move ι) where
  init s := ∃ pending, s = { delivered := C.absent, pending := pending }
  step := C.Step

end Controller

end Automium
