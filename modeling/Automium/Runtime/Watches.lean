import Automium.Controller.Addon
import Automium.Controller.Node
import Automium.Controller.Service
import Automium.Runtime.Controller

/-!
# What the controllers watch

The `add` functions of `pkg/controller`: each controller watches the objects that it reconciles, and
all but the Node controller also watch the objects that they create for them, by their owner. The
manager's client reads from the informers (`Answers`): a get returns the version delivered last, a
list may return anything, and a write goes to the server, which needs the stored version.
-/

namespace Automium

open Effect

/-- What an informer knows of the object of a kind under a key. -/
abbrev Cached (i : Kind × Key) : Type := Option {o : i.1.Obj // o.key = i.2}

def Cached.metadata {i : Kind × Key} (x : Cached i) : Option ObjectMeta :=
  x.map fun o => o.1.metadata

/-- The calls of a reconcile that reads the objects in `reads` (module doc). A call that failed may
have been served. -/
def Answers (reads : Kind × Key → Prop) (delivered stored : (i : Kind × Key) → Cached i) :
    (op : Request) → op.Reply → Option (Sigma Cached) → Prop
  | .get k key, r, a => a = none ∧ (reads (k, key) →
      match delivered (k, key) with
      | none => ∃ e, r = .error e
      | some o => r = .ok o.1 ∨ ∃ e : Error, e.isNotFound = false ∧ r = .error e)
  | .create k o, r, a =>
    (a = none ∧ ∃ e, r = .error e) ∨
      (stored (k, o.key) = none ∧ ∃ v, a = some ⟨(k, o.key), some ⟨newObj k o v, rfl⟩⟩ ∧
        (r = .ok (newObj k o v) ∨ ∃ e, r = .error e))
  | .update k o, r, a =>
    (a = none ∧ ∃ e, r = .error e) ∨
      ∃ old, stored (k, o.key) = some old ∧
        o.metadata.resourceVersion = old.1.metadata.resourceVersion ∧
        ∃ v, a = some ⟨(k, o.key), some ⟨updatedObj k old.1 o v, rfl⟩⟩ ∧
          (r = .ok (updatedObj k old.1 o v) ∨ ∃ e, r = .error e)
  | .updateStatus k o, r, a =>
    (a = none ∧ ∃ e, r = .error e) ∨
      ∃ old, stored (k, o.key) = some old ∧
        o.metadata.resourceVersion = old.1.metadata.resourceVersion ∧
        ∃ v, a = some ⟨(k, o.key), some ⟨statusObj k old.1 o v, old.2⟩⟩ ∧
          (r = .ok (statusObj k old.1 o v) ∨ ∃ e, r = .error e)
  | .delete k key, r, a =>
    (a = none ∧ ∃ e, r = .error e) ∨
      (stored (k, key) ≠ none ∧ a = some ⟨(k, key), none⟩ ∧ (r = .ok () ∨ ∃ e, r = .error e))
  | .list _ _, _, a | .now, _, a | .getenv _, _, a | .slack _, _, a => a = none

theorem Answers.congr {reads : Kind × Key → Prop} {v w : (i : Kind × Key) → Cached i}
    (h : ∀ i, reads i → v i = w i) (stored : (i : Kind × Key) → Cached i) (op : Request)
    (r : op.Reply) (a : Option (Sigma Cached)) (ha : Answers reads v stored op r a) :
    Answers reads w stored op r a := by
  cases op with
  | get k key =>
    refine ⟨ha.1, fun hread => ?_⟩
    rw [← h (k, key) hread]
    exact ha.2 hread
  | _ => exact ha

/-- A controller for the objects of the kind `first`, each of which owns the object of the kind
`second` under the key `secondKey`. -/
def ownerController (first second : Kind) (secondKey : Key → Key)
    (Reconcile : Key → Ctl (Except Error Result)) : Controller Api Cached where
  Reconcile := Reconcile
  absent _ := none
  requests i old new :=
    (if i.1 = first then EnqueueRequestForObject.requests old.metadata new.metadata else []) ++
      if i.1 = second then
        EnqueueRequestForOwner.requests first.kindName old.metadata new.metadata
      else []
  reads req i := i = (first, req) ∨ i = (second, secondKey req)
  answer req := Answers fun i => i = (first, req) ∨ i = (second, secondKey req)
  answer_congr := Answers.congr

/-- The key of the Module of a Service. -/
def ReconcileService.ownedKey (req : Key) : Key := ⟨req.ns, moduleName req.name⟩

def ReconcileService.controller (upper : Go.Upper) : Controller Api Cached :=
  ownerController .service .module ownedKey (Reconcile upper)

/-- The key of the Job of a Module. -/
def ReconcileModule.ownedKey (req : Key) : Key := ⟨req.ns, jobName req.name⟩

def ReconcileModule.controller (sort : Data.SliceSort) : Controller Api Cached :=
  ownerController .module .job ownedKey (Reconcile sort)

/-- The key of the Application of an extra. -/
def addonOwnedKey (req : Key) : Key := ⟨req.ns, req.name ++ "-app"⟩

/-- The controller of an extra, given the name of its Application and its namespace. -/
def addonController (a : Addon) (name ns : String) : Controller Api Cached :=
  ownerController (.addon a) .application addonOwnedKey (reconcileAddon a name ns)

def ReconcileMonitoring.controller : Controller Api Cached :=
  addonController .monitoring "automium-monitoring" "automium-prometheus"

def ReconcileBackup.controller : Controller Api Cached :=
  addonController .backup "automium-backup" "kube-system"

def ReconcileLogging.controller : Controller Api Cached :=
  addonController .logging "automium-logging" "kube-system"

/-- Consul may reply anything. -/
def ReconcileNode.controller : Controller NodeApi Cached where
  Reconcile := Reconcile
  absent _ := none
  requests i old new :=
    if i.1 = .node then EnqueueRequestForObject.requests old.metadata new.metadata else []
  reads req i := i = (.node, req)
  answer req delivered stored op r a :=
    match op, r with
    | .inl op, r => Answers (fun i => i = (.node, req)) delivered stored op r a
    | .inr _, _ => a = none
  answer_congr h stored op r a := by
    cases op with
    | inl op => exact Answers.congr h stored op r a
    | inr op => exact id

end Automium
