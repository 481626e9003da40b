import Automium.Effect.Preserves
import Automium.Proofs.Choice
import Automium.Proofs.NodeStatus
import Automium.Proofs.ServiceCalls

/-!
# The rollout of a Service

`Rollout` is a Service whose spec stays: it may be new, or have had fewer or more replicas before, and
if no replicas are wanted it is torn down. While it is rolled out more and more becomes true of its
objects, and stays true: `Facts` says how far this has come, and `Rollout.At` that the store is as the
facts say. It has one part for each kind of object (`ServiceAt`, `ModuleAt`, `JobAt`, `NodesAt`), so
that a call has to answer for the kind that it writes only.

Without any facts, `At` says what the controllers and the users around them never spoil: the Module
has the spec that is rendered from the Service, and the Nodes of the Service are those of replicas
below `bound`. The Nodes of the replicas that are wanted are unmarked, and if there may be more, none
of them is missing.
-/

namespace Automium

open Data Effect ReconcileService ReconcileModule

/-- A Service to be rolled out (module doc). -/
structure Rollout where
  upper : Go.Upper
  platform : String
  service : Service
  replicas : ℕ
  /-- There may be Nodes of the replicas below. -/
  bound : ℕ
  /-- The hostnames begin with this. -/
  base : String
  wanted : service.spec.replicas = replicas
  replicas_le : replicas ≤ bound
  bound_le : bound ≤ Go.maxInt
  /-- The Nodes can be sorted by number, if some have to go. -/
  noDigit : replicas < bound → Go.NoDigit base
  name_ne : service.metadata.name ≠ ""
  ns_ne : service.metadata.ns ≠ ""
  app_ne : appOf service ≠ ""
  flavor_ne : service.spec.flavor ≠ ""
  base_eq : hostBase (appOf service) service.metadata.name
    (renderSpec upper platform service).env = .ok base

/-- What is true so far. The statuses of the Nodes are looked at from replica 0 on. -/
structure Facts where
  /-- The Service is stored. -/
  stored : Bool := false
  /-- Its Module is stored. -/
  rendered : Bool := false
  /-- The Nodes of the replicas below have statuses that start no upgrade. -/
  checked : ℕ := 0
  /-- There is no Job but the one that deploys the Module. -/
  current : Bool := false
  /-- There is a Job. -/
  created : Bool := false
  /-- It is completed. -/
  finished : Bool := false
  /-- Each replica has its Node, and the other Nodes are marked. -/
  scaled : Bool := false
  /-- Each replica has its machine, and there are no others. -/
  up : Bool := false
  /-- The Nodes of the replicas below are recorded as healthy, or as gone if they are marked. -/
  settled : ℕ := 0
  /-- The marked Nodes of the replicas below are removed. -/
  removed : ℕ := 0
  /-- The status of the Module counts all replicas. -/
  counted : Bool := false
  /-- It has the phase `Completed`. -/
  completed : Bool := false
  /-- And so has the Service. -/
  reported : Bool := false

/-- Which facts rest on which. -/
structure Facts.Valid (K : Facts) (bound : ℕ) : Prop where
  current : K.current = true → bound ≤ K.checked
  created : K.created = true → K.current = true
  finished : K.finished = true → K.created = true
  settled : 0 < K.settled → bound ≤ K.checked ∧ K.scaled = true ∧ K.up = true
  counted : K.counted = true → K.rendered = true ∧ K.finished = true ∧ K.scaled = true ∧
    bound ≤ K.settled ∧ bound ≤ K.removed
  completed : K.completed = true → K.counted = true
  reported : K.reported = true → K.completed = true

namespace Rollout

variable (d : Rollout)

def spec : ModuleSpec := renderSpec d.upper d.platform d.service

def name : String := d.service.metadata.name

def ns : String := d.service.metadata.ns

def moduleKey : Key := ReconcileService.moduleKey d.service

def jobKey : Key := ⟨d.ns, jobName (moduleName d.name)⟩

def nodeKey (i : ℕ) : Key := ⟨d.ns, nodeName d.name i⟩

/-- The hostname of the machine of a replica. -/
def hostname (i : ℕ) : String := d.base ++ "-" ++ toString i

/-- The action, and the command of the Job. -/
def action : String := if d.replicas = 0 then "Destroy" else "Deploy"

def command : List String := if d.replicas = 0 then ["./remove"] else ["./deploy"]

/-! ## One object -/

/-- The Module of the Service. -/
structure IsModule (m : Module) : Prop where
  spec : m.spec = d.spec
  service : serviceNameOf m.metadata = d.name
  app : appNameOf m.metadata = appOf d.service

/-- The container of the Job that deploys the Module, or removes its machines if none are wanted. -/
def IsProvisioner (container : Container) : Prop :=
  container.env = batchEnvVars (renderModule d.upper d.platform d.service) ∧
    container.command = d.command

/-- The Job deploys the Module. -/
def Deploys (job : Job) : Prop :=
  ∃ container rest, job.spec.containers = container :: rest ∧ d.IsProvisioner container

/-- The Node belongs to the Service, or it has the name of a replica. -/
def Ours (node : Node) : Prop :=
  node.metadata.ns = d.ns ∧ serviceNameOf node.metadata = d.name ∨
    ∃ i < d.bound, node.key = d.nodeKey i

/-- The Node of replica `i`. -/
structure Replica (i : ℕ) (node : Node) : Prop where
  lt : i < d.bound
  key : node.key = d.nodeKey i
  service : serviceNameOf node.metadata = d.name
  hostname : node.spec.hostname = d.hostname i
  unmarked : i < d.replicas → node.spec.deletionDate = ""

/-- A status that starts no upgrade: what is recorded is as in the Service. -/
def Good (node : Node) : Prop :=
  RecordedAs (renderModule d.upper d.platform d.service) node ∧ ¬ MissingData node

/-- The machine is healthy and as in the Service. -/
structure Healthy (node : Node) : Prop where
  healthy : NodeIsHealthy node = true
  image : node.status.nodeProperties.image = d.spec.image
  flavor : node.status.nodeProperties.flavor = d.spec.flavor

/-- The machine is as it should be in the end: healthy, or gone if it is surplus. -/
def Settled (i : ℕ) (node : Node) : Prop :=
  (i < d.replicas → d.Healthy node) ∧
    (d.replicas ≤ i → node.status.nodeProperties.id = nonExistentMachine)

/-- The Job is over, and did what it should. -/
structure Complete (status : JobStatus) : Prop where
  active : status.active = 0
  started : status.startTime ≠ none
  complete : status.conditions.head? = some "Complete"

/-! ## The store -/

structure ServiceAt (stored reported : Bool) (o : Option Service) : Prop where
  same : ∀ service, o = some service → Same d.service service
  stored : stored = true → o ≠ none
  reported : reported = true → ∀ service, o = some service →
    service.status.phase = StatusPhaseCompleted

structure ModuleAt (rendered counted completed : Bool) (o : Option Module) : Prop where
  fits : ∀ m, o = some m → d.IsModule m
  rendered : rendered = true → o ≠ none
  counted : counted = true → ∀ m, o = some m →
    m.status.replicas = d.replicas ∧ m.status.updatedReplicas = d.replicas
  completed : completed = true → ∀ m, o = some m → m.status.phase = StatusPhaseCompleted

structure JobAt (current created finished : Bool) (o : Option Job) : Prop where
  /-- As every Job, it has a container. -/
  containers : ∀ job, o = some job → job.spec.containers ≠ []
  current : current = true → ∀ job, o = some job → d.Deploys job
  created : created = true → o ≠ none
  finished : finished = true → ∀ job, o = some job → Complete job.status

/-- The Node is that of replica `i`, and is as the facts say. -/
structure NodeAt (K : Facts) (i : ℕ) (node : Node) : Prop where
  replica : d.Replica i node
  good : i < K.checked → d.Good node
  marked : K.scaled = true → d.replicas ≤ i → node.spec.deletionDate ≠ ""
  settled : i < K.settled → d.Settled i node
  kept : i < K.removed → i < d.replicas

structure NodesAt (K : Facts) (t : Tbl .node) : Prop where
  ours : ∀ node : Node, node ∈ t → d.Ours node → ∃ i, d.NodeAt K i node
  scaled : K.scaled = true ∨ d.replicas < d.bound → ∀ i < d.replicas, t.find? (d.nodeKey i) ≠ none

/-- The store is as the facts say (module doc). -/
structure At (K : Facts) (c : Cluster) : Prop where
  platform : c.env "PLATFORM" = d.platform
  service : d.ServiceAt K.stored K.reported (c.find? .service d.service.key)
  module : d.ModuleAt K.rendered K.counted K.completed (c.find? .module d.moduleKey)
  job : d.JobAt K.current K.created K.finished (c.find? .job d.jobKey)
  nodes : d.NodesAt K (c.tbl .node)

/-! ## Writes -/

section

variable {d} {K : Facts} {c c' : Cluster}

theorem nodeKey_inj {i j : ℕ} (h : d.nodeKey i = d.nodeKey j) : i = j :=
  (nodeName_inj (Key.mk.inj h).2).2

theorem ServiceAt.put {stored reported : Bool} {t : Tbl .service} {o : Service}
    (h : d.ServiceAt stored reported (t.find? d.service.key))
    (ho : o.key = d.service.key → Same d.service o ∧
      (reported = true → o.status.phase = StatusPhaseCompleted)) :
    d.ServiceAt stored reported ((t.put o).find? d.service.key) := by
  rw [Table.find?_put]
  split
  · rename_i hkey
    obtain ⟨hsame, hphase⟩ := ho hkey.symm
    exact ⟨by rintro _ ⟨⟩; exact hsame, by simp, by rintro hr _ ⟨⟩; exact hphase hr⟩
  · exact h

theorem ModuleAt.put {rendered counted completed : Bool} {t : Tbl .module} {m : Module}
    (h : d.ModuleAt rendered counted completed (t.find? d.moduleKey))
    (hm : m.key = d.moduleKey → d.IsModule m ∧
      (counted = true → m.status.replicas = d.replicas ∧ m.status.updatedReplicas = d.replicas) ∧
      (completed = true → m.status.phase = StatusPhaseCompleted)) :
    d.ModuleAt rendered counted completed ((t.put m).find? d.moduleKey) := by
  rw [Table.find?_put]
  split
  · rename_i hkey
    obtain ⟨hfits, hcounted, hphase⟩ := hm hkey.symm
    exact ⟨by rintro _ ⟨⟩; exact hfits, by simp, by rintro hc _ ⟨⟩; exact hcounted hc,
      by rintro hc _ ⟨⟩; exact hphase hc⟩
  · exact h

theorem NodesAt.put {t : Tbl .node} {node : Node} (h : d.NodesAt K t)
    (hnode : d.Ours node → ∃ i, d.NodeAt K i node) : d.NodesAt K (t.put node) where
  ours x hx hours := by
    rcases Table.mem_put.mp hx with rfl | ⟨hx, -⟩
    · exact hnode hours
    · exact h.ours x hx hours
  scaled hs i hi := by
    rw [Table.find?_put]
    split
    · simp
    · exact h.scaled hs i hi

/-- A Node that is surplus may go. -/
theorem NodesAt.erase {t : Tbl .node} {i : ℕ} (h : d.NodesAt K t) (hi : d.replicas ≤ i) :
    d.NodesAt K (t.erase (d.nodeKey i)) where
  ours x hx hours := h.ours x (Table.mem_erase.mp hx).1 hours
  scaled hs j hj := by
    rw [Table.find?_erase, if_neg fun e => absurd (nodeKey_inj e) (by omega)]
    exact h.scaled hs j hj

theorem At.write_service (h : d.At K c) {t : Tbl .service}
    (ht : d.ServiceAt K.stored K.reported (t.find? d.service.key)) : d.At K (c.setTbl .service t) where
  platform := h.platform
  service := by rwa [c.find?_setTbl]
  module := by rw [c.find?_setTbl_ne _ _ (by decide)]; exact h.module
  job := by rw [c.find?_setTbl_ne _ _ (by decide)]; exact h.job
  nodes := by rw [c.setTbl_ne _ (by decide)]; exact h.nodes

theorem At.write_module (h : d.At K c) {t : Tbl .module}
    (ht : d.ModuleAt K.rendered K.counted K.completed (t.find? d.moduleKey)) :
    d.At K (c.setTbl .module t) where
  platform := h.platform
  service := by rw [c.find?_setTbl_ne _ _ (by decide)]; exact h.service
  module := by rwa [c.find?_setTbl]
  job := by rw [c.find?_setTbl_ne _ _ (by decide)]; exact h.job
  nodes := by rw [c.setTbl_ne _ (by decide)]; exact h.nodes

/-- The kinds of the objects that `At` speaks about. -/
def OwnKind : Kind → Prop
  | .service | .module | .job | .node => True
  | .pod | .addon _ | .application => False

/-- The other kinds do not matter. -/
theorem At.of_tbl_eq (h : d.At K c) (henv : c'.env = c.env)
    (htbl : ∀ k, OwnKind k → c'.tbl k = c.tbl k) : d.At K c' where
  platform := by rw [henv]; exact h.platform
  service := by rw [Cluster.find?, htbl .service trivial]; exact h.service
  module := by rw [Cluster.find?, htbl .module trivial]; exact h.module
  job := by rw [Cluster.find?, htbl .job trivial]; exact h.job
  nodes := by rw [htbl .node trivial]; exact h.nodes

end

end Rollout

end Automium
