import Automium.Controller.Module
import Automium.Effect.Sum

/-!
# `pkg/controller/node/node_controller.go`

The Node controller asks Consul for the machine of a Node, and records its properties and its
health checks in the status of the Node. A Node that is marked for deletion and whose machine was
not found by the last reconcile is deleted, before Consul is asked again. Log lines are left out.

Consul is reached through its client library, whose functions are the calls of `Consul`. The
queries are bodies of HTTP replies that the library has decoded, so a record in them may be nil.
-/

namespace Automium

open Effect

/-! ## Consul -/

/-- `consulapi.Node`. -/
structure ConsulNode where
  id : String
  node : String
  address : String
  /-- `Meta`. -/
  nodeMeta : StringMap := ∅
  deriving DecidableEq

/-- `consulapi.CatalogNode`. -/
structure CatalogNode where
  node : Option ConsulNode
  deriving DecidableEq

/-- `consulapi.HealthCheck`. -/
structure HealthCheck where
  checkID : String
  name : String
  status : String
  output : String
  serviceID : String
  serviceName : String
  deriving DecidableEq

/-- The calls of the Consul client. -/
inductive ConsulRequest where
  /-- `consulapi.NewClient`. -/
  | newClient (address datacenter : String)
  /-- `Catalog().Node`, which is nil if there is no such node. -/
  | catalogNode (node : String)
  /-- `Health().Node`, a list without nil entries. -/
  | healthNode (node : String)

abbrev ConsulRequest.Reply : ConsulRequest → Type
  | .newClient _ _ => Except Error Unit
  | .catalogNode _ => Except Error (Option CatalogNode)
  | .healthNode _ => Except Error (List HealthCheck)

abbrev Consul : Sig := ⟨ConsulRequest, ConsulRequest.Reply⟩

/-- The interface of the Node controller. -/
abbrev NodeApi : Sig := Api.sum Consul

abbrev NodeCtl (α : Type) := Prog NodeApi α

section Calls

variable {α : Type}

def newClient (address datacenter : String) : NodeCtl (Except Error Unit) :=
  .call (.inr (.newClient address datacenter)) .ret

def catalogNode (node : String) : NodeCtl (Except Error (Option CatalogNode)) :=
  .call (.inr (.catalogNode node)) .ret

def healthNode (node : String) : NodeCtl (Except Error (List HealthCheck)) :=
  .call (.inr (.healthNode node)) .ret

@[simp] theorem newClient_bind (address datacenter : String) (f : Except Error Unit → NodeCtl α) :
    newClient address datacenter >>= f = .call (.inr (.newClient address datacenter)) f := rfl

@[simp] theorem catalogNode_bind (node : String)
    (f : Except Error (Option CatalogNode) → NodeCtl α) :
    catalogNode node >>= f = .call (.inr (.catalogNode node)) f := rfl

@[simp] theorem healthNode_bind (node : String) (f : Except Error (List HealthCheck) → NodeCtl α) :
    healthNode node >>= f = .call (.inr (.healthNode node)) f := rfl

end Calls

namespace ReconcileNode

/-! ## The status of a Node -/

/-- A Node in memory. -/
abbrev LocalNode := Object NodeSpec LocalStatus

/-- A Node as the API server reads it. -/
def sentNode (node : LocalNode) : Node := { node with status := sent node.status }

/-- The status of a Node without a machine: an ID and a text in place of its name. -/
def placeholder {Output : Type} (id node : String) : NodeStatusOf Output :=
  { nodeProperties := { id := id, node := node } }

/-- The output of a health check, cut off if it is long. -/
def hcOutput (output : String) : Go.Text :=
  if output.utf8ByteSize ≥ 64 then Go.takeBytes 60 output.toList ++ .ofString "..."
  else .ofString output

def healthCheckOf (hc : HealthCheck) : NodeHealthCheckOf Go.Text where
  checkID := hc.checkID
  name := hc.name
  status := hc.status
  output := hcOutput hc.output
  serviceID := hc.serviceID
  serviceName := hc.serviceName

/-- The status of a Node with a machine. The old health checks stay if Consul has none. -/
def machineStatus (old : NodeStatus) (machine : ConsulNode) (nodeFIP : String)
    (nodeHC : List HealthCheck) : LocalStatus where
  nodeProperties :=
    { id := machine.id, node := machine.node, address := machine.address, publicAddress := nodeFIP,
      flavor := machine.nodeMeta.index "flavor", image := machine.nodeMeta.index "image" }
  nodeHealthChecks :=
    if nodeHC.length > 0 then nodeHC.map healthCheckOf else (loaded old).nodeHealthChecks

def UpdateNodeStatusIfNeeded (newNode : LocalNode) (nameSpacedName : Key) :
    Ctl (Except Error Unit) := do
  match ← get .node nameSpacedName with
  | .error e => return .error e
  | .ok actualNode =>
    if CompareStatuses (loaded actualNode.status) newNode.status then return .ok ()
    else
      match ← updateStatus .node (sentNode newNode) with
      | .error e => return .error e
      | .ok _ => return .ok ()

/-! ## `Reconcile` -/

/-- Ask for the next reconcile in 30 seconds. -/
def refreshReconcilier : Result := { requeue := true, requeueAfter := 30 }

/-- The part of `Reconcile` for a Node without a machine. -/
def saveStatus (inst : Node) (status : LocalStatus) (request : Key) :
    Ctl (Except Error Result) := do
  match ← UpdateNodeStatusIfNeeded { inst with status := status } request with
  | .error e => return .error e
  | .ok _ => return .ok refreshReconcilier

/-- `node` as it is created: without a version. -/
def unversioned (node : Node) : Node :=
  { node with metadata := { node.metadata with resourceVersion := 0 } }

/-- The end of `Reconcile`: whatever the reason why the status was not updated, the Node is
created. -/
def updateOrCreate (inst : LocalNode) (request : Key) : Ctl (Except Error Result) := do
  let _ ← get .node request
  match ← UpdateNodeStatusIfNeeded inst request with
  | .ok _ => return .ok refreshReconcilier
  | .error _ =>
    match ← create .node (unversioned (sentNode inst)) with
    | .error e => return .error e
    | .ok _ => return .ok refreshReconcilier

section Uses

variable {ok : Request → Prop} {inst : LocalNode} {request : Key}

theorem UpdateNodeStatusIfNeeded_uses (hget : ok (.get .node request))
    (hwrite : ok (.updateStatus .node (sentNode inst))) :
    Uses (S := Api) ok (UpdateNodeStatusIfNeeded inst request) := by
  unfold UpdateNodeStatusIfNeeded
  rw [get_bind]
  refine ⟨hget, fun r _ => ?_⟩
  cases r with
  | error e => trivial
  | ok actualNode =>
    dsimp only
    -- The comparison is not evaluated.
    generalize CompareStatuses (loaded actualNode.status) inst.status = same
    cases same with
    | true => trivial
    | false =>
      rw [if_neg Bool.false_ne_true, updateStatus_bind]
      refine ⟨hwrite, fun r _ => ?_⟩
      cases r <;> trivial

theorem saveStatus_uses {inst : Node} {status : LocalStatus} (hget : ok (.get .node request))
    (hwrite : ok (.updateStatus .node (sentNode { inst with status := status }))) :
    Uses (S := Api) ok (saveStatus inst status request) := by
  unfold saveStatus
  refine Uses.bind (UpdateNodeStatusIfNeeded_uses hget hwrite) fun r => ?_
  cases r <;> trivial

theorem updateOrCreate_uses (hget : ok (.get .node request))
    (hwrite : ok (.updateStatus .node (sentNode inst)))
    (hcreate : ok (.create .node (unversioned (sentNode inst)))) :
    Uses (S := Api) ok (updateOrCreate inst request) := by
  unfold updateOrCreate
  rw [get_bind]
  refine ⟨hget, fun _ _ => ?_⟩
  refine Uses.bind (UpdateNodeStatusIfNeeded_uses hget hwrite) fun r => ?_
  cases r with
  | ok => trivial
  | error e =>
    dsimp only
    rw [create_bind]
    refine ⟨hcreate, fun r _ => ?_⟩
    cases r <;> trivial

end Uses

/-- The text of a panic that reads a field of a nil pointer. -/
def nilDereference : String := "runtime error: invalid memory address or nil pointer dereference"

/-- The public address of a machine, from the record that Consul has under its external name. -/
def nodeFIPOf : Except Error (Option CatalogNode) → Except String String
  | .error _ | .ok none => .ok ""
  | .ok (some fipNodeInfo) =>
    match fipNodeInfo.node with
    | none => .error nilDereference
    | some fip => .ok fip.address

/-- The part of `Reconcile` for a Node with a machine. -/
def recordMachine (inst : Node) (nodeInfo : CatalogNode) (request : Key) :
    NodeCtl (Except Error Result) := do
  match ← healthNode inst.spec.hostname with
  | .error e => return .error e
  | .ok nodeHC =>
    match nodeFIPOf (← catalogNode ("external" ++ inst.spec.hostname)), nodeInfo.node with
    | .error msg, _ => .crash msg
    | .ok _, none => .crash nilDereference
    | .ok nodeFIP, some machine =>
      let status := machineStatus inst.status machine nodeFIP nodeHC
      (updateOrCreate { inst with status := status } request).inl

def consulAddressOf (value : String) : String :=
  if value = "" then "consul.service.automium.consul:8500" else value

/-- The part of `Reconcile` that asks Consul. -/
def askConsul (inst : Node) (request : Key) : NodeCtl (Except Error Result) := do
  let value ← (getenv "CONSUL_ADDRESS").inl
  match ← newClient (consulAddressOf value) "automium" with
  | .error e => (saveStatus inst (placeholder consulConnectionError e.text) request).inl
  | .ok _ =>
    match ← catalogNode inst.spec.hostname with
    | .error e => return .error e
    | .ok none =>
      (saveStatus inst (placeholder nonExistentMachine nonExistentMachine) request).inl
    | .ok (some nodeInfo) => recordMachine inst nodeInfo request

/-- The Node is deleted without another look at Consul. -/
def deletable (inst : Node) : Bool :=
  inst.spec.deletionDate ≠ "" && inst.status.nodeProperties.id = nonExistentMachine

def Reconcile (request : Key) : NodeCtl (Except Error Result) := do
  match ← (get .node request).inl with
  | .error e => if e.isNotFound then return .ok {} else return .error e
  | .ok inst =>
    if deletable inst then
      match ← (delete .node inst.key).inl with
      | .error e => return .error e
      | .ok _ => return .ok refreshReconcilier
    else askConsul inst request

end ReconcileNode

end Automium
