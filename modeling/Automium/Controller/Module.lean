import Automium.Utils.Node

/-!
# `pkg/controller/module/module_controller.go`

The Module controller runs the provisioner Job of a Module, keeps one Node object for each wanted
replica, and reports the state of the Job as the phase of the Module. Log lines and events are
left out. `Reconcile` is one Go function; here its two long tails, the recreation of the Job and
the report of its status, are functions of their own.
-/

namespace Automium

open Data Effect

/-- `reconcile.Result`, with `RequeueAfter` in seconds. -/
structure Result where
  requeue : Bool := false
  requeueAfter : Nat := 0
  deriving DecidableEq

/-- `controllerutil.SetControllerReference` on an object that has no owner yet. -/
def controllerReference (kind : String) (owner : ObjectMeta) : List OwnerReference :=
  [{ kind := kind, name := owner.name, uid := owner.uid, controller := true }]

def serviceNameAnnotation : String := "service.automium.io/name"
def appNameAnnotation : String := "module.automium.io/appName"
def appVersionAnnotation : String := "module.automium.io/appVersion"

def kubernetesCluster : String := "kubernetes-cluster"
def kubernetesNodepool : String := "kubernetes-nodepool"

namespace ReconcileModule

/-! ## Nodes -/

/-- The service that an object is annotated with. -/
def serviceNameOf (metadata : ObjectMeta) : String :=
  metadata.annotations.index serviceNameAnnotation

def appNameOf (metadata : ObjectMeta) : String := metadata.annotations.index appNameAnnotation

/-- The Nodes of a service in a list. -/
def nodesOfService (svcName : String) (nodes : List Node) : List Node :=
  nodes.filter fun node => serviceNameOf node.metadata = svcName

def retrieveNodesForService (svcName ns : String) : Ctl (Except Error (List Node)) :=
  if svcName = "" ∨ ns = "" then
    return .error (.new "cannot retrieve nodes: invalid service and/or namspace")
  else do
    match ← list .node ns with
    | .error e => return .error e
    | .ok nsNodes => return .ok (nodesOfService svcName nsNodes)

/-- The value of the last `CLUSTER_NAME` variable, or `start` if there is none. -/
def clusterNameOf (start : String) (env : List EnvVar) : String :=
  env.foldl (fun clusterName val => if val.name = "CLUSTER_NAME" then val.value else clusterName)
    start

/-- The hostname of replica `i`. -/
def specHostname (appName serviceName : String) (env : List EnvVar) (i : Nat) :
    Except Error String :=
  if appName = kubernetesCluster then
    .ok (clusterNameOf serviceName env ++ "-" ++ serviceName ++ "-" ++ toString i)
  else if appName = kubernetesNodepool then
    if clusterNameOf "" env = "" then
      .error (.new ("requested a Kubernetes nodepool but no cluster_name env variable provided, " ++
        "cannot continue"))
    else .ok (clusterNameOf "" env ++ "-" ++ serviceName ++ "-" ++ toString i)
  else .ok (appName ++ "-" ++ toString i)

/-- The name of the Node of replica `i`. -/
def nodeName (serviceName : String) (i : Nat) : String := serviceName ++ "-node-" ++ toString i

/-- The Node created for replica `i`. -/
def newNode (serviceName ns hostname : String) (i : Nat) : Node where
  metadata := { name := nodeName serviceName i, ns := ns,
                annotations := Finmap.insert serviceNameAnnotation serviceName ∅ }
  spec := { hostname := hostname, deletionDate := "" }
  status := {}

@[simp] theorem serviceNameOf_newNode (serviceName ns hostname : String) (i : Nat) :
    serviceNameOf (newNode serviceName ns hostname i).metadata = serviceName :=
  StringMap.index_insert ..

/-- The loop that adds the Nodes of the replicas in the list. -/
def createNodes (module : Module) (appName serviceName : String) :
    List Nat → Ctl (Except Error Unit)
  | [] => return .ok ()
  | i :: rest =>
    match specHostname appName serviceName module.spec.env i with
    | .error e => return .error e
    | .ok hostname => do
      match ← create .node (newNode serviceName module.metadata.ns hostname i) with
      | .ok _ => createNodes module appName serviceName rest
      | .error e =>
        if e.isAlreadyExists then createNodes module appName serviceName rest
        else return .error e

/-- The Node with this deletion date. -/
def marked (item : Node) (date : Timestamp) : Node :=
  { item with spec := { item.spec with deletionDate := date.val } }

/-- The loop that marks the surplus Nodes. The result of `Update` is not looked at. -/
def markForDeletion : List Node → Ctl Unit
  | [] => return ()
  | item :: rest =>
    if item.spec.deletionDate = "" then do
      let date ← now
      let _ ← update .node (marked item date)
      markForDeletion rest
    else markForDeletion rest

/-- The scale-down branch of `manageNodesForModule`. -/
def deleteExtraNodes (sort : SliceSort) (module : Module) (appNodes : List Node) :
    Ctl (Except Error Unit) := do
  match ← SortNodesByNumber sort appNodes with
  | .error e => return .error e
  | .ok appNodes =>
    if module.spec.replicas < 0 then .crash "runtime error: slice bounds out of range"
    else do
      markForDeletion (appNodes.drop module.spec.replicas.toNat)
      return .ok ()

def manageNodesForModule (sort : SliceSort) (module : Module) : Ctl (Except Error Unit) :=
  let appName := appNameOf module.metadata
  let serviceName := serviceNameOf module.metadata
  if appName = "" ∨ serviceName = "" then
    return .error
      (.new "missing application and or service annotations in module, cannot continue")
  else do
    match ← retrieveNodesForService serviceName module.metadata.ns with
    | .error e => return .error e
    | .ok appNodes =>
      if (appNodes.length : Int) < module.spec.replicas then
        createNodes module appName serviceName (List.range module.spec.replicas.toNat)
      else if (appNodes.length : Int) > module.spec.replicas then
        deleteExtraNodes sort module appNodes
      else return .ok ()

/-! ## The action -/

/-- The action for a Module whose service has the Nodes `moduleNodes`. -/
def actionFor (module : Module) (moduleNodes : List Node) : String :=
  if GetNodesCount moduleNodes = 0 ∨ module.spec.replicas < GetNodesCount moduleNodes then "Deploy"
  else
    let (nodesConsistent, healthyNode) := NodesAreConsistent moduleNodes
    if !nodesConsistent then "Upgrade"
    else if healthyNode.status.nodeProperties.node ≠ "" then
      if !EqNodeFlavor healthyNode module.spec.flavor || !EqNodeImage healthyNode module.spec.image
      then "Upgrade" else "Deploy"
    else "Deploy"

def chooseModuleAction (module : Module) : Ctl (Except Error String) :=
  if module.spec.replicas = 0 then return .ok "Destroy"
  else do
    match ← retrieveNodesForService (serviceNameOf module.metadata) module.metadata.ns with
    | .error e => return .error e
    | .ok moduleNodes => return .ok (actionFor module moduleNodes)

/-! ## The status of the Module -/

/-- The counters of the loop in `getUpdatedNodes`: current and updated replicas. -/
def countNode (serviceName action newImageVersion newFlavor : String) (count : Int × Int)
    (node : Node) : Int × Int :=
  if serviceNameOf node.metadata = serviceName && NodeIsHealthy node then
    if node.status.nodeProperties.image = newImageVersion &&
        node.status.nodeProperties.flavor = newFlavor then
      (if action = "Deploy" then count.1 + 1 else count.1, count.2 + 1)
    else (count.1 + 1, count.2)
  else count

def getUpdatedNodes (ns serviceName action newImageVersion newFlavor : String) :
    Ctl (Except Error (Int × Int)) :=
  if ns = "" ∧ serviceName = "" ∧ newImageVersion = "" then
    return .error (.new "invalid parameters for retrieving application data from nodes")
  else do
    match ← list .node ns with
    | .error e => return .error e
    | .ok nodes =>
      return .ok (nodes.foldl (countNode serviceName action newImageVersion newFlavor) (0, 0))

def updateModuleStatus (module : Module) (action phase : String) : Ctl (Except Error Unit) := do
  match ← getUpdatedNodes module.metadata.ns (serviceNameOf module.metadata) action
      module.spec.image module.spec.flavor with
  | .error e => return .error e
  | .ok (cur, upd) =>
    let updModuleStatus : ModuleStatus :=
      { phase := phase, replicas := module.spec.replicas, currentReplicas := cur,
        updatedReplicas := upd }
    if module.status = updModuleStatus then return .ok ()
    else
      match ← updateStatus .module { module with status := updModuleStatus } with
      | .error e => return .error e
      | .ok _ => return .ok ()

def retrieveJobStatus (job : Job) : Except Error String :=
  if job.status.startTime = none then .ok StatusPhasePending
  else if job.status.active > 0 then .ok StatusPhaseRunning
  else
    match job.status.conditions with
    | [] => .error (.new ("cannot detect job " ++ job.metadata.name ++ " status"))
    | condition :: _ =>
      if condition = "Complete" then .ok StatusPhaseCompleted
      else if condition = "Failed" then .ok StatusPhaseFailed
      else .error (.newBadRequest ("unknown condition: " ++ condition))

/-! ## The Job -/

/-- The Job's variables: those of the Module, and three of the controller. -/
def batchEnvVars (module : Module) : List EnvVar :=
  module.spec.env ++
    [{ name := "FLAVOR", value := module.spec.flavor },
     { name := "QUANTITY", value := toString module.spec.replicas },
     { name := "IMAGE", value := module.spec.image }]

/-- The command for an action, if the action is known. -/
def jobCommand (action : String) : Option (List String) :=
  if action = "Deploy" then some ["./deploy"]
  else if action = "Upgrade" then some ["./upgrade"]
  else if action = "DeployAndUpgrade" then some ["/bin/sh", "-c", "./deploy && ./upgrade"]
  else if action = "Destroy" then some ["./remove"]
  else none

def jobName (moduleName : String) : String := moduleName ++ "-job"

/-- The names of the pods of the Job start with this. -/
def podStem (moduleName : String) : String := moduleName ++ "-job-"

/-- The provisioner container. -/
def provisioner (module : Module) (command : List String) : Container where
  name := "provisioner"
  image := "automium/service-" ++ module.spec.source ++ ":" ++ module.spec.image
  imagePullPolicy := "Always"
  command := command
  envFrom := ["provisioner-config"]
  env := batchEnvVars module

/-- The desired Job. -/
def desiredJob (module : Module) (command : List String) : Job where
  metadata := { name := jobName module.metadata.name, ns := module.metadata.ns,
                ownerReferences := controllerReference "Module" module.metadata }
  spec := { templateLabels := Finmap.insert "job" (jobName module.metadata.name) ∅,
            containers := [provisioner module command], restartPolicy := "Never",
            dnsOptions := [("ndots", "1")], backoffLimit := 1 }
  status := {}

/-- The Job has to be recreated: another command or other variables. The image is not compared. -/
def jobDiffers (deploy found : Container) : Bool :=
  deploy.env ≠ found.env || deploy.command ≠ found.command

/-- The loop that deletes the pods of the old Job. A failed delete is logged only. -/
def deletePods (stem : String) : List Pod → Ctl Unit
  | [] => return ()
  | pod :: rest =>
    if Go.hasPrefix pod.metadata.name stem then do
      let _ ← delete .pod pod.key
      deletePods stem rest
    else deletePods stem rest

/-- The cleanup of the pods of the old Job, which is skipped if they cannot be listed. -/
def cleanupPods (module : Module) : Ctl Unit := do
  match ← list .pod module.metadata.ns with
  | .error _ => return ()
  | .ok jobPodList => deletePods (podStem module.metadata.name) jobPodList

/-- The part of `Reconcile` for a Job that has to be recreated. -/
def recreateJob (inst : Module) (action : String) (found : Job) :
    Ctl (Except Error Result) :=
  if found.status.active ≥ 1 then return .ok { requeueAfter := 30 }
  else do
    cleanupPods inst
    match ← delete .job found.key with
    | .error e => return .error e
    | .ok _ =>
      match ← updateModuleStatus inst action StatusPhasePending with
      | .error e => return .error e
      | .ok _ => return .ok { requeue := true }

/-- The phase to report: a completed Job is reported as pending while the counters of the Module's
present status differ. -/
def phaseToReport (status : ModuleStatus) (phase : String) : String :=
  if status.updatedReplicas ≠ status.replicas ∧ phase = StatusPhaseCompleted then
    StatusPhasePending
  else phase

/-- The part of `Reconcile` for a Job that is as desired. -/
def reportJob (sort : SliceSort) (inst : Module) (action : String) (found : Job) :
    Ctl (Except Error Result) := do
  match ← manageNodesForModule sort inst with
  | .error _ => return .ok { requeueAfter := 5 }
  | .ok _ =>
    match retrieveJobStatus found with
    | .error e => return .error e
    | .ok status =>
      let status := phaseToReport inst.status status
      match ← updateModuleStatus inst action status with
      | .error e => return .error e
      | .ok _ =>
        if status = StatusPhasePending ∨ status = StatusPhaseRunning then
          return .ok { requeueAfter := 15 }
        else return .ok {}

/-- The part of `Reconcile` after the desired Job is known. -/
def syncJob (sort : SliceSort) (inst : Module) (action : String) (deploy : Job) :
    Ctl (Except Error Result) := do
  match ← get .job deploy.key with
  | .error e =>
    if e.isNotFound then
      match ← create .job deploy with
      | .error e => return .error e
      -- The Job just created is not read back: no container is found below.
      | .ok _ => return .ok { requeueAfter := 5 }
    else return .ok { requeueAfter := 5 }
  | .ok found =>
    match deploy.spec.containers, found.spec.containers with
    | desired :: _, c :: _ =>
      if jobDiffers desired c then recreateJob inst action found
      else reportJob sort inst action found
    | _, _ => return .ok { requeueAfter := 5 }

def Reconcile (sort : SliceSort) (request : Key) : Ctl (Except Error Result) := do
  match ← get .module request with
  | .error e => if e.isNotFound then return .ok {} else return .error e
  | .ok inst =>
    match ← chooseModuleAction inst with
    | .error _ => return .ok { requeueAfter := 30 }
    | .ok action =>
      match jobCommand action with
      | none =>
        return .error (.new ("unknown action for module " ++ inst.metadata.name ++ ": " ++
          action))
      | some command => syncJob sort inst action (desiredJob inst command)

end ReconcileModule

end Automium
