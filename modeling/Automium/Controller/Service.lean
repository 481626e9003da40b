import Automium.Controller.Extra
import Automium.Utils.Module
import Automium.Utils.Service

/-!
# `pkg/controller/service/service_controller.go`

The Service controller renders a Module from a Service (`renderModule`), creates or updates it,
copies its phase back to the Service, and manages the extras of a completed cluster. `Reconcile`
is one Go function; here `syncModule` is the part up to the call of `ManageExtras`, which says if
that call is reached and with which copy of the Service.
-/

namespace Automium

open Effect

namespace ReconcileService

/-! ## The desired Module -/

/-- The provider for a value of `PLATFORM`. -/
def cloudPlatform (platform : String) : String :=
  if platform = "vcd" then "vcd"
  else if platform = "vsphere" then "vsphere"
  else if platform = "aws" then "aws"
  else "openstack"

/-- The variables of the Service under their upper-case names. The references of `ValueFrom` are
not copied. -/
def upperEnv (upper : Go.Upper) (env : List EnvVar) : List EnvVar :=
  env.map fun item => { name := upper.toUpper item.name, value := item.value }

/-- The provider and the name of the Service. -/
def commonEnvVars (platform name : String) : List EnvVar :=
  [{ name := "PROVIDER", value := cloudPlatform platform }, { name := "NAME", value := name }]

/-- A custom `CLUSTER_NAME` is among the variables. -/
def customClusterNameFound (env : List EnvVar) : Bool :=
  env.any fun itm => itm.name = "CLUSTER_NAME" && itm.value ≠ ""

/-- The roles of the machines of a Kubernetes service. -/
def roleEnvVars (master node etcd : String) : List EnvVar :=
  [{ name := "MASTER", value := master }, { name := "NODE", value := node },
   { name := "ETCD", value := etcd }]

/-- The variables for an app, given the name of the Service and the variables so far. -/
def specificEnvVars (app name : String) (tfEnvVars : List EnvVar) : List EnvVar :=
  if app = kubernetesCluster then
    if customClusterNameFound tfEnvVars then roleEnvVars "true" "false" "true"
    else roleEnvVars "true" "false" "true" ++ [{ name := "CLUSTER_NAME", value := name }]
  else if app = kubernetesNodepool then roleEnvVars "false" "true" "false"
  else []

/-- The provisioner of an app. -/
def appProvisioner (app : String) : String :=
  if app = kubernetesCluster ∨ app = kubernetesNodepool then "kubernetes" else app

/-- The app label of a Service. -/
def appOf (service : Service) : String := service.metadata.labels.index "app"

/-- The variables that the controller adds to those of the user. -/
def ownEnvVars (upper : Go.Upper) (platform : String) (service : Service) : List EnvVar :=
  commonEnvVars platform service.metadata.name ++
    specificEnvVars (appOf service) service.metadata.name
      (upperEnv upper service.spec.env ++ commonEnvVars platform service.metadata.name)

/-- The spec of the desired Module. -/
def renderSpec (upper : Go.Upper) (platform : String) (service : Service) : ModuleSpec where
  source := appProvisioner (appOf service)
  image := appProvisioner (appOf service) ++ "-" ++ service.spec.version
  replicas := service.spec.replicas
  flavor := service.spec.flavor
  env := upperEnv upper service.spec.env ++ ownEnvVars upper platform service

def moduleName (serviceName : String) : String := serviceName ++ "-module"

/-- The annotations of a new Module. -/
def moduleAnnotations (service : Service) : StringMap :=
  Finmap.insert serviceNameAnnotation service.metadata.name
    (Finmap.insert appNameAnnotation (appOf service)
      (Finmap.insert appVersionAnnotation service.spec.version ∅))

/-- The desired Module. -/
def renderModule (upper : Go.Upper) (platform : String) (service : Service) : Module where
  metadata := { name := moduleName service.metadata.name, ns := service.metadata.ns,
                annotations := moduleAnnotations service,
                ownerReferences := controllerReference "Service" service.metadata }
  spec := renderSpec upper platform service
  status := {}

section

variable (upper : Go.Upper) (platform : String) (service : Service)

@[simp] theorem serviceNameOf_renderModule :
    ReconcileModule.serviceNameOf (renderModule upper platform service).metadata =
      service.metadata.name :=
  StringMap.index_insert ..

@[simp] theorem appNameOf_renderModule :
    ReconcileModule.appNameOf (renderModule upper platform service).metadata = appOf service :=
  (StringMap.index_insert_ne _ (by decide) _).trans (StringMap.index_insert ..)

end

/-! ## The reconcile -/

/-- How the part of `Reconcile` before `ManageExtras` ends. -/
inductive Synced where
  | finished (res : Except Error Result)
  /-- `ManageExtras` is called with this copy of the Service. -/
  | extras (service : Service)

/-- The end of `syncModule`, given the Service and the Module as they are now. -/
def syncPhase (inst : Service) (found : Module) : Synced :=
  if found.status.phase = StatusPhasePending ∨ found.status.phase = StatusPhaseRunning then
    .finished (.ok { requeueAfter := 15 })
  else if inst.status.phase = StatusPhaseCompleted ∧ appOf inst = kubernetesCluster then
    .extras inst
  else .finished (.ok { requeueAfter := 30 })

/-- The part of `Reconcile` that copies the phase of the Module. -/
def syncStatus (inst : Service) (found : Module) : Ctl Synced :=
  if inst.status.phase ≠ found.status.phase then do
    let status : ServiceStatus :=
      { inst.status with phase := found.status.phase, moduleRef := found.metadata.name }
    match ← updateStatus .service { inst with status := status } with
    | .error _ => return .finished (.ok { requeueAfter := 5 })
    | .ok inst => do
      -- A failed notification is logged only.
      let _ ← NotifyStatusViaSlack inst.metadata.name inst.status.phase
      return syncPhase inst found
  else return syncPhase inst found

/-- The part of `Reconcile` that updates the Module found. -/
def syncFound (request : Key) (inst : Service) (found deploy : Module) : Ctl Synced :=
  if IsModuleDifferent found deploy then do
    match ← update .module { found with spec := deploy.spec } with
    | .error e => return .finished (.error e)
    | .ok found =>
      match ← get .service request with
      | .error e => return .finished (.error e)
      | .ok inst => syncStatus inst found
  else syncStatus inst found

/-- `Reconcile` up to the call of `ManageExtras` (module doc). -/
def syncModule (upper : Go.Upper) (request : Key) : Ctl Synced := do
  match ← get .service request with
  | .error e => if e.isNotFound then return .finished (.ok {}) else return .finished (.error e)
  | .ok inst =>
    let platform ← getenv "PLATFORM"
    let deploy := renderModule upper platform inst
    match ← get .module deploy.key with
    | .error e =>
      if e.isNotFound then
        match ← create .module deploy with
        | .error e => return .finished (.error e)
        | .ok _ => return .finished (.ok {})
      else return .finished (.error e)
    | .ok found => syncFound request inst found deploy

/-- The end of `Reconcile`: the extras, if they are to be managed. -/
def finish : Synced → Ctl (Except Error Result)
  | .finished res => return res
  | .extras service => do
    match ← ManageExtras service with
    | .error e => return .error e
    | .ok _ => return .ok { requeueAfter := 30 }

def Reconcile (upper : Go.Upper) (request : Key) : Ctl (Except Error Result) := do
  finish (← syncModule upper request)

end ReconcileService

end Automium
