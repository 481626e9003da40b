import Mathlib.Data.Finmap

/-!
# The objects of the API

The custom resources of `pkg/apis` and the parts of Kubernetes' own types that the controllers
read or write. Every object has metadata, a spec and a status (`Object`), and is stored under its
namespace and name (`Key`). A nil map is `none`, which `reflect.DeepEqual` tells from an empty
one; a nil list and an empty list are the same here, because no controller tells them apart.
Resource versions and uids are numbers, and `0` is the empty string (not set).
-/

namespace Automium

/-- A `map[string]string`. -/
abbrev StringMap := Finmap fun _ : String => String

/-- `m[k]`, which is `""` for a missing key. -/
def StringMap.index (m : StringMap) (k : String) : String := (m.lookup k).getD ""

@[simp] theorem StringMap.index_insert (m : StringMap) (k v : String) :
    StringMap.index (Finmap.insert k v m) k = v := by
  simp [StringMap.index]

theorem StringMap.index_insert_ne (m : StringMap) {k k' : String} (h : k' ≠ k) (v : String) :
    StringMap.index (Finmap.insert k v m) k' = StringMap.index m k' := by
  simp [StringMap.index, h]

/-- `types.NamespacedName`. -/
structure Key where
  ns : String
  name : String
  deriving DecidableEq

/-- `metav1.OwnerReference`. -/
structure OwnerReference where
  kind : String
  name : String
  uid : Nat
  controller : Bool
  deriving DecidableEq

/-- `metav1.ObjectMeta`. -/
structure ObjectMeta where
  name : String
  ns : String
  labels : StringMap := ∅
  annotations : StringMap := ∅
  ownerReferences : List OwnerReference := []
  uid : Nat := 0
  resourceVersion : Nat := 0
  deriving DecidableEq

/-- A stored object. -/
structure Object (Spec Status : Type) where
  metadata : ObjectMeta
  spec : Spec
  status : Status
  deriving DecidableEq

/-- The key under which an object is stored. -/
def Object.key {Spec Status : Type} (o : Object Spec Status) : Key :=
  ⟨o.metadata.ns, o.metadata.name⟩

/-! ## Environment variables -/

/-- `corev1.ObjectFieldSelector`. -/
structure ObjectFieldSelector where
  apiVersion : String
  fieldPath : String
  deriving DecidableEq

/-- `corev1.ResourceFieldSelector`. -/
structure ResourceFieldSelector where
  containerName : String
  resource : String
  divisor : String
  deriving DecidableEq

/-- `corev1.ConfigMapKeySelector` and `corev1.SecretKeySelector`. -/
structure KeySelector where
  name : String
  key : String
  optional : Option Bool
  deriving DecidableEq

/-- `corev1.EnvVarSource`. -/
structure EnvVarSource where
  fieldRef : Option ObjectFieldSelector := none
  resourceFieldRef : Option ResourceFieldSelector := none
  configMapKeyRef : Option KeySelector := none
  secretKeyRef : Option KeySelector := none
  deriving DecidableEq

/-- `corev1.EnvVar`. -/
structure EnvVar where
  name : String
  value : String := ""
  valueFrom : Option EnvVarSource := none
  deriving DecidableEq

/-! ## `core.automium.io` -/

def StatusPhasePending : String := "Pending"
def StatusPhaseRunning : String := "Running"
def StatusPhaseCompleted : String := "Completed"
def StatusPhaseFailed : String := "Failed"

structure ExtraSpec where
  name : String
  version : String
  parameters : Option StringMap := none
  deriving DecidableEq

structure ServiceSpec where
  replicas : Int
  flavor : String
  version : String
  env : List EnvVar := []
  extra : List ExtraSpec := []
  deriving DecidableEq

structure ServiceStatus where
  phase : String := ""
  moduleRef : String := ""
  deriving DecidableEq, Inhabited

abbrev Service := Object ServiceSpec ServiceStatus

structure ModuleSpec where
  source : String
  image : String
  replicas : Int
  flavor : String
  env : List EnvVar := []
  deriving DecidableEq

structure ModuleStatus where
  phase : String := ""
  replicas : Int := 0
  currentReplicas : Int := 0
  updatedReplicas : Int := 0
  deriving DecidableEq, Inhabited

abbrev Module := Object ModuleSpec ModuleStatus

/-- The output may be held as `Go.Text`, since the controller cuts it. -/
structure NodeHealthCheckOf (Output : Type) where
  checkID : String
  name : String
  status : String
  output : Output
  serviceID : String
  serviceName : String
  deriving DecidableEq

abbrev NodeHealthCheck := NodeHealthCheckOf String

structure NodeProperties where
  id : String := ""
  node : String := ""
  address : String := ""
  publicAddress : String := ""
  flavor : String := ""
  image : String := ""
  deriving DecidableEq, Inhabited

structure NodeSpec where
  hostname : String
  deletionDate : String := ""
  deriving DecidableEq

structure NodeStatusOf (Output : Type) where
  nodeProperties : NodeProperties := {}
  nodeHealthChecks : List (NodeHealthCheckOf Output) := []
  deriving DecidableEq, Inhabited

abbrev NodeStatus := NodeStatusOf String

abbrev Node := Object NodeSpec NodeStatus

/-! ## `extras.automium.io`

The three extras have the same fields, and none has a status. An Application is what is deployed in
a cluster for an extra. -/

/-- `MonitoringSpec`, `BackupSpec` and `LoggingSpec`. -/
structure AddonSpec where
  cluster : String
  version : String
  parameters : Option StringMap := none
  deriving DecidableEq

/-- `Monitoring`, `Backup` and `Logging`. -/
abbrev AddonObj := Object AddonSpec Unit

structure ApplicationSpec where
  name : String
  version : String
  cluster : String
  project : String
  ns : String
  parameters : Option StringMap := none
  deriving DecidableEq

structure ApplicationStatus where
  phase : String := ""
  error : String := ""
  deriving DecidableEq, Inhabited

abbrev Application := Object ApplicationSpec ApplicationStatus

/-! ## Jobs and pods -/

/-- The container of a provisioner Job. -/
structure Container where
  name : String
  image : String
  imagePullPolicy : String
  command : List String
  /-- The config maps of `EnvFrom`. -/
  envFrom : List String
  env : List EnvVar
  deriving DecidableEq

structure JobSpec where
  /-- The labels of the pod template. -/
  templateLabels : StringMap
  containers : List Container
  restartPolicy : String
  /-- `DNSConfig.Options`, by name and value. -/
  dnsOptions : List (String × String)
  backoffLimit : Int
  deriving DecidableEq

structure JobStatus where
  active : Int := 0
  startTime : Option String := none
  /-- The types of the conditions. -/
  conditions : List String := []
  deriving DecidableEq, Inhabited

abbrev Job := Object JobSpec JobStatus

structure PodStatus where
  phase : String := ""
  deriving DecidableEq, Inhabited

abbrev Pod := Object Unit PodStatus

end Automium
