import Automium.Controller.Module

/-!
# `pkg/controller/service/service_controller_extra.go`

The extras of a cluster: one Monitoring, Backup or Logging object for each entry of `Spec.Extra`.
The three `manage…Extra` functions of the source have one body (`manageExtra`); the one for
logging first adds a parameter, which panics if the entry has no parameters.
-/

namespace Automium

open Effect

namespace ReconcileService

def monitoringSuffix : String := "-monitoring"
def backupSuffix : String := "-backup"
def loggingSuffix : String := "-logging"

/-- The desired object of an extra. -/
def extraManifest (service : Service) (suffix version : String) (parameters : Option StringMap) :
    AddonObj where
  metadata := { name := service.metadata.name ++ suffix, ns := service.metadata.ns,
                annotations := Finmap.insert serviceNameAnnotation service.metadata.name ∅ }
  spec := { cluster := service.metadata.name, version := version, parameters := parameters }
  status := ()

/-- `found` with the version and the parameters of the manifest. -/
def refreshed (found manifest : AddonObj) : AddonObj :=
  { found with spec := { found.spec with
      version := manifest.spec.version, parameters := manifest.spec.parameters } }

/-- The update of a found object. Only the version and the parameters are compared and written. -/
def updateExtra (a : Addon) (found manifest : AddonObj) : Ctl (Except Error Unit) :=
  if found.spec.version ≠ manifest.spec.version ∨ found.spec.parameters ≠ manifest.spec.parameters
  then do
    match ← update (.addon a) (refreshed found manifest) with
    | .error e => return .error e
    | .ok _ => return .ok ()
  else return .ok ()

/-- What `found` is after a `Get` that failed: the zero value. -/
def zeroAddon : AddonObj where
  metadata := { name := "", ns := "" }
  spec := { cluster := "", version := "" }
  status := ()

/-- The body that the three `manage…Extra` functions share. -/
def manageExtra (a : Addon) (suffix : String) (service : Service) (version : String)
    (parameters : Option StringMap) : Ctl (Except Error Unit) :=
  let manifest := extraManifest service suffix version parameters
  if service.spec.replicas = 0 then do
    match ← delete (.addon a) manifest.key with
    | .error e => if e.isNotFound then return .ok () else return .error e
    | .ok _ => return .ok ()
  else do
    match ← get (.addon a) manifest.key with
    | .error e =>
      if e.isNotFound then
        match ← create (.addon a) manifest with
        | .error e => return .error e
        | .ok _ => return .ok ()
      else updateExtra a zeroAddon manifest
    | .ok found => updateExtra a found manifest

def manageMonitoringExtra (service : Service) (extraSpec : ExtraSpec) : Ctl (Except Error Unit) :=
  manageExtra .monitoring monitoringSuffix service extraSpec.version extraSpec.parameters

def manageBackupExtra (service : Service) (extraSpec : ExtraSpec) : Ctl (Except Error Unit) :=
  manageExtra .backup backupSuffix service extraSpec.version extraSpec.parameters

def manageLoggingExtra (service : Service) (extraSpec : ExtraSpec) : Ctl (Except Error Unit) :=
  match extraSpec.parameters with
  | none => .crash "assignment to entry in nil map"
  | some parameters =>
    manageExtra .logging loggingSuffix service extraSpec.version
      (some (parameters.insert "clusterName" service.metadata.name))

/-- The `switch` of `ManageExtras` for one entry. -/
def manageEntry (service : Service) (extraSpec : ExtraSpec) : Ctl (Except Error Unit) :=
  if extraSpec.name = "monitoring" then manageMonitoringExtra service extraSpec
  else if extraSpec.name = "backup" then manageBackupExtra service extraSpec
  else if extraSpec.name = "logging" then manageLoggingExtra service extraSpec
  else return .error (.new ("unknown extras specified: " ++ extraSpec.name))

/-- The loop of `ManageExtras`. -/
def manageEntries (service : Service) : List ExtraSpec → Ctl (Except Error Unit)
  | [] => return .ok ()
  | extraSpec :: rest => do
    match ← manageEntry service extraSpec with
    | .error e => return .error e
    | .ok _ => manageEntries service rest

def ManageExtras (service : Service) : Ctl (Except Error Unit) :=
  manageEntries service service.spec.extra

end ReconcileService

end Automium
