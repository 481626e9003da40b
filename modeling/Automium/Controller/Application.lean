import Automium.Controller.Module
import Automium.Controller.Rancher

/-!
# `pkg/controller/application/application_controller.go`

The Application controller deploys the app of an Application in a project of a Rancher cluster.
`Reconcile` looks for the cluster, for the project and for the app, installs or upgrades the app if
need be, and reports the outcome as the phase of the Application. Its long tail, the decision, is a
function of its own (`syncApp`). Log lines are left out.

`updateEvent` is the predicate that decides which changes of an Application are reconciled.
-/

namespace Automium

open Effect Go

namespace ReconcileApplication

/-- The update predicate of `add`: changes of the status are not reconciled. -/
def updateEvent (oldObj newObj : Application) : Bool :=
  if oldObj.status ≠ newObj.status then false else true

/-- `updateStatus`. The result is what `item` is afterwards; the errors are not looked at. -/
def updateStatus (item : Application) (phase errorMsg : String) : Ctl Application :=
  if item.status.phase = phase then return item
  else do
    let item := { item with status := { phase := phase, error := errorMsg } }
    match ← Automium.updateStatus .application item with
    | .ok stored => return stored
    | .error _ => return item

/-- The end of a reconcile that failed. It is not run again. -/
def failWith (inst : Application) (errorMsg : String) : AppCtl (Except Error Result) := do
  let _ ← (updateStatus inst "Failed" errorMsg).inl
  return .ok {}

/-- The end of a reconcile, which runs again after five minutes. -/
def finish (inst : Application) : AppCtl (Except Error Result) := do
  let _ ← (updateStatus inst "Deployed" "").inl
  return .ok { requeueAfter := 300 }

/-- The first app of the name, or a record that stands for none. -/
def targetAppOf (name : String) (projectApps : List AppItem) : AppItem :=
  (projectApps.find? fun app => app.name = name).getD { name := "does-not-exist" }

/-- The phase is set, and the app is deployed. -/
def deploy (inst : Application) (clusterID projectID phase : String)
    (failure : ApplicationSpec → String) (newInstallation : Bool) :
    AppCtl (Except Error Result) := do
  let inst ← (updateStatus inst phase "").inl
  match ← deployApplication clusterID projectID inst.spec newInstallation with
  | .error e => failWith inst (failure inst.spec ++ ": " ++ e.text)
  | .ok _ => finish inst

def upgradeFailure (spec : ApplicationSpec) : String :=
  "cannot upgrade app " ++ spec.name ++ " in project " ++ spec.project

def installFailure (spec : ApplicationSpec) : String :=
  "cannot install app " ++ spec.name ++ " in System project"

/-- The part of `Reconcile` after the apps of the project are known. -/
def syncApp (inst : Application) (clusterID projectID : String) (projectApps : List AppItem) :
    AppCtl (Except Error Result) := do
  let targetApp := targetAppOf inst.spec.name projectApps
  if targetApp.name = inst.spec.name then
    match ← (answersEquals targetApp.answers inst.spec).inl with
    | .error e =>
      failWith inst ("cannot validate answers for app " ++ inst.spec.name ++ " in project " ++
        inst.spec.project ++ ": " ++ e.text)
    | .ok answersMatch =>
      if targetApp.version ≠ Url.bytes inst.spec.version.toList ∨ answersMatch = false then
        deploy inst clusterID projectID "Upgrading" upgradeFailure false
      else finish inst
  else deploy inst clusterID projectID "Deploying" installFailure true

def Reconcile (texts : LibTexts) (request : Key) : AppCtl (Except Error Result) := do
  match ← (get .application request).inl with
  | .error e => if e.isNotFound then return .ok {} else return .error e
  | .ok inst =>
    match ← getRancherClusterIDFromName texts inst.spec.cluster with
    | .error e => failWith inst ("cannot get ID for cluster: " ++ e.text)
    | .ok clusterID =>
      match ← getRancherProjectIDFromName texts clusterID inst.spec.project with
      | .error e =>
        failWith inst ("cannot get ID for project " ++ inst.spec.project ++ ": " ++ e.text)
      | .ok projectID =>
        match ← getRancherAppsFromProject texts projectID with
        | .error e =>
          failWith inst ("cannot get apps in project " ++ inst.spec.project ++ ": " ++ e.text)
        | .ok projectApps => syncApp inst clusterID projectID projectApps

end ReconcileApplication

end Automium
