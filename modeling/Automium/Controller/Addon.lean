import Automium.Controller.Module

/-!
# `pkg/controller/monitoring`, `pkg/controller/backup` and `pkg/controller/logging`

The three controllers have one body (`reconcileAddon`): an Application for the extra is created, or
updated if its spec is not the desired one. They differ in the kind of the extra, in the name of
the Application and in its namespace.
-/

namespace Automium

open Effect

/-- The desired Application of an extra, given its name and its namespace. -/
def addonApplication (a : Addon) (name ns : String) (inst : AddonObj) : Application where
  metadata := { name := inst.metadata.name ++ "-app", ns := inst.metadata.ns,
                ownerReferences := controllerReference a.kindName inst.metadata }
  spec := { name := name, version := inst.spec.version, cluster := inst.spec.cluster,
            project := "System", ns := ns, parameters := inst.spec.parameters }
  status := {}

/-- The body that the three controllers share. -/
def reconcileAddon (a : Addon) (name ns : String) (request : Key) : Ctl (Except Error Result) := do
  match ← get (.addon a) request with
  | .error e => if e.isNotFound then return .ok {} else return .error e
  | .ok inst =>
    let deploy := addonApplication a name ns inst
    match ← get .application deploy.key with
    | .error e =>
      if e.isNotFound then
        match ← create .application deploy with
        | .error e => return .error e
        | .ok _ => return .ok {}
      else return .error e
    | .ok found =>
      if deploy.spec ≠ found.spec then
        match ← update .application { found with spec := deploy.spec } with
        | .error e => return .error e
        | .ok _ => return .ok {}
      else return .ok {}

namespace ReconcileMonitoring

def Reconcile (request : Key) : Ctl (Except Error Result) :=
  reconcileAddon .monitoring "automium-monitoring" "automium-prometheus" request

end ReconcileMonitoring

namespace ReconcileBackup

def Reconcile (request : Key) : Ctl (Except Error Result) :=
  reconcileAddon .backup "automium-backup" "kube-system" request

end ReconcileBackup

namespace ReconcileLogging

def Reconcile (request : Key) : Ctl (Except Error Result) :=
  reconcileAddon .logging "automium-logging" "kube-system" request

end ReconcileLogging

end Automium
