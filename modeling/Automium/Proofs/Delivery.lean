import Automium.Proofs.Conversation
import Automium.Proofs.Provenance

/-!
# From an entry of `Spec.Extra` to Rancher

Six controllers take part in the deployment of an extra: that of the Service, that of the Module, which
has to report its Job, that of the extra, and that of the Application, which talks to Rancher. Each
reads what another one has stored. `app_delivered`: whatever they have done before, and whatever
Rancher replies, the app that is sent for a stored Application is the one of an entry of a version of
its Service, with the version and the parameters of the entry, and it is sent to the cluster that
Rancher has listed under the name of the Service.
-/

namespace Automium

open Data Effect Go

open ReconcileApplication

namespace ReconcileService

/-- What is sent is the app that the entry asks for. The parameters win over the defaults. -/
structure Delivers (vars : String → String) (s : Service) (extraSpec : ExtraSpec) (a : Addon)
    (item : RancherAppItem) : Prop where
  lists : Lists s extraSpec a
  name : item.name = a.applicationName
  externalID : item.externalID = externalIDOf a.applicationName extraSpec.version
  targetNamespace : item.targetNamespace = a.applicationNamespace
  answers : ∃ answers, item.answers = some answers ∧ ∀ name value,
    ((entryParameters s a extraSpec).getD ∅).lookup name = some value →
      answers.lookup name = some value

section

variable {vars : String → String} {texts : LibTexts} {s : Service} {extraSpec : ExtraSpec} {a : Addon}
  {app : Application} {pid : String} {answers : StringMap}

/-- The parameters of the Application win over the defaults. -/
theorem answersFor_eq {spec : ApplicationSpec} (h : answersFor vars spec = .ok answers) :
    ∃ defaults, answers = spec.parameters.getD ∅ ∪ defaults := by
  have heval := @evalEnv_answers vars spec
  rw [h, buildAppAnswers, evalEnv_bind] at heval
  obtain ⟨r, hr⟩ := @evalEnv_defaults vars spec
  rw [hr] at heval
  cases r with
  | error e => cases heval
  | ok defaults =>
    cases heval
    exact ⟨defaults, rfl⟩

theorem Deploys.delivers (h : Deploys s extraSpec a app)
    (hans : answersFor vars app.spec = .ok answers) :
    Delivers vars s extraSpec a (installBodyOf app.spec pid answers) where
  lists := h.lists
  name := h.name
  externalID := by
    rw [← h.name, ← h.version]
    rfl
  targetNamespace := h.inNs
  answers := by
    refine ⟨answers, rfl, fun name value hvalue => ?_⟩
    obtain ⟨defaults, rfl⟩ := answersFor_eq hans
    rw [← h.parameters] at hvalue
    rw [Finmap.lookup_union_left (Finmap.mem_of_lookup_eq_some hvalue), hvalue]

/-- The app that is sent for a stored Application (module doc). -/
theorem app_delivered {upper : Go.Upper} {sort : SliceSort} {V : Service → Prop}
    {ts : List (Trans (Pool Api Cluster (Except Error Result)) Pool.Move)}
    {p : Pool Api Cluster (Except Error Result)} (hrun : Run (allControllers upper sort V) ts p)
    (happ : app ∈ p.state.tbl .application) {acts : List Act}
    {res : Outcome (Except Error Result)} (h : Reconciles vars texts app.key app acts res)
    {past later : List Exchange} {req : HTTPRequest} {r : Except Error Response}
    (he : exchangesOf acts = past ++ (req, r) :: later) {item : RancherAppItem}
    (hitem : req.body = some (.app item)) :
    ∃ s extraSpec a, V s ∧ Delivers vars s extraSpec a item ∧ Ships vars item req ∧
      (∃ r, (clustersRequest vars, r) ∈ past ∧ ∃ cid, clusterIn texts s.metadata.name r = .ok cid ∧
        ∃ r, (projectsRequest vars cid, r) ∈ past ∧
          projectIn texts "System" r = .ok item.projectID) ∧ later = [] := by
  obtain ⟨s, extraSpec, a, hV, hdeploys⟩ := sourced_of_run hrun .application app happ
  obtain ⟨cid, pid, answers, haim, hans, rfl, hsends, hlater⟩ := h.sent he hitem
  obtain ⟨⟨r₁, hr₁, hcluster⟩, r₂, hr₂, hproject⟩ := haim
  rw [hdeploys.cluster] at hcluster
  rw [hdeploys.project] at hproject
  exact ⟨s, extraSpec, a, hV, hdeploys.delivers hans, hsends,
    ⟨r₁, hr₁, cid, hcluster, r₂, hr₂, hproject⟩, hlater⟩

end

/-! ### A Backup -/

/-- It is installed in the cluster. -/
theorem app_delivered_backup : ∃ acts res past later r item,
    Reconciles prodVars prodTexts backupApp.key backupApp acts res ∧
    exchangesOf acts = past ++ (installRequest prodVars "c-1:p-1" item, r) :: later ∧
    ∃ s extraSpec a, s = backupService ∧ Delivers prodVars s extraSpec a item := by
  obtain ⟨ts, hrun⟩ := run_backup
  have hmem : (installRequest prodVars "c-1:p-1" (installBodyOf backupApp.spec "c-1:p-1"
      (mapOf [("clusterName", "prod"), ("backupEnv", ""),
        ("backupRepository", "swift:automium:/cluster-backups/prod")])), _) ∈
      exchangesOf (actsOf (reconcileRun prodVars prodTexts backupApp.key backupApp
        emptyProject).trace) := exchange_run (by decide +kernel)
  obtain ⟨past, later, he⟩ := List.append_of_mem hmem
  obtain ⟨s, extraSpec, a, hs, hdelivers, -⟩ :=
    app_delivered hrun backupApp_mem reconciles_run he rfl
  exact ⟨_, _, past, later, _, _, reconciles_run, he, s, extraSpec, a, hs, hdelivers⟩

end ReconcileService

end Automium
