import Automium.Proofs.Addons
import Automium.Proofs.DerivedNames

/-!
# Where the Applications come from

An Application is made from an extra, and this from an entry of `Spec.Extra`, each by a controller of
its own that reads what the other one has stored, maybe long ago. `FromEntry` says that an extra is
what an entry of a version of its Service asks for, and `Deploys` says it of an Application. They are
kept by what the controllers write (`EntryCall`, `AppCall`), so in every run each Application deploys
the app of one entry, with its version and its parameters, in the cluster named as the Service
(`extras_sourced`).
-/

namespace Automium

open Data Effect

namespace ReconcileService

/-! ## Extras and Applications of an entry -/

/-- The entry is one of a version of a Service for which extras are made. -/
structure Lists (s : Service) (extraSpec : ExtraSpec) (a : Addon) : Prop where
  app : appOf s = kubernetesCluster
  replicas : s.spec.replicas ≠ 0
  listed : extraSpec ∈ s.spec.extra
  kind : extraSpec.name = a.name

/-- The extra is the one that the entry asks for. An absent map of parameters has no bindings. -/
structure FromEntry (s : Service) (extraSpec : ExtraSpec) (a : Addon) (o : AddonObj) : Prop where
  lists : Lists s extraSpec a
  key : o.key = (Role.addon a).key s.key
  cluster : o.spec.cluster = s.metadata.name
  version : o.spec.version = extraSpec.version
  parameters : o.spec.parameters.getD ∅ = (entryParameters s a extraSpec).getD ∅

/-- The Application deploys the app that the entry asks for. -/
structure Deploys (s : Service) (extraSpec : ExtraSpec) (a : Addon) (app : Application) : Prop where
  lists : Lists s extraSpec a
  key : app.key = (Role.application a).key s.key
  name : app.spec.name = a.applicationName
  inNs : app.spec.ns = a.applicationNamespace
  project : app.spec.project = "System"
  cluster : app.spec.cluster = s.metadata.name
  version : app.spec.version = extraSpec.version
  parameters : app.spec.parameters.getD ∅ = (entryParameters s a extraSpec).getD ∅

/-- What the controllers store, when the versions of the Services are those in `V`. -/
def Sourced (V : Service → Prop) : (k : Kind) → k.Obj → Prop
  | .service, o => ∃ s, V s ∧ Same s o
  | .addon a, o => ∃ s extraSpec, V s ∧ FromEntry s extraSpec a o
  | .application, o => ∃ s extraSpec a, V s ∧ Deploys s extraSpec a o
  | .module, _ | .node, _ | .job, _ | .pod, _ => True

section

variable {s service : Service} {extraSpec : ExtraSpec} {a : Addon} {o x : AddonObj}
  {app : Application}

/-- The extra that is made for a copy of the version of the Service. -/
theorem Same.fromEntry (h : Same s service) (hlists : Lists service extraSpec a)
    (hkey : o.key = extraKey service a) (hcluster : o.spec.cluster = service.metadata.name)
    (hversion : o.spec.version = extraSpec.version)
    (hparameters : o.spec.parameters.getD ∅ = (entryParameters service a extraSpec).getD ∅) :
    FromEntry s extraSpec a o where
  lists := ⟨h.appOf_eq.symm.trans hlists.app, h.spec ▸ hlists.replicas, h.spec ▸ hlists.listed,
    hlists.kind⟩
  key := hkey.trans (congrArg (Role.key · (.addon a)) h.key_eq)
  cluster := hcluster.trans h.name
  version := hversion
  parameters := by
    have hwanted : wantedParameters service a = wantedParameters s a := by
      unfold wantedParameters
      rw [h.name]
    rw [hparameters, entryParameters, entryParameters, hwanted]

/-- The Application that is made for an extra. -/
theorem FromEntry.deploys (h : FromEntry s extraSpec a x) (hkey : app.key = (a.application x).key)
    (hspec : app.spec = Kind.application.stored (a.application x).spec) :
    Deploys s extraSpec a app := by
  obtain ⟨hns, hname⟩ := Key.mk.inj h.key
  refine ⟨h.lists, hkey.trans ?_, ?_, ?_, ?_, ?_, ?_, ?_⟩
  · exact congrArg₂ Key.mk hns (congrArg (· ++ "-app") hname)
  · rw [hspec]
    rfl
  · rw [hspec]
    rfl
  · rw [hspec]
    rfl
  · rw [hspec]
    exact h.cluster
  · rw [hspec]
    exact h.version
  · rw [hspec]
    exact (omitEmpty_getD _).trans h.parameters

end

/-! ## The calls -/

/-- What `ManageExtras` writes: the extra of an entry, or its version and its parameters into the extra
that was found. -/
def EntryCall (P : (k : Kind) → k.Obj → Prop) (service : Service) : Request → Prop
  | .get (.addon _) _ | .delete (.addon _) _ => True
  | .create (.addon a) o => ∃ extraSpec, Lists service extraSpec a ∧
      o = extraManifest service (suffixOf a) extraSpec.version (entryParameters service a extraSpec)
  | .update (.addon a) o => ∃ extraSpec found, Lists service extraSpec a ∧
      (P (.addon a) found ∧ found.key = extraKey service a ∨ found = zeroAddon) ∧
      o = refreshed found
        (extraManifest service (suffixOf a) extraSpec.version (entryParameters service a extraSpec))
  | _ => False

/-- What the controller of an extra writes: the Application of the extra, or its spec into the
Application that was found. -/
def AppCall (P : (k : Kind) → k.Obj → Prop) (a : Addon) : Request → Prop
  | .get _ _ => True
  | .create .application o => ∃ inst, P (.addon a) inst ∧ o = a.application inst
  | .update .application o => ∃ (inst : AddonObj) (found : Application), P (.addon a) inst ∧
      found.key = (a.application inst).key ∧ o = { found with spec := (a.application inst).spec }
  | _ => False

section

variable {P : (k : Kind) → k.Obj → Prop} {service : Service} {extraSpec : ExtraSpec} {a : Addon}

theorem updateExtra_entry {found : AddonObj} (hlists : Lists service extraSpec a)
    (h : P (.addon a) found ∧ found.key = extraKey service a ∨ found = zeroAddon) :
    Obeys (S := Api) (Request.Replies P) (EntryCall P service)
      (updateExtra a found (extraManifest service (suffixOf a) extraSpec.version
        (entryParameters service a extraSpec))) fun _ => True := by
  unfold updateExtra
  split
  · rw [update_bind]
    refine ⟨⟨extraSpec, found, hlists, h, rfl⟩, fun r _ => ?_⟩
    cases r <;> trivial
  · trivial

theorem manageExtra_entry (happ : appOf service = kubernetesCluster)
    (hmem : extraSpec ∈ service.spec.extra) (hkind : extraSpec.name = a.name) :
    Obeys (S := Api) (Request.Replies P) (EntryCall P service)
      (manageExtra a (suffixOf a) service extraSpec.version (entryParameters service a extraSpec))
      fun _ => True := by
  unfold manageExtra
  dsimp only
  split
  · rw [delete_bind]
    refine ⟨trivial, fun r _ => ?_⟩
    cases r with
    | error e => dsimp only; split <;> trivial
    | ok => trivial
  · rename_i hr
    have hlists : Lists service extraSpec a := ⟨happ, hr, hmem, hkind⟩
    rw [get_bind]
    refine ⟨trivial, fun r hreply => ?_⟩
    cases r with
    | ok found => exact updateExtra_entry hlists (.inl (hreply found rfl))
    | error e =>
      dsimp only
      split
      · rw [create_bind]
        refine ⟨⟨extraSpec, hlists, rfl⟩, fun r _ => ?_⟩
        cases r <;> trivial
      · exact updateExtra_entry hlists (.inr rfl)

/-- An entry is handled, or `ManageExtras` stops there. -/
theorem manageEntry_cases (service : Service) (extraSpec : ExtraSpec) :
    (∃ a : Addon, extraSpec.name = a.name ∧ manageEntry service extraSpec =
      manageExtra a (suffixOf a) service extraSpec.version (entryParameters service a extraSpec)) ∨
    (∃ msg, manageEntry service extraSpec = .crash msg) ∨
    ∃ e, manageEntry service extraSpec = .ret (.error e) := by
  by_cases h : ∃ a : Addon, extraSpec.name = a.name
  · obtain ⟨a, ha⟩ := h
    by_cases hp : extraSpec.name = Addon.logging.name → extraSpec.parameters ≠ none
    · exact .inl ⟨a, ha, manageEntry_eq ha hp⟩
    · obtain ⟨hlogging, hnone⟩ := Classical.not_imp.mp hp
      refine .inr (.inl ⟨"assignment to entry in nil map", ?_⟩)
      unfold manageEntry manageLoggingExtra
      rw [hlogging, not_not.mp hnone]
      rfl
  · refine .inr (.inr ⟨.new ("unknown extras specified: " ++ extraSpec.name), ?_⟩)
    have hne : ∀ a : Addon, extraSpec.name ≠ a.name := fun a e => h ⟨a, e⟩
    exact (if_neg (hne .monitoring)).trans ((if_neg (hne .backup)).trans (if_neg (hne .logging)))

theorem manageEntries_entry (happ : appOf service = kubernetesCluster) {extra : List ExtraSpec}
    (hmem : ∀ extraSpec ∈ extra, extraSpec ∈ service.spec.extra) :
    Obeys (S := Api) (Request.Replies P) (EntryCall P service) (manageEntries service extra)
      fun _ => True := by
  induction extra with
  | nil => trivial
  | cons extraSpec rest ih =>
    obtain ⟨hfirst, hrest⟩ := List.forall_mem_cons.mp hmem
    have hentry : Obeys (S := Api) (Request.Replies P) (EntryCall P service)
        (manageEntry service extraSpec) fun _ => True := by
      rcases manageEntry_cases service extraSpec with ⟨a, ha, he⟩ | ⟨msg, he⟩ | ⟨e, he⟩
      · exact he ▸ manageExtra_entry happ hfirst ha
      · exact he ▸ trivial
      · exact he ▸ trivial
    refine hentry.bind fun r _ => ?_
    cases r with
    | error e => trivial
    | ok => exact ih hrest

theorem reconcileAddon_app (P : (k : Kind) → k.Obj → Prop) (a : Addon) (request : Key) :
    Obeys (S := Api) (Request.Replies P) (AppCall P a) (a.Reconcile request) fun _ => True := by
  rw [Addon.Reconcile_eq, reconcileAddon, get_bind]
  refine ⟨trivial, fun r hr => ?_⟩
  cases r with
  | error e => dsimp only; split <;> trivial
  | ok inst =>
    have hinst : P (.addon a) inst := (hr inst rfl).1
    dsimp only
    rw [get_bind]
    refine ⟨trivial, fun r hr' => ?_⟩
    cases r with
    | error e =>
      dsimp only
      split
      · rw [create_bind]
        refine ⟨⟨inst, hinst, rfl⟩, fun r _ => ?_⟩
        cases r <;> trivial
      · trivial
    | ok found =>
      dsimp only
      split
      · rw [update_bind]
        refine ⟨⟨inst, found, hinst, (hr' found rfl).2, rfl⟩, fun r _ => ?_⟩
        cases r <;> trivial
      · trivial

end

/-! ## What the calls keep -/

section

variable {upper : Go.Upper} {sort : SliceSort} {V : Service → Prop} {c c' : Cluster} {op : Request}

/-- The status of an object does not matter, nor do its other numbers. -/
theorem Sourced.sameBut {k : Kind} {old o : k.Obj} (hs : k ≠ .service) (h : Sourced V k old)
    (hsame : SameBut old o) : Sourced V k o := by
  obtain ⟨⟨v, hmeta⟩, hspec⟩ := hsame
  obtain ⟨metadata, spec, status⟩ := o
  dsimp only at hmeta hspec
  subst hmeta hspec
  cases k with
  | service => exact absurd rfl hs
  | module | node | job | pod => trivial
  | addon a =>
    obtain ⟨s, extraSpec, hV, h⟩ := h
    exact ⟨s, extraSpec, hV, h.lists, h.key, h.cluster, h.version, h.parameters⟩
  | application =>
    obtain ⟨s, extraSpec, a, hV, h⟩ := h
    exact ⟨s, extraSpec, a, hV, h.lists, h.key, h.name, h.inNs, h.project, h.cluster, h.version,
      h.parameters⟩

theorem sourced_of_entryCall {service : Service} (hs : Sourced V .service service)
    (h : EntryCall (Sourced V) service op) : op.Keeps (Sourced V) := by
  obtain ⟨s, hV, hsame⟩ := hs
  unfold EntryCall at h
  split at h
  · trivial
  · trivial
  · rename_i a o
    obtain ⟨extraSpec, hlists, rfl⟩ := h
    exact fun v => ⟨s, extraSpec, hV, hsame.fromEntry hlists rfl rfl rfl (omitEmpty_getD _)⟩
  · rename_i a o
    obtain ⟨extraSpec, found, hlists, ⟨⟨t, _, -, hfound⟩, hkey⟩ | rfl, rfl⟩ := h
    · intro old v _ _
      -- The extra that was found is that of the Service, so its cluster has the name of the Service.
      have hservice : t.metadata.name = service.metadata.name :=
        congrArg Key.name (@Role.key_inj t.key service.key (.addon a) (.addon a) |>.mp
          (hfound.key.symm.trans hkey)).1
      exact ⟨s, extraSpec, hV, hsame.fromEntry hlists hkey (hfound.cluster.trans hservice) rfl
        (omitEmpty_getD _)⟩
    · -- No extra has the key of the zero value.
      rintro old v ⟨t, _, -, hold⟩ hkey
      have hname : (Role.addon a).name t.metadata.name = "" :=
        congrArg Key.name (hold.key.symm.trans hkey)
      exact absurd hname (Role.name_ne_empty _ _)
  · exact h.elim

theorem sourced_of_syncCall (h : SyncCall upper (Sourced V) op) : op.Keeps (Sourced V) := by
  unfold SyncCall at h
  split at h
  · exact fun v => trivial
  · exact fun old v _ _ => trivial
  · rintro old v ⟨s, hV, h₁, h₂, h₃, h₄⟩ -
    exact ⟨s, hV, h₁, h₂, h₃, h₄⟩
  · cases op with
    | create | update | updateStatus | delete => cases h
    | get | list | now | getenv | slack => trivial

theorem sourced_of_appCall {a : Addon} (h : AppCall (Sourced V) a op) : op.Keeps (Sourced V) := by
  unfold AppCall at h
  split at h
  · trivial
  · obtain ⟨inst, ⟨s, extraSpec, hV, hinst⟩, rfl⟩ := h
    exact fun v => ⟨s, extraSpec, a, hV, hinst.deploys rfl rfl⟩
  · obtain ⟨inst, found, ⟨s, extraSpec, hV, hinst⟩, hkey, rfl⟩ := h
    exact fun old v _ _ => ⟨s, extraSpec, a, hV, hinst.deploys hkey rfl⟩
  · exact h.elim

/-- The calls of the Module controller. -/
theorem sourced_of_moduleCall {inst : Module}
    (h : ReconcileModule.MayCall (Sourced V) inst op) : op.Keeps (Sourced V) := by
  unfold ReconcileModule.MayCall at h
  split at h
  · trivial
  · trivial
  · trivial
  · exact fun v => trivial
  · exact fun v => trivial
  · exact fun old v _ _ => trivial
  · exact fun old v _ _ => trivial
  · trivial
  · trivial
  · trivial
  · exact h.elim

/-- The Service controller keeps what is stored. -/
theorem Reconcile_sourced (request : Key) :
    Obeys (S := Api) (Request.Replies (Sourced V)) (Request.Keeps (Sourced V))
      (Reconcile upper request) fun _ => True := by
  have hcalls : Obeys (S := Api) (Request.Replies (Sourced V)) (Request.Keeps (Sourced V))
      (syncModule upper request) fun _ => True :=
    (syncModule_calls request).mono (fun _ _ h => h.returns) (fun _ => sourced_of_syncCall)
      fun _ h => h
  have hsync : Obeys (S := Api) (Request.Replies (Sourced V)) (Request.Keeps (Sourced V))
      (syncModule upper request) (Synced.ForCluster (Sourced V)) :=
    (hcalls.and (syncModule_syncs upper request)).mono (fun _ _ h => h) (fun _ h => h.1)
      fun _ h => h.2
  refine hsync.bind fun synced h => ?_
  cases synced with
  | finished res => trivial
  | extras service =>
    obtain ⟨hs, happ⟩ := h
    have hextras : Obeys (S := Api) (Request.Replies (Sourced V)) (Request.Keeps (Sourced V))
        (ManageExtras service) fun _ => True :=
      (manageEntries_entry happ fun _ h => h).mono (fun _ _ h => h)
        (fun _ => sourced_of_entryCall hs) fun _ h => h
    refine hextras.bind fun r _ => ?_
    cases r <;> trivial

/-! ## Runs -/

theorem Edited.sourced (h : Edited V c c') (hc : c.All (Sourced V)) : c'.All (Sourced V) := by
  intro k o ho
  by_cases hs : k = .service
  · subst hs
    exact h.services o ho
  by_cases hp : k = .pod
  · subst hp
    trivial
  obtain ⟨old, hold, hsame⟩ := h.others k hs hp o ho
  exact (hc k old hold).sameBut hs hsame

/-- What is stored in a run. -/
theorem sourced_of_run {ts : List (Trans (Pool Api Cluster (Except Error Result)) Pool.Move)}
    {p : Pool Api Cluster (Except Error Result)} (h : Run (allControllers upper sort V) ts p) :
    p.state.All (Sourced V) := by
  have haddon : ∀ (a : Addon) (request : Key),
      Obeys (S := Api) (Request.Replies (Sourced V)) (Request.Keeps (Sourced V))
        (a.Reconcile request) fun _ => True := fun a request =>
    (reconcileAddon_app _ a request).mono (fun _ _ h => h) (fun _ => sourced_of_appCall) fun _ h => h
  refine Cluster.All.pool ?_ (fun _ h => h.all (fun _ ho => ho) fun _ => trivial)
    (fun _ _ hc h => h.sourced hc) h
  rintro p ⟨request, rfl | rfl | rfl | rfl | rfl⟩
  · exact Reconcile_sourced request
  · exact ReconcileModule.Reconcile_keeps (fun _ _ _ => sourced_of_moduleCall) sort request
  · exact haddon .monitoring request
  · exact haddon .backup request
  · exact haddon .logging request

/-- Each extra and each Application is what an entry of a version of its Service asks for (module
doc). -/
theorem extras_sourced {ts : List (Trans (Pool Api Cluster (Except Error Result)) Pool.Move)}
    {p : Pool Api Cluster (Except Error Result)} (h : Run (allControllers upper sort V) ts p) :
    (∀ a (o : AddonObj), o ∈ p.state.tbl (.addon a) →
      ∃ s extraSpec, V s ∧ FromEntry s extraSpec a o) ∧
    ∀ app : Application, app ∈ p.state.tbl .application →
      ∃ s extraSpec a, V s ∧ Deploys s extraSpec a app :=
  ⟨fun a o ho => sourced_of_run h (.addon a) o ho, fun app ho => sourced_of_run h .application app ho⟩

end

/-! ### A Backup -/

/-- A cluster with a Backup. Its Module has not been created yet. -/
def backupService : Service :=
  { clusterService [backupEntry] with status := { phase := StatusPhaseCompleted } }

/-- The store after its Module was created. -/
def moduleCreated : Cluster :=
  (run serve (Reconcile Go.asciiUpper backupService.key) (oneService backupService)).final

/-- The Module. -/
def backupModule : Module := newObj .module (renderModule Go.asciiUpper "" backupService) 2

/-- The store after its Job was reported. -/
def moduleCompleted : Cluster :=
  moduleCreated.setTbl .module ((moduleCreated.tbl .module).put
    { backupModule with status := { phase := StatusPhaseCompleted } })

/-- The reconciles of the Service and of its Backup. -/
def backupReconciles : List (Ctl (Except Error Result)) :=
  [Reconcile Go.asciiUpper backupService.key, ReconcileBackup.Reconcile ⟨"default", "prod-backup"⟩]

def backupMade : Cluster :=
  backupReconciles.foldl (fun c p => (run serve p c).final) moduleCompleted

/-- Its Application. -/
def backupApp : Application :=
  newObj .application (Addon.backup.application
    (newObj (.addon .backup) (extraManifest backupService backupSuffix "2" (some ∅)) 4)) 5

theorem backupApp_mem : backupApp ∈ backupMade.tbl .application := by
  have hfind : backupMade.find? .application backupApp.key = some backupApp := by decide +kernel
  exact find?_mem hfind

theorem moduleCompleted_edited :
    Edited (· = backupService) moduleCreated moduleCompleted where
  services o ho := by
    rw [moduleCompleted, Cluster.setTbl_ne _ _ (by decide)] at ho
    have htbl : moduleCreated.tbl .service = (oneService backupService).tbl .service := rfl
    exact (unserved_oneService backupService).services o (htbl ▸ ho)
  others k hs hp o ho := by
    by_cases hk : k = .module
    · subst hk
      rw [moduleCompleted, Cluster.setTbl_self] at ho
      rcases Table.mem_put.mp ho with rfl | ⟨ho, -⟩
      · have hfind : moduleCreated.find? .module backupModule.key = some backupModule := by
          decide +kernel
        exact ⟨backupModule, find?_mem hfind, ⟨_, rfl⟩, rfl⟩
      · exact ⟨o, ho, ⟨_, rfl⟩, rfl⟩
    · rw [moduleCompleted, Cluster.setTbl_ne _ _ hk] at ho
      exact ⟨o, ho, ⟨_, rfl⟩, rfl⟩

theorem run_backup : ∃ ts, Run (allControllers Go.asciiUpper insertionSort (· = backupService)) ts
    ⟨backupMade, []⟩ := by
  have hserve : ∀ c op, (flaky (Edited (· = backupService))).answer c op (serve c op).1
      (serve c op).2 := fun c op => .inl (serves_serve c op)
  have hservice : IsController Go.asciiUpper insertionSort
      (Reconcile Go.asciiUpper backupService.key) := ⟨_, .inl rfl⟩
  have hfirst : ∀ p ∈ [Reconcile Go.asciiUpper backupService.key],
      IsController Go.asciiUpper insertionSort p := by
    simpa using hservice
  obtain ⟨ts, hcreated⟩ := Pool.run_all hserve hfirst
    (.nil ⟨unserved_oneService backupService, rfl⟩)
  have hcompleted := hcreated.snoc (.other moduleCompleted_edited)
  refine Pool.run_all hserve (fun p hp => ?_) hcompleted
  simp only [backupReconciles, List.mem_cons, List.not_mem_nil, or_false] at hp
  rcases hp with rfl | rfl
  · exact hservice
  · exact ⟨_, .inr (.inr (.inr (.inl rfl)))⟩

/-- It comes from the entry. -/
theorem extras_sourced_backup : ∃ extraSpec a, Deploys backupService extraSpec a backupApp := by
  obtain ⟨ts, hrun⟩ := run_backup
  obtain ⟨s, extraSpec, a, rfl, hdeploys⟩ := (extras_sourced hrun).2 backupApp backupApp_mem
  exact ⟨extraSpec, a, hdeploys⟩

end ReconcileService

end Automium
