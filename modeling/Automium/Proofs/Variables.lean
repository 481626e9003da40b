import Automium.Proofs.ModuleCalls
import Automium.Proofs.ServiceCalls

/-!
# The variables of the provisioner

A Service has a list of variables. The Service controller puts them under upper-case names into a
Module and adds its own, and the Module controller copies the list into a Job and adds three more.
In the container of the Job the last variable of a name counts (`resolve`).

`Provisions` says that a Job comes from a Service in this way: it looks at the executions of the
two reconciles, whatever fails and whoever writes in between.

* `own_variables_win`: the variables of the controllers cannot be overridden.
* `variable_intact_iff`: a variable of the user arrives intact exactly if it is a literal value. A
  reference to a secret is lost.
-/

namespace Automium

open Data Effect

/-! ## Names -/

/-- The variable that a container has under a name. -/
def resolve (name : String) (env : List EnvVar) : Option EnvVar :=
  env.reverse.find? fun v => v.name = name

section

variable {name : String} {env env' : List EnvVar} {v : EnvVar}

theorem resolve_append : resolve name (env ++ env') = (resolve name env').or (resolve name env) := by
  unfold resolve
  rw [List.reverse_append, List.find?_append]

theorem resolve_singleton : resolve v.name [v] = some v := by simp [resolve]

theorem resolve_eq_none : resolve name env = none ↔ name ∉ env.map EnvVar.name := by
  simp [resolve]

/-- The last variable of its name. -/
theorem resolve_last (h : v.name ∉ env'.map EnvVar.name) :
    resolve v.name (env ++ v :: env') = some v := by
  rw [resolve_append, ← List.singleton_append, resolve_append, resolve_eq_none.mpr h,
    resolve_singleton]
  rfl

theorem resolve_of_nodup (h : (env.map EnvVar.name).Nodup) (hv : v ∈ env) :
    resolve v.name env = some v := by
  obtain ⟨pre, post, rfl⟩ := List.append_of_mem hv
  refine resolve_last ?_
  rw [List.map_append, List.map_cons] at h
  exact (List.nodup_cons.mp h.of_append_right).1

end

/-! ## From the Service to the Job -/

namespace ReconcileService

/-- A reconcile that reads the Service and the platform sends the Module. -/
def Renders (upper : Go.Upper) (platform : String) (service : Service) (m : Module) : Prop :=
  ∃ env request c c₁ c₂ c' tr o,
    Exec (flaky env) (Reconcile upper request) c
      (⟨c₁, .get .service request, .ok service⟩ :: ⟨c₂, .getenv "PLATFORM", platform⟩ :: tr) o c' ∧
    ∃ e ∈ tr, e.op = .create .module m ∨ e.op = .update .module m

/-- A Module that is sent has this spec. -/
def SendsSpec (spec : ModuleSpec) : Request → Prop
  | .create .module m | .update .module m => m.spec = spec
  | _ => True

theorem sendsSpec_of_writes {spec : ModuleSpec} {op : Request} (h : op.writes ≠ some .module) :
    SendsSpec spec op := by
  unfold SendsSpec
  split
  · exact absurd rfl h
  · exact absurd rfl h
  · trivial

theorem syncFound_sends (request : Key) (inst : Service) (found deploy : Module) :
    Uses (SendsSpec deploy.spec) (syncFound request inst found deploy >>= finish) := by
  have hrest : ∀ inst found, Uses (SendsSpec deploy.spec) (syncStatus inst found >>= finish) :=
    fun inst found => (syncStatus_finish_writes inst found).mono fun _ => sendsSpec_of_writes
  unfold syncFound
  split
  · rw [bind_assoc, update_bind]
    refine ⟨rfl, fun r _ => ?_⟩
    cases r with
    | error e => trivial
    | ok found =>
      dsimp only
      rw [bind_assoc, get_bind]
      refine ⟨trivial, fun r _ => ?_⟩
      cases r with
      | error e => trivial
      | ok inst => exact hrest inst found
  · exact hrest inst found

/-- The reconcile after it has read the Service and the platform. -/
theorem Reconcile_sends (upper : Go.Upper) (request : Key) :
    ∃ k, Reconcile upper request = .call (.get .service request) k ∧
      ∀ inst, ∃ k', k (.ok inst) = .call (.getenv "PLATFORM") k' ∧
        ∀ platform, Uses (SendsSpec (renderSpec upper platform inst)) (k' platform) := by
  unfold Reconcile syncModule
  rw [bind_assoc, get_bind]
  refine ⟨_, rfl, fun inst => ?_⟩
  dsimp only
  rw [bind_assoc, getenv_bind]
  refine ⟨_, rfl, fun platform => ?_⟩
  rw [bind_assoc, get_bind]
  refine ⟨trivial, fun r _ => ?_⟩
  cases r with
  | ok found => exact syncFound_sends request inst found (renderModule upper platform inst)
  | error e =>
    dsimp only
    split
    · rw [bind_assoc, create_bind]
      refine ⟨rfl, fun r _ => ?_⟩
      cases r with
      | error e => trivial
      | ok => trivial
    · trivial

theorem Renders.spec_eq {upper : Go.Upper} {platform : String} {service : Service} {m : Module}
    (h : Renders upper platform service m) : m.spec = renderSpec upper platform service := by
  obtain ⟨env, request, c, c₁, c₂, c', tr, o, hexec, e, he, hop⟩ := h
  obtain ⟨k, hk, hk'⟩ := Reconcile_sends upper request
  rw [hk] at hexec
  rcases hexec.call_cases with ⟨-, htr, -⟩ | ⟨_, _, _, _, -, -, hexec, htr⟩
  · cases htr
  · cases htr
    obtain ⟨k', hk', hsends⟩ := hk' service
    rw [hk'] at hexec
    rcases hexec.call_cases with ⟨-, htr, -⟩ | ⟨_, _, _, _, -, -, hexec, htr⟩
    · cases htr
    · cases htr
      have hsent := (hsends platform).events hexec e he
      rcases hop with hop | hop
      · rw [hop] at hsent
        exact hsent
      · rw [hop] at hsent
        exact hsent

end ReconcileService

namespace ReconcileModule

/-- A reconcile that reads the Module sends the Job. -/
def Renders (sort : SliceSort) (inst : Module) (job : Job) : Prop :=
  ∃ env request c c₁ c' tr o,
    Exec (flaky env) (Reconcile sort request) c
      (⟨c₁, .get .module request, .ok inst⟩ :: tr) o c' ∧ ∃ e ∈ tr, e.op = .create .job job

theorem Renders.job_eq {sort : SliceSort} {inst : Module} {job : Job} (h : Renders sort inst job) :
    ∃ command, job = desiredJob inst command := by
  obtain ⟨env, request, c, c₁, c', tr, o, hexec, e, he, hop⟩ := h
  obtain ⟨k, hk, -, hok⟩ := Reconcile_get (fun _ _ => True) sort request
  rw [hk] at hexec
  rcases hexec.call_cases with ⟨-, htr, -⟩ | ⟨_, _, _, _, -, -, hexec, htr⟩
  · cases htr
  · cases htr
    have hall : Stable (flaky env) fun _ => True := fun _ _ _ _ => trivial
    have hcalls := (hok inst).invariant hall
      (fun s op r s' _ _ ha => ⟨flaky_returns ha, trivial⟩) hexec trivial
    have hcall := (hcalls.2.1 e he).2
    rw [hop] at hcall
    exact hcall

end ReconcileModule

open ReconcileService (appOf renderSpec upperEnv ownEnvVars commonEnvVars specificEnvVars
  roleEnvVars appProvisioner cloudPlatform)

/-- The Job comes from the Service through a Module. -/
def Provisions (upper : Go.Upper) (sort : SliceSort) (platform : String) (service : Service)
    (job : Job) : Prop :=
  ∃ m inst, ReconcileService.Renders upper platform service m ∧ inst.spec = m.spec ∧
    ReconcileModule.Renders sort inst job

/-- The variables that the two controllers add. -/
def controllerVars (upper : Go.Upper) (platform : String) (service : Service) : List EnvVar :=
  ownEnvVars upper platform service ++
    [{ name := "FLAVOR", value := service.spec.flavor },
     { name := "QUANTITY", value := toString service.spec.replicas },
     { name := "IMAGE", value := appProvisioner (appOf service) ++ "-" ++ service.spec.version }]

section

variable {upper : Go.Upper} {sort : SliceSort} {platform : String} {service : Service} {job : Job}

theorem Provisions.env_eq (h : Provisions upper sort platform service job) :
    ∃ container, job.spec.containers = [container] ∧
      container.env = upperEnv upper service.spec.env ++ controllerVars upper platform service := by
  obtain ⟨m, inst, hm, hspec, hjob⟩ := h
  obtain ⟨command, rfl⟩ := hjob.job_eq
  refine ⟨_, rfl, ?_⟩
  show ReconcileModule.batchEnvVars inst = _
  unfold ReconcileModule.batchEnvVars
  rw [hspec, hm.spec_eq]
  exact List.append_assoc ..

/-! ## The variables of the controllers -/

/-- The values that are fixed for a Kubernetes service. -/
def fixedVars (platform : String) (service : Service) : List EnvVar :=
  [{ name := "PROVIDER", value := cloudPlatform platform },
   { name := "NAME", value := service.metadata.name },
   { name := "MASTER", value := if appOf service = kubernetesCluster then "true" else "false" },
   { name := "NODE", value := if appOf service = kubernetesCluster then "false" else "true" },
   { name := "ETCD", value := if appOf service = kubernetesCluster then "true" else "false" },
   { name := "FLAVOR", value := service.spec.flavor },
   { name := "QUANTITY", value := toString service.spec.replicas },
   { name := "IMAGE", value := "kubernetes-" ++ service.spec.version }]

/-- The variables of the controllers have different names. -/
theorem controllerVars_nodup :
    ((controllerVars upper platform service).map EnvVar.name).Nodup := by
  unfold controllerVars ownEnvVars specificEnvVars commonEnvVars roleEnvVars
  split
  · split
    · simp
    · simp
  · split
    · simp
    · simp

theorem fixedVars_subset
    (h : appOf service = kubernetesCluster ∨ appOf service = kubernetesNodepool) :
    fixedVars platform service ⊆ controllerVars upper platform service := by
  unfold fixedVars controllerVars ownEnvVars specificEnvVars commonEnvVars roleEnvVars
    appProvisioner
  rw [if_pos h]
  rcases h with h | h
  · rw [h, if_pos rfl, if_pos rfl, if_pos rfl]
    split
    · simp
    · simp
  · rw [h, if_neg (by decide), if_neg (by decide), if_neg (by decide), if_pos rfl]
    simp

/-- Users cannot override the variables of the controllers (module doc). -/
theorem own_variables_win (h : Provisions upper sort platform service job)
    (happ : appOf service = kubernetesCluster ∨ appOf service = kubernetesNodepool) :
    ∃ container, job.spec.containers = [container] ∧
      ∀ v ∈ fixedVars platform service, resolve v.name container.env = some v := by
  obtain ⟨container, hcontainer, henv⟩ := h.env_eq
  refine ⟨container, hcontainer, fun v hv => ?_⟩
  rw [henv, resolve_append, resolve_of_nodup controllerVars_nodup (fixedVars_subset happ hv)]
  rfl

/-! ## The variables of the user -/

/-- No later entry has the upper-case name of this one, and the controllers do not set it. -/
def Effective (upper : Go.Upper) (platform : String) (service : Service) (entry : EnvVar) : Prop :=
  ∃ pre post, service.spec.env = pre ++ entry :: post ∧
    upper.toUpper entry.name ∉ post.map (fun item => upper.toUpper item.name) ∧
    upper.toUpper entry.name ∉ (controllerVars upper platform service).map EnvVar.name

/-- The container has the value or the reference of the entry under its upper-case name. -/
def Intact (upper : Go.Upper) (entry : EnvVar) (job : Job) : Prop :=
  ∃ container, job.spec.containers = [container] ∧
    ∃ v, resolve (upper.toUpper entry.name) container.env = some v ∧ v.value = entry.value ∧
      v.valueFrom = entry.valueFrom

/-- What arrives of an entry. -/
theorem Provisions.resolve_entry {entry : EnvVar} (h : Provisions upper sort platform service job)
    (he : Effective upper platform service entry) :
    ∃ container, job.spec.containers = [container] ∧
      resolve (upper.toUpper entry.name) container.env =
        some { name := upper.toUpper entry.name, value := entry.value } := by
  obtain ⟨container, hcontainer, henv⟩ := h.env_eq
  obtain ⟨pre, post, hentries, hpost, hown⟩ := he
  have hnames : (upperEnv upper post).map EnvVar.name =
      post.map fun item => upper.toUpper item.name := by
    unfold upperEnv
    rw [List.map_map]
    rfl
  refine ⟨container, hcontainer, ?_⟩
  rw [henv, hentries, upperEnv, List.map_append, List.map_cons, List.append_assoc, List.cons_append]
  refine resolve_last (v := { name := upper.toUpper entry.name, value := entry.value }) ?_
  rw [List.map_append, List.mem_append, not_or]
  exact ⟨hnames ▸ hpost, hown⟩

/-- Only the literal values arrive intact (module doc). -/
theorem variable_intact_iff {entry : EnvVar} (h : Provisions upper sort platform service job)
    (he : Effective upper platform service entry) :
    Intact upper entry job ↔ entry.valueFrom = none := by
  obtain ⟨container, hcontainer, hresolve⟩ := h.resolve_entry he
  constructor
  · rintro ⟨container', hcontainer', v, hv, -, hfrom⟩
    rw [hcontainer] at hcontainer'
    cases hcontainer'
    rw [hresolve] at hv
    cases hv
    exact hfrom.symm
  · intro hfrom
    exact ⟨container, hcontainer, _, hresolve, rfl, hfrom.symm⟩

end

/-! ### A cluster with a password -/

/-- A password that is in a secret. -/
def passwordEntry : EnvVar where
  name := "password"
  valueFrom := some { secretKeyRef := some ⟨"login", "password", none⟩ }

/-- A cluster whose password is in a secret, and whose user tries to set the provider. -/
def secretService : Service where
  metadata := { name := "prod", ns := "default", labels := Finmap.insert "app" kubernetesCluster ∅ }
  spec := { replicas := 3, flavor := "m1", version := "1",
            env := [{ name := "Provider", value := "none" }, { name := "size", value := "4" },
                    passwordEntry] }
  status := {}

/-- The store with only the Service. -/
def secretStore : Cluster := Cluster.empty.setTbl .service (Table.empty.put secretService)

def secretModule : Module := ReconcileService.renderModule Go.asciiUpper "" secretService

def secretJob : Job := ReconcileModule.desiredJob (newObj .module secretModule 2) ["./deploy"]

def secretServiceRun : Ran Api Cluster (Except Error Result) :=
  run serve (ReconcileService.Reconcile Go.asciiUpper ⟨"default", "prod"⟩) secretStore

def secretModuleRun : Ran Api Cluster (Except Error Result) :=
  run serve (ReconcileModule.Reconcile insertionSort ⟨"default", "prod-module"⟩)
    secretServiceRun.final

/-- The Service controller creates the Module, and then the Module controller the Job. -/
theorem secretJob_provisioned :
    Provisions Go.asciiUpper insertionSort "" secretService secretJob := by
  have hservice : Exec (flaky fun _ _ => False)
      (ReconcileService.Reconcile Go.asciiUpper ⟨"default", "prod"⟩) secretStore
      (⟨secretStore, .get .service ⟨"default", "prod"⟩, .ok secretService⟩ ::
        ⟨secretStore, .getenv "PLATFORM", ""⟩ :: secretServiceRun.trace.drop 2)
      secretServiceRun.outcome secretServiceRun.final := flaky_of_calm _ (calm_run _ secretStore)
  have hmodule : Exec (flaky fun _ _ => False)
      (ReconcileModule.Reconcile insertionSort ⟨"default", "prod-module"⟩) secretServiceRun.final
      (⟨secretServiceRun.final, .get .module ⟨"default", "prod-module"⟩,
        .ok (newObj .module secretModule 2)⟩ :: secretModuleRun.trace.drop 1)
      secretModuleRun.outcome secretModuleRun.final :=
    flaky_of_calm _ (calm_run _ secretServiceRun.final)
  refine ⟨secretModule, newObj .module secretModule 2,
    ⟨_, _, _, _, _, _, _, _, hservice, ?_⟩, rfl, ⟨_, _, _, _, _, _, _, hmodule, ?_⟩⟩
  · refine ⟨_, List.mem_cons_of_mem _ List.mem_cons_self, .inl ?_⟩
    rfl
  · refine ⟨_, List.mem_cons_of_mem _ (List.mem_cons_of_mem _ List.mem_cons_self), ?_⟩
    rfl

theorem own_variables_win_prod : ∃ container, secretJob.spec.containers = [container] ∧
    ∀ v ∈ fixedVars "" secretService, resolve v.name container.env = some v :=
  own_variables_win secretJob_provisioned (.inl rfl)

theorem variable_intact_size :
    Intact Go.asciiUpper { name := "size", value := "4" } secretJob ↔
      ({ name := "size", value := "4" } : EnvVar).valueFrom = none :=
  variable_intact_iff secretJob_provisioned ⟨[_], [_], rfl, by decide, by decide⟩

/-- The password does not arrive. -/
theorem password_lost :
    ¬ ∀ (upper : Go.Upper) (sort : SliceSort) (platform : String) (service : Service) (job : Job)
      (entry : EnvVar), Provisions upper sort platform service job →
        Effective upper platform service entry → Intact upper entry job := by
  intro h
  have he : Effective Go.asciiUpper "" secretService passwordEntry :=
    ⟨[_, _], [], rfl, by decide, by decide⟩
  obtain ⟨container, hcontainer, v, hv, -, hfrom⟩ := h _ _ _ _ _ _ secretJob_provisioned he
  obtain ⟨container', hcontainer', hresolve⟩ := secretJob_provisioned.resolve_entry he
  rw [hcontainer] at hcontainer'
  cases hcontainer'
  rw [hresolve] at hv
  cases hv
  cases hfrom

end Automium
