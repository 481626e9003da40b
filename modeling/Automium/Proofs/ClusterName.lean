import Automium.Proofs.Hostnames
import Automium.Proofs.Variables

/-!
# The cluster name in the hostnames and in the Job

Three places look at the `CLUSTER_NAME` of a Kubernetes service: the Service controller adds a default
unless some variable of that name is not empty, the Module controller builds the hostnames from the
last one (`clusterNameOf`), and in the Job the last one counts (`resolve`). A user can have two of
them, since the names are compared in upper case. `follow_cluster_iff`: the hostnames have the
cluster name of the Job, and it is not empty, except for a cluster whose last `CLUSTER_NAME` is empty
and an earlier one is not.
-/

namespace Automium

open Data Effect

open ReconcileService (appOf upperEnv renderSpec ModuleOf customClusterNameFound)
open ReconcileModule (serviceNameOf appNameOf clusterNameOf specHostname nodeName batchEnvVars
  manageNodesForModule)

/-- Every Node that `manageNodesForModule` creates for the Module has the hostname
`<c>-<service>-<i>`, where `c` is the `CLUSTER_NAME` of the Job and not empty. Nothing is said of an
execution that creates no Node. -/
def FollowsCluster (sort : SliceSort) (service : Service) (inst : Module) : Prop :=
  ∀ env c tr o c', Exec (flaky env) (manageNodesForModule sort inst) c tr o c' →
    ∀ e ∈ tr, ∀ node, e.op = .create .node node → ∃ v i,
      resolve "CLUSTER_NAME" (batchEnvVars inst) = some v ∧ v.value ≠ "" ∧
      node.metadata.name = nodeName service.metadata.name i ∧
      node.spec.hostname = v.value ++ "-" ++ service.metadata.name ++ "-" ++ toString i

/-- The last `CLUSTER_NAME` of the user is empty, and another one is not. -/
def LastEmpty (upper : Go.Upper) (service : Service) : Prop :=
  customClusterNameFound (upperEnv upper service.spec.env) = true ∧
    ∃ v, resolve "CLUSTER_NAME" (upperEnv upper service.spec.env) = some v ∧ v.value = ""

section

variable {upper : Go.Upper} {platform : String} {service : Service} {inst : Module} {i : Nat}

/-! ## The name that counts -/

/-- The loop over the variables finds the one that counts. -/
theorem clusterNameOf_eq (start : String) (env : List EnvVar) :
    clusterNameOf start env = ((resolve "CLUSTER_NAME" env).map EnvVar.value).getD start := by
  induction env using List.reverseRecOn with
  | nil => rfl
  | append_singleton env v ih =>
    rw [ReconcileService.clusterNameOf_append, ih, resolve_append]
    by_cases hv : v.name = "CLUSTER_NAME"
    · simp [clusterNameOf, resolve, hv]
    · simp [clusterNameOf, resolve, hv]

/-- The Module controller adds no cluster name. -/
theorem resolve_batchEnvVars :
    resolve "CLUSTER_NAME" (batchEnvVars inst) = resolve "CLUSTER_NAME" inst.spec.env := by
  unfold batchEnvVars
  rw [resolve_append, resolve_eq_none.mpr (by simp), Option.none_or]

/-- The Service controller adds one to a cluster without a custom name only. -/
theorem resolve_renderSpec : resolve "CLUSTER_NAME" (renderSpec upper platform service).env =
    if appOf service = kubernetesCluster ∧
      customClusterNameFound (upperEnv upper service.spec.env) = false
    then some { name := "CLUSTER_NAME", value := service.metadata.name }
    else resolve "CLUSTER_NAME" (upperEnv upper service.spec.env) := by
  have hcommon : resolve "CLUSTER_NAME"
      (ReconcileService.commonEnvVars platform service.metadata.name) = none :=
    resolve_eq_none.mpr (by simp [ReconcileService.commonEnvVars])
  have hrole : ∀ master node etcd,
      resolve "CLUSTER_NAME" (ReconcileService.roleEnvVars master node etcd) = none :=
    fun _ _ _ => resolve_eq_none.mpr (by simp [ReconcileService.roleEnvVars])
  have hempty : resolve "CLUSTER_NAME" [] = none := rfl
  simp only [renderSpec, ReconcileService.ownEnvVars, ReconcileService.specificEnvVars,
    resolve_append, hcommon, ReconcileService.customClusterNameFound_common]
  by_cases happ : appOf service = kubernetesCluster
  · cases hfound : customClusterNameFound (upperEnv upper service.spec.env) with
    | true => simp [happ, hrole]
    | false => simp [happ, resolve]
  · by_cases hpool : appOf service = kubernetesNodepool
    · simp [hpool, hrole, kubernetesCluster, kubernetesNodepool]
    · simp [happ, hpool, hempty]

/-- A custom name counts, if it is the last. -/
theorem resolve_of_found {env : List EnvVar} (h : customClusterNameFound env = true) :
    ∃ v, resolve "CLUSTER_NAME" env = some v := by
  obtain ⟨v, hv, hname⟩ := List.any_eq_true.mp h
  refine Option.ne_none_iff_exists'.mp fun hnone => resolve_eq_none.mp hnone ?_
  have hcluster : v.name = "CLUSTER_NAME" := by simp at hname; exact hname.1
  exact List.mem_map.mpr ⟨v, hv, hcluster⟩

/-- The hostname of a replica has the name that counts. -/
theorem specHostname_resolved {hostname : String}
    (happ : appOf service = kubernetesCluster ∨ appOf service = kubernetesNodepool)
    (h : specHostname (appOf service) service.metadata.name (renderSpec upper platform service).env i =
      .ok hostname) :
    ∃ v, resolve "CLUSTER_NAME" (renderSpec upper platform service).env = some v ∧
      hostname = v.value ++ "-" ++ service.metadata.name ++ "-" ++ toString i ∧
      (appOf service = kubernetesNodepool → v.value ≠ "") := by
  have hne : kubernetesNodepool ≠ kubernetesCluster := by decide
  unfold specHostname at h
  rw [clusterNameOf_eq, clusterNameOf_eq] at h
  rcases happ with happ | happ
  · obtain ⟨v, hv⟩ :
        ∃ v, resolve "CLUSTER_NAME" (renderSpec upper platform service).env = some v := by
      rw [resolve_renderSpec]
      split
      · exact ⟨_, rfl⟩
      · rename_i hfound
        exact resolve_of_found (by simpa [happ] using hfound)
    rw [happ, if_pos rfl, hv] at h
    cases h
    exact ⟨v, hv, rfl, fun hpool => absurd (happ.symm.trans hpool).symm hne⟩
  · rw [happ, if_neg hne, if_pos rfl] at h
    cases hv : resolve "CLUSTER_NAME" (renderSpec upper platform service).env with
    | none =>
      rw [hv] at h
      cases h
    | some v =>
      rw [hv] at h
      dsimp only [Option.map_some, Option.getD_some] at h
      split at h
      · cases h
      · rename_i hvalue
        cases h
        exact ⟨v, rfl, rfl, fun _ => hvalue⟩

/-! ## The Nodes -/

/-- What is created, if all names are set. -/
theorem created_of_exec {sort : SliceSort} {env : Cluster → Cluster → Prop} {c c' : Cluster}
    {tr : List (Event Api Cluster)} {o : Outcome (Except Error Unit)}
    (he : Exec (flaky env) (manageNodesForModule sort inst) c tr o c') {e : Event Api Cluster}
    (hm : e ∈ tr) {node : Node} (hop : e.op = .create .node node) :
    serviceNameOf inst.metadata ≠ "" ∧ inst.metadata.ns ≠ "" ∧ ∃ i : Nat, ∃ hostname,
      (i : Int) < inst.spec.replicas ∧
      specHostname (appNameOf inst.metadata) (serviceNameOf inst.metadata) inst.spec.env i =
        .ok hostname ∧
      node = ReconcileModule.newNode (serviceNameOf inst.metadata) inst.metadata.ns hostname i := by
  have hnames : ¬ (appNameOf inst.metadata = "" ∨ serviceNameOf inst.metadata = "" ∨
      inst.metadata.ns = "") := by
    intro hmissing
    obtain ⟨err, herr⟩ := ReconcileModule.manageNodesForModule_error sort hmissing
    rw [herr] at he
    rw [he.ret_trace] at hm
    exact nomatch hm
  have hall : Stable (flaky env) fun _ => True := fun _ _ _ _ => trivial
  have hreports : ReconcileModule.Reports (fun _ _ => True) inst (manageNodesForModule sort inst) _ :=
    ReconcileModule.manageNodesForModule_calls sort
  have hcalls := hreports.invariant hall (fun s op r s' _ _ ha => ⟨flaky_returns ha, trivial⟩) he
    trivial
  have hcall := ((hcalls.2.1 e hm).2).1
  rw [hop] at hcall
  obtain ⟨-, hcreated⟩ := hcall
  exact ⟨fun h => hnames (.inr (.inl h)), fun h => hnames (.inr (.inr h)), hcreated⟩

/-- In a store without Nodes the first one is created. -/
theorem exec_creates (sort : SliceSort) (inst : Module) {hostname : String}
    (happ : appNameOf inst.metadata ≠ "") (hsvc : serviceNameOf inst.metadata ≠ "")
    (hns : inst.metadata.ns ≠ "") (hR : 0 < inst.spec.replicas)
    (hhost : specHostname (appNameOf inst.metadata) (serviceNameOf inst.metadata) inst.spec.env 0 =
      .ok hostname) :
    ∃ tr o c', Exec lossy (manageNodesForModule sort inst) Cluster.empty tr o c' ∧
      ∃ e ∈ tr, e.op = .create .node
        (ReconcileModule.newNode (serviceNameOf inst.metadata) inst.metadata.ns hostname 0) := by
  obtain ⟨k, hk, -, hok⟩ := ReconcileModule.manageNodesForModule_eq sort happ hsvc hns
  obtain ⟨n, hn⟩ : ∃ n, inst.spec.replicas.toNat = n + 1 := ⟨inst.spec.replicas.toNat - 1, by omega⟩
  have hlist : Serves Cluster.empty (.list .node inst.metadata.ns) (.ok []) Cluster.empty :=
    ⟨⟨[], .refl _, rfl⟩, rfl⟩
  obtain ⟨rest, hcreate⟩ : ∃ rest, k (.ok []) = .call (.create .node
      (ReconcileModule.newNode (serviceNameOf inst.metadata) inst.metadata.ns hostname 0)) rest := by
    rw [hok, ReconcileModule.manageListed, ReconcileModule.nodesOfService, List.filter_nil,
      List.length_nil, Int.natCast_zero, if_pos hR, hn,
      List.range_succ_eq_map, ReconcileModule.createNodes, hhost]
    exact ⟨_, rfl⟩
  have hexec : ∃ tr c', Exec lossy (k (.ok [])) Cluster.empty tr .halted c' ∧
      ∃ e ∈ tr, e.op = .create .node
        (ReconcileModule.newNode (serviceNameOf inst.metadata) inst.metadata.ns hostname 0) := by
    rw [hcreate]
    exact ⟨_, _, .call (.inl (serves_serve ..)) (.halt _ _), _, List.mem_cons_self, rfl⟩
  obtain ⟨tr, c', he, e, hm, hop⟩ := hexec
  rw [hk]
  exact ⟨_, _, _, .call (.inl hlist) he, e, List.mem_cons_of_mem _ hm, hop⟩

/-- When the hostnames follow the cluster name of the Job (module doc). -/
theorem follow_cluster_iff {sort : SliceSort} (hm : ModuleOf upper service inst)
    (happ : appOf service = kubernetesCluster ∨ appOf service = kubernetesNodepool) :
    FollowsCluster sort service inst ↔
      (0 < service.spec.replicas → service.metadata.name ≠ "" → service.metadata.ns ≠ "" →
        appOf service = kubernetesCluster → ¬ LastEmpty upper service) := by
  obtain ⟨platform, hspec⟩ := hm.spec
  have hR : inst.spec.replicas = service.spec.replicas := by rw [hspec]; rfl
  constructor
  · rintro hfollows hpos hname hns hcluster ⟨hfound, v, hv, hempty⟩
    have hresolve : resolve "CLUSTER_NAME" inst.spec.env = some v := by
      rw [hspec, resolve_renderSpec, if_neg (by simp [hfound]), hv]
    have hhost : specHostname (appNameOf inst.metadata) (serviceNameOf inst.metadata) inst.spec.env 0 =
        .ok (v.value ++ "-" ++ serviceNameOf inst.metadata ++ "-" ++ toString 0) := by
      rw [specHostname, hm.appName, if_pos hcluster, clusterNameOf_eq, hresolve]
      rfl
    obtain ⟨tr, o, c', he, e, hmem, hop⟩ := exec_creates sort inst
      (by rw [hm.appName, hcluster]; decide) (by rw [hm.serviceName]; exact hname)
      (by rw [hm.inNs]; exact hns) (by omega) hhost
    obtain ⟨v', i, hv', hvalue, -⟩ := hfollows _ _ _ _ _ he e hmem _ hop
    rw [resolve_batchEnvVars, hresolve] at hv'
    cases hv'
    exact hvalue hempty
  · intro hcond env c tr o c' he e hmem node hop
    obtain ⟨hsvc, hns, i, hostname, hi, hhost, rfl⟩ := created_of_exec he hmem hop
    rw [hm.appName, hm.serviceName, hspec] at hhost
    obtain ⟨v, hv, rfl, hpool⟩ := specHostname_resolved happ hhost
    rw [hm.serviceName] at hsvc
    refine ⟨v, i, ?_, ?_, by rw [hm.serviceName]; rfl, rfl⟩
    · rw [resolve_batchEnvVars, hspec, hv]
    · rcases happ with hcluster | happ
      · intro hempty
        rw [resolve_renderSpec] at hv
        split at hv
        · cases hv
          exact hsvc hempty
        · rename_i hfound
          refine hcond (by omega) hsvc (hm.inNs ▸ hns) hcluster ⟨?_, v, hv, hempty⟩
          simpa [hcluster] using hfound
      · exact hpool happ

end

/-! ### A name that is taken back -/

/-- A cluster of one machine with these variables. -/
def namedService (env : List EnvVar) : Service where
  metadata := { name := "web", ns := "default", labels := Finmap.insert "app" kubernetesCluster ∅ }
  spec := { replicas := 1, flavor := "m1", version := "1", env := env }
  status := {}

theorem follow_cluster_prod :
    FollowsCluster insertionSort (namedService [{ name := "cluster_name", value := "prod" }])
      (ReconcileService.renderModule Go.asciiUpper ""
        (namedService [{ name := "cluster_name", value := "prod" }])) ↔
      ((0 : Int) < 1 → "web" ≠ "" → "default" ≠ "" → kubernetesCluster = kubernetesCluster →
        ¬ LastEmpty Go.asciiUpper (namedService [{ name := "cluster_name", value := "prod" }])) :=
  follow_cluster_iff (ReconcileService.Same.moduleOf ⟨rfl, rfl, rfl, rfl⟩) (.inl rfl)

/-- A user that sets the name and then clears it under another spelling. -/
def clearedService : Service :=
  namedService [{ name := "cluster_name", value := "prod" }, { name := "CLUSTER_NAME", value := "" }]

theorem cleared_name_used :
    ¬ ∀ (upper : Go.Upper) (sort : SliceSort) (service : Service) (inst : Module),
      ModuleOf upper service inst →
      appOf service = kubernetesCluster ∨ appOf service = kubernetesNodepool →
      FollowsCluster sort service inst := by
  intro h
  have hm : ModuleOf Go.asciiUpper clearedService
      (ReconcileService.renderModule Go.asciiUpper "" clearedService) :=
    ReconcileService.Same.moduleOf ⟨rfl, rfl, rfl, rfl⟩
  obtain ⟨tr, o, c', he, e, hmem, hop⟩ := exec_creates insertionSort
    (ReconcileService.renderModule Go.asciiUpper "" clearedService)
    (by decide) (by decide) (by decide) (by decide) rfl
  obtain ⟨v, i, hv, hvalue, -⟩ :=
    h _ _ _ _ hm (.inl rfl) _ _ _ _ _ he e hmem _ hop
  rw [show resolve "CLUSTER_NAME" (batchEnvVars
    (ReconcileService.renderModule Go.asciiUpper "" clearedService)) =
      some { name := "CLUSTER_NAME", value := "" } by decide] at hv
  cases hv
  exact hvalue rfl

end Automium
