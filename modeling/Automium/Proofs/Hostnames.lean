import Automium.Effect.Pool
import Automium.Proofs.ModuleCalls
import Automium.Proofs.NodeNames
import Automium.Proofs.ServiceCalls

/-!
# The hostnames of the machines

The reconciles of both controllers run at the same time, with failing calls, on Services that
nobody edits. Every Node then comes from a Service (`Origin`): its name has the name of the
Service and the number of the replica, and its hostname the stem of the Service and that number.
The stem of a Service is its app, or the cluster name and its own name joined with a dash, so two
Services can have one stem. If the stems of the Services with replicas differ, every Node has a
hostname of its own (`hostnames_distinct`).
-/

namespace Automium

open Data Effect

open ReconcileModule (serviceNameOf appNameOf clusterNameOf hostBase specHostname nodeName)

namespace ReconcileService

/-! ## Stems -/

/-- The hostnames of the machines of a Service without the number of the replica. -/
def stemOf (upper : Go.Upper) (service : Service) : Except Error String :=
  hostBase (appOf service) service.metadata.name (renderSpec upper "" service).env

theorem clusterNameOf_append (start : String) (l l' : List EnvVar) :
    clusterNameOf start (l ++ l') = clusterNameOf (clusterNameOf start l) l' :=
  List.foldl_append

/-- The variables of every Service have no cluster name. -/
theorem customClusterNameFound_common (env : List EnvVar) (platform name : String) :
    customClusterNameFound (env ++ commonEnvVars platform name) = customClusterNameFound env := by
  simp [customClusterNameFound, commonEnvVars]

/-- The provider does not matter for the cluster name. -/
theorem clusterNameOf_renderSpec (upper : Go.Upper) (start platform platform' : String)
    (service : Service) :
    clusterNameOf start (renderSpec upper platform service).env =
      clusterNameOf start (renderSpec upper platform' service).env := by
  have hcommon : ∀ start platform, clusterNameOf start
      (commonEnvVars platform service.metadata.name) = start := fun _ _ => rfl
  have hspecific : ∀ platform, specificEnvVars (appOf service) service.metadata.name
      (upperEnv upper service.spec.env ++ commonEnvVars platform service.metadata.name) =
      specificEnvVars (appOf service) service.metadata.name
        (upperEnv upper service.spec.env) := fun platform => by
    unfold specificEnvVars
    rw [customClusterNameFound_common]
  simp only [renderSpec, ownEnvVars, clusterNameOf_append, hcommon, hspecific]

theorem hostBase_renderSpec (upper : Go.Upper) (platform : String) (service : Service) :
    hostBase (appOf service) service.metadata.name (renderSpec upper platform service).env =
      stemOf upper service := by
  unfold stemOf hostBase
  simp only [clusterNameOf_renderSpec upper _ platform ""]

/-! ## Where the objects come from -/

/-- The Module is one rendered from the Service. -/
structure ModuleOf (upper : Go.Upper) (service : Service) (m : Module) : Prop where
  name : m.metadata.name = moduleName service.metadata.name
  inNs : m.metadata.ns = service.metadata.ns
  serviceName : serviceNameOf m.metadata = service.metadata.name
  appName : appNameOf m.metadata = appOf service
  spec : ∃ platform, m.spec = renderSpec upper platform service

/-- The Node is that of a replica of the Service. -/
structure NodeOf (upper : Go.Upper) (service : Service) (i : Nat) (base : String) (node : Node) :
    Prop where
  bound : (i : Int) < service.spec.replicas
  app : appOf service ≠ ""
  stem : stemOf upper service = .ok base
  name : node.metadata.name = nodeName service.metadata.name i
  inNs : node.metadata.ns = service.metadata.ns
  hostname : node.spec.hostname = base ++ "-" ++ toString i

/-- The object comes from a Service of `services`. -/
def Origin (upper : Go.Upper) (services : Tbl .service) : (k : Kind) → k.Obj → Prop
  | .service, o => ∃ service : Service, service ∈ services ∧ Same service o
  | .module, m => ∃ service : Service, service ∈ services ∧ ModuleOf upper service m
  | .node, node => ∃ service : Service, service ∈ services ∧ ∃ i base,
      NodeOf upper service i base node
  | .job, _ | .pod, _ | .addon _, _ | .application, _ => True

section

variable {upper : Go.Upper} {services : Tbl .service} {platform : String}

theorem Same.moduleOf {service o : Service} (h : Same service o) :
    ModuleOf upper service (renderModule upper platform o) where
  name := congrArg moduleName h.name
  inNs := h.inNs
  serviceName := (serviceNameOf_renderModule ..).trans h.name
  appName := by rw [appNameOf_renderModule, appOf, appOf, h.labels]
  spec := ⟨platform, h.renderSpec_eq⟩

/-- A Service has one Module: that of its name. -/
theorem eq_of_moduleName {s t : Service} (hs : s ∈ services) (ht : t ∈ services)
    (hname : moduleName s.metadata.name = moduleName t.metadata.name)
    (hns : s.metadata.ns = t.metadata.ns) : s = t := by
  refine Table.eq_of_key hs ht ?_
  rw [Object.key, Object.key, hns, (String.append_left_inj _).mp hname]

/-- The calls of the Service controller keep the origins. -/
theorem keeps_of_mayCall {op : Request} (h : MayCall upper (Origin upper services) op) :
    op.Keeps (Origin upper services) := by
  unfold MayCall at h
  split at h
  · obtain ⟨platform, inst, ⟨service, hs, hsame⟩, rfl⟩ := h
    obtain ⟨h₁, h₂, h₃, h₄, h₅⟩ : ModuleOf upper service (renderModule upper platform inst) :=
      hsame.moduleOf
    exact fun v => ⟨service, hs, h₁, h₂, h₃, h₄, h₅⟩
  · obtain ⟨platform, inst, found, ⟨service, hs, hsame⟩, ⟨owner, ho, hof⟩, hkey, rfl⟩ := h
    -- The Module found is that of the Service: it has the name of the Service's Module.
    have howner : owner = service := by
      have hm : ModuleOf upper service (renderModule upper platform inst) := hsame.moduleOf
      obtain ⟨hns, hname⟩ := Key.mk.inj hkey
      exact eq_of_moduleName ho hs (hof.name.symm.trans (hname.trans hm.name))
        (hof.inNs.symm.trans (hns.trans hm.inNs))
    subst howner
    exact fun old v _ _ => ⟨owner, ho, hof.name, hof.inNs, hof.serviceName, hof.appName,
      platform, hsame.renderSpec_eq⟩
  · rintro old v ⟨service, hs, h₁, h₂, h₃, h₄⟩ -
    exact ⟨service, hs, h₁, h₂, h₃, h₄⟩
  · cases op with
    | create k o => obtain ⟨a, rfl⟩ := h k rfl; exact fun _ => trivial
    | update k o | updateStatus k o => obtain ⟨a, rfl⟩ := h k rfl; exact fun _ _ _ _ => trivial
    | get | list | delete | now | getenv | slack => trivial

/-- The Node created for a replica of a Module is that of the Service of the Module. -/
theorem ModuleOf.nodeOf {service : Service} {inst : Module} (h : ModuleOf upper service inst)
    {i : Nat} {hostname : String} (happ : appNameOf inst.metadata ≠ "")
    (hi : (i : Int) < inst.spec.replicas)
    (hhost : specHostname (appNameOf inst.metadata) (serviceNameOf inst.metadata) inst.spec.env i =
      .ok hostname) :
    ∃ base, NodeOf upper service i base
      (ReconcileModule.newNode (serviceNameOf inst.metadata) inst.metadata.ns hostname i) := by
  obtain ⟨platform, hspec⟩ := h.spec
  rw [ReconcileModule.specHostname_eq, h.appName, h.serviceName, hspec, hostBase_renderSpec] at hhost
  cases hstem : stemOf upper service with
  | error e => rw [hstem] at hhost; cases hhost
  | ok base =>
    rw [hstem] at hhost
    cases hhost
    rw [hspec] at hi
    exact ⟨base, hi, h.appName ▸ happ, hstem, by rw [h.serviceName]; rfl, h.inNs, rfl⟩

/-- The calls of the Module controller keep the origins. -/
theorem keeps_of_moduleCall {inst : Module} {op : Request}
    (hinst : Origin upper services .module inst)
    (h : ReconcileModule.MayCall (Origin upper services) inst op) :
    op.Keeps (Origin upper services) := by
  unfold ReconcileModule.MayCall at h
  split at h
  · trivial
  · trivial
  · trivial
  · obtain ⟨happ, i, hostname, hi, hhost, rfl⟩ := h
    obtain ⟨service, hs, hof⟩ := hinst
    obtain ⟨base, h₁, h₂, h₃, h₄, h₅, h₆⟩ := hof.nodeOf happ hi hhost
    exact fun v => ⟨service, hs, i, base, h₁, h₂, h₃, h₄, h₅, h₆⟩
  · exact fun v => trivial
  · obtain ⟨item, date, ⟨service, hs, i, base, h₁, h₂, h₃, h₄, h₅, h₆⟩, rfl⟩ := h
    exact fun old v _ _ => ⟨service, hs, i, base, h₁, h₂, h₃, h₄, h₅, h₆⟩
  · rintro old v ⟨service, hs, h₁, h₂, h₃, h₄, h₅⟩ -
    exact ⟨service, hs, h₁, h₂, h₃, h₄, h₅⟩
  · trivial
  · trivial
  · trivial
  · exact h.elim

end

/-! ## Runs -/

/-- The other actors (the Job controller, the node controller, users who look) may change the
status and the version of an object, remove objects, and do anything to Jobs and pods. -/
def Others (c c' : Cluster) : Prop :=
  ∀ k, k ≠ .job → k ≠ .pod → ∀ o : k.Obj, o ∈ c'.tbl k → ∃ old : k.Obj, old ∈ c.tbl k ∧
    o.metadata.name = old.metadata.name ∧ o.metadata.ns = old.metadata.ns ∧
    o.metadata.labels = old.metadata.labels ∧ o.metadata.annotations = old.metadata.annotations ∧
    o.spec = old.spec

/-- The reconciles of both controllers. -/
def IsReconcile (upper : Go.Upper) (sort : SliceSort) (p : Ctl (Except Error Result)) : Prop :=
  ∃ request, p = Reconcile upper request ∨ p = ReconcileModule.Reconcile sort request

/-- The controllers at work on the store `c₀`. -/
def controllers (upper : Go.Upper) (sort : SliceSort) (c₀ : Cluster) :
    Sys (Pool Api Cluster (Except Error Result)) Pool.Move :=
  Pool.sys (flaky Others) (IsReconcile upper sort) (· = c₀)

/-- Services in one namespace, and no Modules and Nodes yet. -/
structure OnlyServices (c : Cluster) : Prop where
  oneNs : ∀ s t : Service, s ∈ c.tbl .service → t ∈ c.tbl .service → s.metadata.ns = t.metadata.ns
  noModules : ∀ m : Module, ¬ m ∈ c.tbl .module
  noNodes : ∀ node : Node, ¬ node ∈ c.tbl .node

/-- The Service gets Nodes whose hostnames have the stem. -/
structure HasStem (upper : Go.Upper) (service : Service) (base : String) : Prop where
  replicas : service.spec.replicas > 0
  app : appOf service ≠ ""
  stem : stemOf upper service = .ok base

/-- No two Services get Nodes with one stem. -/
def Separate (upper : Go.Upper) (c : Cluster) : Prop :=
  ∀ s t : Service, s ∈ c.tbl .service → t ∈ c.tbl .service → ∀ base,
    HasStem upper s base → HasStem upper t base → s.metadata.name = t.metadata.name

/-- Different Nodes have different hostnames. -/
def OwnHostnames (c : Cluster) : Prop :=
  ∀ x y : Node, x ∈ c.tbl .node → y ∈ c.tbl .node → x.spec.hostname = y.spec.hostname → x = y

section

variable {upper : Go.Upper} {sort : SliceSort} {c c' c₀ : Cluster} {services : Tbl .service}

theorem OnlyServices.origins (h : OnlyServices c) : c.All (Origin upper (c.tbl .service)) := by
  intro k o ho
  cases k with
  | service => exact ⟨o, ho, rfl, rfl, rfl, rfl⟩
  | module => exact (h.noModules o ho).elim
  | node => exact (h.noNodes o ho).elim
  | job | pod | addon | application => trivial

theorem Others.origins (h : Others c c') (hc : c.All (Origin upper services)) :
    c'.All (Origin upper services) := by
  intro k o ho
  cases k with
  | service =>
    obtain ⟨old, hold, e₁, e₂, e₃, -, e₅⟩ := h .service nofun nofun o ho
    obtain ⟨service, hs, h₁, h₂, h₃, h₄⟩ := hc .service old hold
    exact ⟨service, hs, e₁.trans h₁, e₂.trans h₂, e₃.trans h₃, e₅.trans h₄⟩
  | module =>
    obtain ⟨old, hold, e₁, e₂, -, e₄, e₅⟩ := h .module nofun nofun o ho
    obtain ⟨service, hs, h₁, h₂, h₃, h₄, platform, h₅⟩ := hc .module old hold
    refine ⟨service, hs, e₁.trans h₁, e₂.trans h₂, ?_, ?_, platform, e₅.trans h₅⟩
    · rw [← h₃, serviceNameOf, serviceNameOf, e₄]
    · rw [← h₄, appNameOf, appNameOf, e₄]
  | node =>
    obtain ⟨old, hold, e₁, e₂, -, -, e₅⟩ := h .node nofun nofun o ho
    obtain ⟨service, hs, i, base, h₁, h₂, h₃, h₄, h₅, h₆⟩ := hc .node old hold
    exact ⟨service, hs, i, base, h₁, h₂, h₃, e₁.trans h₄, e₂.trans h₅,
      (congrArg NodeSpec.hostname e₅).trans h₆⟩
  | job | pod | addon | application => trivial

/-- Every object of a run comes from a Service of the start. -/
theorem origins_of_run (hinit : OnlyServices c₀)
    {ts : List (Trans (Pool Api Cluster (Except Error Result)) Pool.Move)}
    {p : Pool Api Cluster (Except Error Result)} (h : Run (controllers upper sort c₀) ts p) :
    p.state.All (Origin upper (c₀.tbl .service)) := by
  refine Cluster.All.pool ?_ ?_ (fun _ _ hc h => h.origins hc) h
  · rintro p ⟨request, rfl | rfl⟩
    · exact (Reconcile_calls request).mono (fun _ _ h => h.returns) (fun _ h => keeps_of_mayCall h)
        fun _ h => h
    · exact ReconcileModule.Reconcile_keeps (fun _ _ => keeps_of_moduleCall) sort request
  · rintro c rfl
    exact hinit.origins

/-- With different stems, every Node of a run has a hostname of its own. -/
theorem hostnames_distinct (hinit : OnlyServices c₀) (hsep : Separate upper c₀)
    {ts : List (Trans (Pool Api Cluster (Except Error Result)) Pool.Move)}
    {p : Pool Api Cluster (Except Error Result)} (h : Run (controllers upper sort c₀) ts p) :
    OwnHostnames p.state := by
  have horigins : p.state.All (Origin upper (c₀.tbl .service)) := origins_of_run hinit h
  intro x y hx hy hhost
  obtain ⟨s, hs, i, base, hxof⟩ := horigins .node x hx
  obtain ⟨t, ht, j, base', hyof⟩ := horigins .node y hy
  rw [hxof.hostname, hyof.hostname] at hhost
  obtain ⟨rfl, rfl⟩ := Go.dash_inj hhost
  have hxstem : HasStem upper s base := ⟨by have := hxof.bound; omega, hxof.app, hxof.stem⟩
  have hystem : HasStem upper t base := ⟨by have := hyof.bound; omega, hyof.app, hyof.stem⟩
  have hname : s.metadata.name = t.metadata.name := hsep s t hs ht base hxstem hystem
  refine Table.eq_of_key hx hy ?_
  rw [Object.key, Object.key, hxof.name, hyof.name, hxof.inNs, hyof.inNs, hname,
    hinit.oneNs s t hs ht]

end

/-! ### Two services of one app -/

/-- A Service of one replica. -/
def appService (name app : String) : Service where
  metadata := { name := name, ns := "default", labels := Finmap.insert "app" app ∅ }
  spec := { replicas := 1, flavor := "m1", version := "1" }
  status := {}

/-- A store with two Services. -/
def twoServices (s t : Service) : Cluster :=
  Cluster.empty.setTbl .service ((Table.empty.put s).put t)

theorem mem_twoServices {s t o : Service} (h : o ∈ (twoServices s t).tbl .service) :
    o = t ∨ o = s := by
  rw [twoServices, Cluster.setTbl_self] at h
  rcases Table.mem_put.mp h with rfl | ⟨h, -⟩
  · exact .inl rfl
  · rcases Table.mem_put.mp h with rfl | ⟨h, -⟩
    · exact .inr rfl
    · exact (Table.not_mem_empty h).elim

theorem twoServices_only {s t : Service} (h : s.metadata.ns = t.metadata.ns) :
    OnlyServices (twoServices s t) where
  oneNs x y hx hy := by
    rcases mem_twoServices hx with rfl | rfl <;> rcases mem_twoServices hy with rfl | rfl <;>
      simp [h]
  noModules m hm := Table.not_mem_empty hm
  noNodes node hn := Table.not_mem_empty hn

/-- The reconciles of a Service until its Node is there: of the Service, which creates the Module,
and twice of the Module, which creates the Job and then the Node. -/
def deployment (name : String) : List (Ctl (Except Error Result)) :=
  [Reconcile Go.asciiUpper ⟨"default", name⟩,
   ReconcileModule.Reconcile insertionSort ⟨"default", moduleName name⟩,
   ReconcileModule.Reconcile insertionSort ⟨"default", moduleName name⟩]

/-- The store after two Services are deployed. -/
def deployed (s t : Service) : Cluster :=
  (deployment s.metadata.name ++ deployment t.metadata.name).foldl
    (fun c p => (run serve p c).final) (twoServices s t)

theorem run_deployed (s t : Service) : ∃ ts, Run
    (controllers Go.asciiUpper insertionSort (twoServices s t)) ts ⟨deployed s t, []⟩ := by
  have hserve : ∀ c op, (flaky Others).answer c op (serve c op).1 (serve c op).2 :=
    fun c op => .inl (serves_serve c op)
  refine Pool.run_all hserve (fun p hp => ?_) (.nil ⟨rfl, rfl⟩)
  have hall : ∀ name, ∀ p ∈ deployment name, IsReconcile Go.asciiUpper insertionSort p := by
    intro name p hp
    simp only [deployment, List.mem_cons, List.not_mem_nil, or_false] at hp
    rcases hp with rfl | rfl | rfl
    · exact ⟨_, .inl rfl⟩
    · exact ⟨_, .inr rfl⟩
    · exact ⟨_, .inr rfl⟩
  exact (List.mem_append.mp hp).elim (hall _ p) (hall _ p)

/-- With two apps, the Nodes of two Services have different hostnames. -/
theorem hostnames_distinct_nginx_mysql :
    OwnHostnames (deployed (appService "shop" "nginx") (appService "users" "mysql")) := by
  have honly : OnlyServices (twoServices (appService "shop" "nginx") (appService "users" "mysql")) :=
    twoServices_only rfl
  have hstems : stemOf Go.asciiUpper (appService "shop" "nginx") ≠
    stemOf Go.asciiUpper (appService "users" "mysql") := by decide
  obtain ⟨ts, h⟩ := run_deployed (appService "shop" "nginx") (appService "users" "mysql")
  refine hostnames_distinct honly (fun s t hs ht base hsb htb => ?_) h
  rcases mem_twoServices hs with rfl | rfl <;> rcases mem_twoServices ht with rfl | rfl
  · rfl
  · exact absurd (htb.stem.trans hsb.stem.symm) hstems
  · exact absurd (hsb.stem.trans htb.stem.symm) hstems
  · rfl

/-- Two Services of one app get Nodes of one hostname. -/
theorem one_hostname_twice :
    ¬ ∀ (upper : Go.Upper) (sort : SliceSort) (c₀ : Cluster)
      (ts : List (Trans (Pool Api Cluster (Except Error Result)) Pool.Move))
      (p : Pool Api Cluster (Except Error Result)),
      OnlyServices c₀ → Run (controllers upper sort c₀) ts p → OwnHostnames p.state := by
  intro h
  obtain ⟨ts, hr⟩ := run_deployed (appService "shop" "nginx") (appService "blog" "nginx")
  have honly : OnlyServices (twoServices (appService "shop" "nginx") (appService "blog" "nginx")) :=
    twoServices_only rfl
  have hown := h _ _ _ ts _ honly hr
  have hhost : ∀ name ∈ ["shop", "blog"],
      (((deployed (appService "shop" "nginx") (appService "blog" "nginx")).find? .node
        ⟨"default", nodeName name 0⟩).map fun node => node.spec.hostname) = some "nginx-0" := by
    decide
  obtain ⟨x, hx, hxhost⟩ := Option.map_eq_some_iff.mp (hhost "shop" (by simp))
  obtain ⟨y, hy, hyhost⟩ := Option.map_eq_some_iff.mp (hhost "blog" (by simp))
  have hxy := hown x y (find?_mem hx) (find?_mem hy) (hxhost.trans hyhost.symm)
  have hkey : (⟨"default", nodeName "shop" 0⟩ : Key) = ⟨"default", nodeName "blog" 0⟩ :=
    (find?_key hx).symm.trans ((congrArg Object.key hxy).trans (find?_key hy))
  exact absurd hkey (by decide)

end ReconcileService

end Automium
