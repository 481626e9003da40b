import Automium.Api.Collect
import Automium.Proofs.Creations
import Automium.Proofs.Extras
import Automium.Proofs.Hostnames

/-!
# What a deleted Service leaves behind

The Service, Module and extras controllers run at the same time, on Services that users edit. A
Module, a Job and an Application get a controller reference to their owner; a Node and an extra get
none (`Made`). So when a Service is deleted, the garbage collector removes everything that was
created for it exactly if there are no Nodes and no extras (`leftovers_iff`). In the runs in which
no two versions of a Service want a Node or an extra, nothing is left (`nothing_left`).
`all_of_run` is the rule for what holds of the stored objects in every run of these controllers.
-/

namespace Automium

open Data Effect

open ReconcileModule (serviceNameOf appNameOf hostBase specHostname jobName)

namespace ReconcileService

/-! ## The objects of the controllers -/

/-- A Module made for the version `a` of a Service with the spec of the version `b` gets Nodes. -/
def WantsNode (upper : Go.Upper) (a b : Service) : Prop :=
  0 < b.spec.replicas ∧ appOf a ≠ "" ∧
    ∃ base, hostBase (appOf a) a.metadata.name (renderSpec upper "" b).env = .ok base

/-- The Module was made for the version `a` of a Service and has the spec of the version `b`. -/
structure ModuleFrom (upper : Go.Upper) (a b : Service) (m : Module) : Prop where
  name : m.metadata.name = moduleName a.metadata.name
  inNs : m.metadata.ns = a.metadata.ns
  serviceName : serviceNameOf m.metadata = a.metadata.name
  appName : appNameOf m.metadata = appOf a
  spec : ∃ platform, m.spec = renderSpec upper platform b
  owned : Owned Kind.service.kindName a.metadata.name m.metadata

/-- What the controllers store, when the versions of the Services are those in `V`. -/
def Made (upper : Go.Upper) (V : Service → Prop) : (k : Kind) → k.Obj → Prop
  | .service, o => ∃ s, V s ∧ Same s o
  | .module, m => ∃ a b, V a ∧ V b ∧ a.key = b.key ∧ ModuleFrom upper a b m
  | .job, job => ∃ name, job.metadata.name = jobName name ∧
      Owned Kind.module.kindName name job.metadata
  | .node, node => node.metadata.ownerReferences = [] ∧
      ∃ a b, V a ∧ V b ∧ a.key = b.key ∧ WantsNode upper a b
  | .pod, _ => True
  | .addon _, o => o.metadata.ownerReferences = [] ∧ ∃ s, V s ∧ WantsExtra s
  | .application, o => ∃ a name, o.metadata.name = name ++ "-app" ∧
      Owned (Kind.addon a).kindName name o.metadata

section

variable {upper : Go.Upper} {V : Service → Prop} {platform : String}

theorem Same.wantsExtra {s o : Service} (h : Same s o) (hw : WantsExtra o) : WantsExtra s := by
  obtain ⟨happ, hr, extraSpec, rest, hextra, hc⟩ := hw
  rw [h.spec] at hr hextra
  exact ⟨h.appOf_eq.symm.trans happ, hr, extraSpec, rest, hextra, hc⟩

/-- The Module rendered from a version of a Service, when it is created. -/
theorem Same.moduleFrom {s o : Service} (h : Same s o) (v : Nat) :
    ModuleFrom upper s s (newObj .module (renderModule upper platform o) v) where
  name := congrArg moduleName h.name
  inNs := h.inNs
  serviceName := (serviceNameOf_renderModule upper platform o).trans h.name
  appName := (appNameOf_renderModule upper platform o).trans h.appOf_eq
  spec := ⟨platform, h.renderSpec_eq⟩
  owned := h.name ▸ owned_controllerReference _ o.metadata rfl

/-- The calls of the Service controller. -/
theorem made_of_serviceCall {op : Request}
    (h : MayCall upper (Made upper V) op ∧ MayCreate (Made upper V) op) :
    op.Keeps (Made upper V) := by
  obtain ⟨h, hcreate⟩ := h
  unfold MayCall at h
  split at h
  · obtain ⟨platform, inst, ⟨s, hs, hsame⟩, rfl⟩ := h
    exact fun v => ⟨s, s, hs, hs, rfl, hsame.moduleFrom v⟩
  · obtain ⟨platform, inst, found, ⟨s, hs, hsame⟩, ⟨a, b, ha, -, -, hfrom⟩, hkey, rfl⟩ := h
    -- The Module found is that of the Service, so it was made for another version of it.
    have hkeys : a.key = s.key := by
      obtain ⟨hns, hname⟩ := Key.mk.inj hkey
      have hname : moduleName a.metadata.name = moduleName s.metadata.name :=
        hfrom.name.symm.trans (hname.trans (congrArg moduleName hsame.name))
      rw [Object.key, Object.key, (String.append_left_inj _).mp hname,
        hfrom.inNs.symm.trans (hns.trans hsame.inNs)]
    exact fun old v _ _ => ⟨a, s, ha, hs, hkeys, hfrom.name, hfrom.inNs, hfrom.serviceName,
      hfrom.appName, ⟨platform, hsame.renderSpec_eq⟩, hfrom.owned⟩
  · rintro old v ⟨s, hs, h₁, h₂, h₃, h₄⟩ -
    exact ⟨s, hs, h₁, h₂, h₃, h₄⟩
  · cases op with
    | create k o =>
      obtain ⟨a, rfl⟩ := h k rfl
      obtain ⟨hrefs, service, ⟨s, hs, hsame⟩, hw⟩ := hcreate
      exact fun v => ⟨hrefs, s, hs, hsame.wantsExtra hw⟩
    | update k o =>
      obtain ⟨a, rfl⟩ := h k rfl
      exact fun old v hold _ => ⟨hcreate, hold.2⟩
    | updateStatus k o =>
      obtain ⟨a, rfl⟩ := h k rfl
      exact fun old v hold _ => hold
    | get | list | delete | now | getenv | slack => trivial

theorem hostBase_platform (app name : String) (b : Service) :
    hostBase app name (renderSpec upper platform b).env =
      hostBase app name (renderSpec upper "" b).env := by
  unfold hostBase
  simp only [clusterNameOf_renderSpec upper _ platform ""]

/-- The calls of the Module controller. -/
theorem made_of_moduleCall {inst : Module} {op : Request} (hinst : Made upper V .module inst)
    (h : ReconcileModule.MayCall (Made upper V) inst op) : op.Keeps (Made upper V) := by
  unfold ReconcileModule.MayCall at h
  split at h
  · trivial
  · trivial
  · trivial
  · obtain ⟨happ, i, hostname, hi, hhost, rfl⟩ := h
    obtain ⟨a, b, ha, hb, hkey, hfrom⟩ := hinst
    obtain ⟨platform, hspec⟩ := hfrom.spec
    rw [ReconcileModule.specHostname_eq, hfrom.appName, hfrom.serviceName, hspec,
      hostBase_platform] at hhost
    cases hbase : hostBase (appOf a) a.metadata.name (renderSpec upper "" b).env with
    | error e => rw [hbase] at hhost; cases hhost
    | ok base =>
      have hr : (i : Int) < b.spec.replicas := by rw [hspec] at hi; exact hi
      exact fun v => ⟨rfl, a, b, ha, hb, hkey, by omega, hfrom.appName ▸ happ, base, hbase⟩
  · obtain ⟨command, rfl⟩ := h
    exact fun v => ⟨inst.metadata.name, rfl, owned_controllerReference _ inst.metadata rfl⟩
  · obtain ⟨item, date, hitem, rfl⟩ := h
    exact fun old v _ _ => hitem
  · rintro old v ⟨a, b, ha, hb, hkey, h₁, h₂, h₃, h₄, h₅, h₆⟩ -
    exact ⟨a, b, ha, hb, hkey, h₁, h₂, h₃, h₄, h₅, h₆⟩
  · trivial
  · trivial
  · trivial
  · exact h.elim

/-- The calls of the extras controllers. -/
theorem made_of_addonCall {a : Addon} {name ns : String} {op : Request}
    (h : AddonCall a name ns (Made upper V) op) : op.Keeps (Made upper V) := by
  unfold AddonCall at h
  split at h
  · trivial
  · obtain ⟨inst, -, rfl⟩ := h
    exact fun v => ⟨a, inst.metadata.name, rfl, owned_controllerReference _ inst.metadata rfl⟩
  · obtain ⟨found, spec, hfound, rfl⟩ := h
    exact fun old v _ _ => hfound
  · exact h.elim

end

/-! ## Runs -/

/-- The object is the old one with another version and another status. -/
def SameBut {k : Kind} (old o : k.Obj) : Prop :=
  (∃ v, o.metadata = { old.metadata with resourceVersion := v }) ∧ o.spec = old.spec

/-- A step of the other actors: users edit the Services into versions in `V`, remove objects and do
anything to pods, and other controllers write statuses. -/
structure Edited (V : Service → Prop) (c c' : Cluster) : Prop where
  services : ∀ o : Service, o ∈ c'.tbl .service → ∃ s, V s ∧ Same s o
  others : ∀ k, k ≠ .service → k ≠ .pod → ∀ o : k.Obj, o ∈ c'.tbl k →
    ∃ old : k.Obj, old ∈ c.tbl k ∧ SameBut old o

/-- The reconciles of the five controllers. -/
def IsController (upper : Go.Upper) (sort : SliceSort) (p : Ctl (Except Error Result)) : Prop :=
  ∃ request, p = Reconcile upper request ∨ p = ReconcileModule.Reconcile sort request ∨
    p = ReconcileMonitoring.Reconcile request ∨ p = ReconcileBackup.Reconcile request ∨
    p = ReconcileLogging.Reconcile request

/-- A store with Services and pods only. -/
structure Unserved (V : Service → Prop) (c : Cluster) : Prop where
  services : ∀ o : Service, o ∈ c.tbl .service → ∃ s, V s ∧ Same s o
  none : ∀ k, k ≠ .service → k ≠ .pod → ∀ o : k.Obj, ¬ o ∈ c.tbl k

/-- The controllers at work, while users write the versions `V` of their Services. -/
def allControllers (upper : Go.Upper) (sort : SliceSort) (V : Service → Prop) :
    Sys (Pool Api Cluster (Except Error Result)) Pool.Move :=
  Pool.sys (flaky (Edited V)) (IsController upper sort) (Unserved V)

section

variable {upper : Go.Upper} {sort : SliceSort} {V : Service → Prop} {c c' : Cluster}

/-- What holds of the Services and the pods. -/
theorem Unserved.all {P : (k : Kind) → k.Obj → Prop} (h : Unserved V c)
    (hservice : ∀ o : Service, (∃ s, V s ∧ Same s o) → P .service o) (hpod : ∀ o : Pod, P .pod o) :
    c.All P := by
  intro k o ho
  by_cases hs : k = .service
  · subst hs; exact hservice o (h.services o ho)
  · by_cases hp : k = .pod
    · subst hp; exact hpod o
    · exact (h.none k hs hp o ho).elim

theorem Unserved.made (h : Unserved V c) : c.All (Made upper V) :=
  h.all (fun _ ho => ho) fun _ => trivial

theorem Edited.made (h : Edited V c c') (hc : c.All (Made upper V)) : c'.All (Made upper V) := by
  intro k o ho
  by_cases hs : k = .service
  · subst hs; exact h.services o ho
  by_cases hp : k = .pod
  · subst hp; trivial
  obtain ⟨old, hold, ⟨v, hmeta⟩, hspec⟩ := h.others k hs hp o ho
  have hmade := hc k old hold
  obtain ⟨metadata, spec, status⟩ := o
  dsimp only at hmeta hspec
  subst hmeta hspec
  cases k with
  | service => exact absurd rfl hs
  | pod => trivial
  | module =>
    obtain ⟨a, b, ha, hb, hkey, h₁, h₂, h₃, h₄, h₅, h₆⟩ := hmade
    exact ⟨a, b, ha, hb, hkey, h₁, h₂, h₃, h₄, h₅, h₆⟩
  | job | node | addon | application => exact hmade

/-- What every call of the controllers keeps, and the other actors keep, holds in every run. -/
theorem all_of_run {P : (k : Kind) → k.Obj → Prop} {env : Cluster → Cluster → Prop}
    {init : Cluster → Prop} (hservice : ∀ op, ReconcileCall upper P op → op.Keeps P)
    (hmodule : ∀ inst op, P .module inst → ReconcileModule.MayCall P inst op → op.Keeps P)
    (haddon : ∀ a name ns op, AddonCall a name ns P op → op.Keeps P)
    (hinit : ∀ c, init c → c.All P) (henv : ∀ c c', c.All P → env c c' → c'.All P)
    {ts : List (Trans (Pool Api Cluster (Except Error Result)) Pool.Move)}
    {p : Pool Api Cluster (Except Error Result)}
    (h : Run (Pool.sys (flaky env) (IsController upper sort) init) ts p) : p.state.All P := by
  have haddons : ∀ a name ns request, Obeys (S := Api) (Request.Replies P) (Request.Keeps P)
      (reconcileAddon a name ns request) fun _ => True :=
    fun a name ns request => (reconcileAddon_calls P a name ns request).mono
      (fun _ _ h => h.returns) (haddon a name ns) fun _ h => h
  refine Cluster.All.pool ?_ hinit henv h
  rintro p ⟨request, rfl | rfl | rfl | rfl | rfl⟩
  · exact (Reconcile_manages upper request).mono (fun _ _ h => h) hservice fun _ h => h
  · exact ReconcileModule.Reconcile_keeps hmodule sort request
  · exact haddons ..
  · exact haddons ..
  · exact haddons ..

/-- What is stored in a run. -/
theorem made_of_run {ts : List (Trans (Pool Api Cluster (Except Error Result)) Pool.Move)}
    {p : Pool Api Cluster (Except Error Result)} (h : Run (allControllers upper sort V) ts p) :
    p.state.All (Made upper V) := by
  refine all_of_run (fun op hop => ?_) (fun _ _ => made_of_moduleCall)
    (fun _ _ _ _ => made_of_addonCall) (fun _ h => h.made) (fun _ _ hc h => h.made hc) h
  exact made_of_serviceCall ⟨hop.mayCall, hop.mayCreate fun _ _ h => h.1⟩

/-! ## The deletion of a Service -/

/-- The object was created on behalf of the Service of the key. -/
def OnBehalf (key : Key) : (k : Kind) → k.Obj → Prop
  | .module, m => m.key = ⟨key.ns, moduleName key.name⟩
  | .job, job => job.key = ⟨key.ns, jobName (moduleName key.name)⟩
  | .node, node => node.metadata.ns = key.ns ∧ serviceNameOf node.metadata = key.name
  | .addon _, o => o.metadata.ns = key.ns ∧ serviceNameOf o.metadata = key.name
  | .application, o => ∃ a, o.key = ⟨key.ns, key.name ++ suffixOf a ++ "-app"⟩
  | .service, _ | .pod, _ => False

/-- When a Service is deleted, the garbage collector removes all that was created on its behalf. -/
def NothingLeft (c : Cluster) : Prop :=
  ∀ key k, ∀ o : k.Obj, o ∈ c.tbl k → OnBehalf key k o → Collected c key k o

theorem collected_module (hc : c.All (Made upper V)) {key : Key} {m : Module}
    (hm : m ∈ c.tbl .module) (hkey : m.key = ⟨key.ns, moduleName key.name⟩) :
    Collected c key .module m := by
  obtain ⟨a, b, -, -, -, hfrom⟩ := hc .module m hm
  obtain ⟨hns, hname⟩ := Key.mk.inj hkey
  have ha : a.metadata.name = key.name := (String.append_left_inj _).mp (hfrom.name.symm.trans hname)
  exact .service (ha ▸ hfrom.owned) hns

/-- Nothing is left exactly if there are no Nodes and no extras. -/
theorem leftovers_iff (hc : c.All (Made upper V)) :
    NothingLeft c ↔
      (∀ node : Node, ¬ node ∈ c.tbl .node) ∧ ∀ a, ∀ o : AddonObj, ¬ o ∈ c.tbl (.addon a) := by
  constructor
  · intro h
    refine ⟨fun node hn => ?_, fun a o ho => ?_⟩
    · exact (h ⟨_, _⟩ .node node hn ⟨rfl, rfl⟩).references_ne_nil (hc .node node hn).1
    · exact (h ⟨_, _⟩ (.addon a) o ho ⟨rfl, rfl⟩).references_ne_nil (hc (.addon a) o ho).1
  · rintro ⟨hnodes, haddons⟩ key k o ho hkey
    have hmade := hc k o ho
    cases k with
    | service | pod => exact hkey.elim
    | node => exact (hnodes o ho).elim
    | addon a => exact (haddons a o ho).elim
    | module => exact collected_module hc ho hkey
    | job =>
      obtain ⟨name, hname, howned⟩ := hmade
      obtain ⟨hns, hname'⟩ := Key.mk.inj hkey
      obtain rfl : name = moduleName key.name :=
        (String.append_left_inj _).mp (hname.symm.trans hname')
      refine collected_of_owned howned fun m hm => ?_
      exact collected_module hc (find?_mem hm) ((find?_key hm).trans (by rw [hns]))
    | application =>
      obtain ⟨a, name, -, howned⟩ := hmade
      exact @collected_of_owned _ _ .application (.addon a) _ _ howned fun o ho =>
        (haddons a o (find?_mem ho)).elim

/-- No version of a Service wants an extra, and no two versions of one Service want a Node. -/
def Barren (upper : Go.Upper) (V : Service → Prop) : Prop :=
  (∀ a b, V a → V b → a.key = b.key → ¬ WantsNode upper a b) ∧ ∀ s, V s → ¬ WantsExtra s

/-- In the runs with such Services, a deleted Service leaves nothing behind. -/
theorem nothing_left (hV : Barren upper V)
    {ts : List (Trans (Pool Api Cluster (Except Error Result)) Pool.Move)}
    {p : Pool Api Cluster (Except Error Result)} (h : Run (allControllers upper sort V) ts p) :
    NothingLeft p.state := by
  have hmade := made_of_run h
  refine (leftovers_iff hmade).mpr ⟨fun node hn => ?_, fun a o ho => ?_⟩
  · obtain ⟨-, a, b, ha, hb, hkey, hw⟩ := hmade .node node hn
    exact hV.1 a b ha hb hkey hw
  · obtain ⟨-, s, hs, hw⟩ := hmade (.addon a) o ho
    exact hV.2 s hs hw

end

/-! ### A Service with one machine -/

/-- A store with one Service. -/
def oneService (service : Service) : Cluster :=
  Cluster.empty.setTbl .service (Table.empty.put service)

theorem unserved_oneService (service : Service) : Unserved (· = service) (oneService service) where
  services o ho := by
    rw [oneService, Cluster.setTbl_self] at ho
    obtain rfl := (Table.mem_put.mp ho).resolve_right fun h => Table.not_mem_empty h.1
    exact ⟨o, rfl, rfl, rfl, rfl, rfl⟩
  none k hs _ o ho := by
    rw [oneService, Cluster.setTbl_ne _ _ hs] at ho
    exact (Table.not_mem_empty ho).elim

/-- The store after the Service `shop` is deployed. -/
def shopDeployed (service : Service) : Cluster :=
  (deployment "shop").foldl (fun s p => (run serve p s).final) (oneService service)

theorem run_shop (env : Cluster → Cluster → Prop) (service : Service) :
    ∃ ts, Run (Pool.sys (flaky env) (IsController Go.asciiUpper insertionSort)
      (Unserved (· = service))) ts ⟨shopDeployed service, []⟩ := by
  have hserve : ∀ c op, (flaky env).answer c op (serve c op).1 (serve c op).2 :=
    fun c op => .inl (serves_serve c op)
  refine Pool.run_all hserve (fun p hp => ?_) (.nil ⟨unserved_oneService service, rfl⟩)
  simp only [deployment, List.mem_cons, List.not_mem_nil, or_false] at hp
  rcases hp with rfl | rfl | rfl
  · exact ⟨_, .inl rfl⟩
  · exact ⟨_, .inr (.inl rfl)⟩
  · exact ⟨_, .inr (.inl rfl)⟩

/-- The Node of the Service has no owner, so it survives the Service. -/
theorem node_left_behind :
    ¬ ∀ (upper : Go.Upper) (sort : SliceSort) (V : Service → Prop)
      (ts : List (Trans (Pool Api Cluster (Except Error Result)) Pool.Move))
      (p : Pool Api Cluster (Except Error Result)),
      Run (allControllers upper sort V) ts p → NothingLeft p.state := by
  intro h
  obtain ⟨ts, hr⟩ := run_shop (Edited _) (appService "shop" "nginx")
  have hrefs : ((shopDeployed (appService "shop" "nginx")).find? .node
      ⟨"default", ReconcileModule.nodeName "shop" 0⟩).map
        (fun node => node.metadata.ownerReferences) = some [] := by decide
  obtain ⟨node, hn, hnil⟩ := Option.map_eq_some_iff.mp hrefs
  have hleft := h _ _ _ ts _ hr ⟨_, _⟩ .node node (find?_mem hn) ⟨rfl, rfl⟩
  exact hleft.references_ne_nil hnil

/-- A Service without replicas. -/
def idleService : Service :=
  { appService "shop" "nginx" with spec := { replicas := 0, flavor := "m1", version := "1" } }

theorem nothing_left_idle : NothingLeft (shopDeployed idleService) := by
  obtain ⟨ts, hr⟩ := run_shop (Edited _) idleService
  refine nothing_left ⟨?_, ?_⟩ hr
  · rintro _ _ rfl rfl - ⟨hr, -⟩
    exact absurd hr (by decide)
  · rintro _ rfl ⟨happ, -⟩
    exact absurd happ (by decide)

end ReconcileService

end Automium
