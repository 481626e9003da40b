import Automium.Proofs.ServiceCalls

/-!
# What the Service controller pushes into the Module

A reconcile of a Service whose Module is stored writes the rendered spec exactly if
`IsModuleDifferent` sees a difference (`Reconcile_differs`, `Reconcile_same`). The two results on
that test follow from what it looks at:

* it overlooks differences (`fidelity_iff`): a renamed variable, a changed source;
* it sees differences between a rendered spec and itself (`quiescent_iff`): two variables of one
  name and other values.
-/

namespace Automium

open Data Effect

namespace ReconcileService

/-! ## One reconcile -/

section

variable (upper : Go.Upper) {request : Key} {c : Cluster} {service : Service} {found : Module}

/-- The Module that the Service renders, given the environment of the controller. -/
def rendered (c : Cluster) (service : Service) : Module :=
  renderModule upper (c.env "PLATFORM") service

/-- A reconcile goes on to compare the stored Module with the rendered one. -/
theorem Reconcile_found (hs : c.find? .service request = some service)
    (hm : c.find? .module (moduleKey service) = some found) :
    ∃ tr, (∀ e ∈ tr, e.op.writes = none) ∧
      (run serve (Reconcile upper request) c).trace = tr ++
        (run serve (syncFound request service found (rendered upper c service) >>= finish) c).trace ∧
      (run serve (Reconcile upper request) c).final =
        (run serve (syncFound request service found (rendered upper c service) >>= finish) c).final := by
  refine ⟨[⟨c, .get .service request, .ok service⟩, ⟨c, .getenv "PLATFORM", c.env "PLATFORM"⟩,
    ⟨c, .get .module (moduleKey service), .ok found⟩], by simp [Request.writes], ?_⟩
  unfold Reconcile syncModule
  rw [bind_assoc, get_bind, run_call, serve_get hs]
  dsimp only
  rw [bind_assoc, getenv_bind, run_call, show serve c (.getenv "PLATFORM") =
    (c.env "PLATFORM", c) from rfl]
  dsimp only
  rw [bind_assoc, get_bind, run_call, show (renderModule upper (c.env "PLATFORM") service).key =
    moduleKey service from rfl, serve_get hm]
  exact ⟨rfl, rfl⟩

/-- No difference is seen: the Modules are left alone. -/
theorem Reconcile_same (hs : c.find? .service request = some service)
    (hm : c.find? .module (moduleKey service) = some found)
    (hd : IsModuleDifferent found (rendered upper c service) = false) :
    (∀ e ∈ (run serve (Reconcile upper request) c).trace, e.op.writes ≠ some .module) ∧
      (run serve (Reconcile upper request) c).final.tbl .module = c.tbl .module := by
  obtain ⟨tr, htr, ht, hf⟩ := Reconcile_found upper hs hm
  have hu : Uses (fun op : Request => op.writes ≠ some .module)
      (syncFound request service found (rendered upper c service) >>= finish) := by
    unfold syncFound
    rw [if_neg (by simp [hd])]
    exact syncStatus_finish_writes service found
  constructor
  · intro e he
    rw [ht] at he
    rcases List.mem_append.mp he with he | he
    · rw [htr e he]; nofun
    · exact (hu.run (I := fun _ => True) (fun _ _ _ _ => trivial) trivial).2 e he
  · rw [hf]
    exact run_tbl_eq hu c

/-- A difference is seen: the Module is written with the rendered spec. -/
theorem Reconcile_updates (hs : c.find? .service request = some service)
    (hm : c.find? .module (moduleKey service) = some found)
    (hd : IsModuleDifferent found (rendered upper c service) = true) :
    (∃ e ∈ (run serve (Reconcile upper request) c).trace, ∃ o, e.op = .update .module o) ∧
      (run serve (Reconcile upper request) c).final.find? .module (moduleKey service) =
        some (updatedObj .module found { found with spec := (rendered upper c service).spec }
          (c.version + 1)) := by
  obtain ⟨tr, -, ht, hf⟩ := Reconcile_found upper hs hm
  let new : Module := { found with spec := (rendered upper c service).spec }
  have hkey : new.key = moduleKey service := find?_key hm
  have hfind : c.find? .module new.key = some found := by rw [hkey]; exact hm
  have hupd := serve_update hfind rfl
  rw [ht, hf]
  unfold syncFound
  rw [if_pos hd, bind_assoc, update_bind, run_call, hupd]
  refine ⟨⟨_, List.mem_append_right _ List.mem_cons_self, _, rfl⟩, ?_⟩
  rw [Cluster.find?, run_tbl_eq, Cluster.setTbl_self, ← hkey]
  · exact Table.find?_put_self
  · dsimp only
    rw [bind_assoc, get_bind]
    refine ⟨fun e => (by cases e), fun r _ => ?_⟩
    cases r with
    | error e => trivial
    | ok inst => exact syncStatus_finish_writes inst _

/-- Its spec is the rendered one afterwards. -/
theorem Reconcile_differs (hs : c.find? .service request = some service)
    (hm : c.find? .module (moduleKey service) = some found)
    (hd : IsModuleDifferent found (rendered upper c service) = true) :
    (∃ e ∈ (run serve (Reconcile upper request) c).trace, ∃ o, e.op = .update .module o) ∧
      ∃ m, (run serve (Reconcile upper request) c).final.find? .module (moduleKey service) = some m ∧
        m.spec = (rendered upper c service).spec := by
  obtain ⟨hcall, hfind⟩ := Reconcile_updates upper hs hm hd
  exact ⟨hcall, _, hfind, rfl⟩

end

/-! ### A Service and its Module -/

/-- A Service of two machines with these variables. -/
def webService (env : List EnvVar) : Service where
  metadata := { name := "web", ns := "default", labels := Finmap.insert "app" "nginx" ∅ }
  spec := { replicas := 2, flavor := "m1", version := "1", env := env }
  status := {}

def webKey : Key := ⟨"default", "web"⟩

/-- The Module rendered from `webService`. -/
def webModule (env : List EnvVar) : Module := renderModule Go.asciiUpper "" (webService env)

/-- A store with a Service and its Module. -/
def webStore (service : Service) (module : Module) : Cluster :=
  (Cluster.empty.setTbl .service (Table.empty.put service)).setTbl .module (Table.empty.put module)

theorem webStore_service (env : List EnvVar) (module : Module) :
    (webStore (webService env) module).find? .service webKey = some (webService env) :=
  Table.find?_put_self

theorem webStore_module (env env' : List EnvVar) :
    (webStore (webService env) (webModule env')).find? .module (moduleKey (webService env)) =
      some (webModule env') :=
  Table.find?_put_self

/-! ## Fidelity -/

/-- The stored spec is the rendered one, with the variables in any order. -/
def Agrees (stored new : ModuleSpec) : Prop :=
  stored.source = new.source ∧ stored.image = new.image ∧ stored.flavor = new.flavor ∧
    stored.replicas = new.replicas ∧ stored.env.Perm new.env

instance (stored new : ModuleSpec) : Decidable (Agrees stored new) :=
  inferInstanceAs (Decidable (_ ∧ _ ∧ _ ∧ _ ∧ _))

/-- The differences that `IsModuleDifferent` looks for. -/
def Visible (stored new : ModuleSpec) : Prop :=
  stored.flavor ≠ new.flavor ∨ stored.image ≠ new.image ∨ stored.replicas ≠ new.replicas ∨
    stored.env.length ≠ new.env.length ∨
    ∃ a ∈ stored.env, ∃ b ∈ new.env, a.name = b.name ∧ a.value ≠ b.value

instance (stored new : ModuleSpec) : Decidable (Visible stored new) :=
  inferInstanceAs (Decidable (_ ∨ _ ∨ _ ∨ _ ∨ _))

theorem different_iff_visible {actual new : Module} :
    IsModuleDifferent actual new = true ↔ Visible actual.spec new.spec := by
  rw [← Bool.not_eq_false, IsModuleDifferent_eq_false_iff, EqualEnvVars_iff, Visible]
  simp only [not_and_or, not_forall, exists_prop]

/-- A difference that is not seen is one of the sources or of the variables. -/
theorem agrees_of_not_visible {stored new : ModuleSpec} (h : ¬ Visible stored new) :
    Agrees stored new ↔ stored.source = new.source ∧ stored.env.Perm new.env := by
  simp only [Visible, not_or, ne_eq, Decidable.not_not] at h
  obtain ⟨hf, hi, hr, -⟩ := h
  simp [Agrees, hf, hi, hr]

/-- When a reconcile of a Service leaves the rendered spec in the stored Module, and when
`IsModuleDifferent` is right that there is nothing to do: if a difference is one that it looks for,
or if there is none in the sources and the variables. -/
theorem fidelity_iff {upper : Go.Upper} {request : Key} {c : Cluster} {service : Service}
    {found : Module} (hs : c.find? .service request = some service)
    (hm : c.find? .module (moduleKey service) = some found) :
    ((∃ m, (run serve (Reconcile upper request) c).final.find? .module (moduleKey service) = some m ∧
        Agrees m.spec (rendered upper c service).spec) ↔
      Visible found.spec (rendered upper c service).spec ∨
        found.spec.source = (rendered upper c service).spec.source ∧
          found.spec.env.Perm (rendered upper c service).spec.env) ∧
    ((IsModuleDifferent found (rendered upper c service) = false →
        Agrees found.spec (rendered upper c service).spec) ↔
      Visible found.spec (rendered upper c service).spec ∨
        found.spec.source = (rendered upper c service).spec.source ∧
          found.spec.env.Perm (rendered upper c service).spec.env) := by
  by_cases hv : Visible found.spec (rendered upper c service).spec
  · have hd := different_iff_visible.mpr hv
    obtain ⟨-, m, hfind, hspec⟩ := Reconcile_differs upper hs hm hd
    refine ⟨iff_of_true ⟨m, hfind, ?_⟩ (.inl hv), iff_of_true (fun h => ?_) (.inl hv)⟩
    · rw [hspec]
      exact ⟨rfl, rfl, rfl, rfl, .refl _⟩
    · rw [hd] at h
      cases h
  · have hd := Bool.eq_false_iff.mpr (mt different_iff_visible.mp hv)
    obtain ⟨-, htbl⟩ := Reconcile_same upper hs hm hd
    have hfind : (run serve (Reconcile upper request) c).final.find? .module (moduleKey service) =
        some found := by rw [Cluster.find?, htbl]; exact hm
    rw [hfind, or_iff_right hv, ← agrees_of_not_visible hv]
    refine ⟨⟨?_, fun h => ⟨found, rfl, h⟩⟩, fun h => h hd, fun h _ => h⟩
    rintro ⟨m, e, h⟩
    exact Option.some.inj e ▸ h

/-- A changed value arrives. -/
theorem fidelity_web :
    ∃ m, (run serve (Reconcile Go.asciiUpper webKey)
        (webStore (webService [⟨"size", "4", none⟩]) (webModule [⟨"size", "3", none⟩]))).final.find?
          .module (moduleKey (webService [⟨"size", "4", none⟩])) = some m ∧
      Agrees m.spec (rendered Go.asciiUpper Cluster.empty (webService [⟨"size", "4", none⟩])).spec :=
  (fidelity_iff (webStore_service _ _) (webStore_module _ _)).1.mpr (.inl (by decide))

/-- A renamed variable does not: the stored Module keeps the old name. -/
theorem renamed_variable_missed :
    ¬ ∀ (upper : Go.Upper) (request : Key) (c : Cluster) (service : Service) (found : Module),
      c.find? .service request = some service →
      c.find? .module (moduleKey service) = some found →
      ∃ m, (run serve (Reconcile upper request) c).final.find? .module (moduleKey service) =
        some m ∧ Agrees m.spec (rendered upper c service).spec := by
  intro h
  have hs := webStore_service [⟨"proxy", "3", none⟩] (webModule [⟨"size", "3", none⟩])
  have hm := webStore_module [⟨"proxy", "3", none⟩] [⟨"size", "3", none⟩]
  obtain ⟨m, hfind, hag⟩ := h Go.asciiUpper webKey _ _ _ hs hm
  rw [Cluster.find?, (Reconcile_same Go.asciiUpper hs hm (by decide)).2] at hfind
  cases hm.symm.trans hfind
  exact absurd hag (by decide)

/-! ## Quiescence -/

/-- A variable that the controller appends for this Service. -/
def Appends (upper : Go.Upper) (platform : String) (service : Service) (name value : String) :
    Prop :=
  name = "PROVIDER" ∧ value = cloudPlatform platform ∨
  name = "NAME" ∧ value = service.metadata.name ∨
  appOf service = kubernetesCluster ∧
    (name = "MASTER" ∧ value = "true" ∨ name = "NODE" ∧ value = "false" ∨
      name = "ETCD" ∧ value = "true" ∨
      name = "CLUSTER_NAME" ∧ value = service.metadata.name ∧
        ∀ item ∈ service.spec.env, upper.toUpper item.name = "CLUSTER_NAME" → item.value = "") ∨
  appOf service = kubernetesNodepool ∧
    (name = "MASTER" ∧ value = "false" ∨ name = "NODE" ∧ value = "true" ∨
      name = "ETCD" ∧ value = "false")

/-- The user's variables clash neither with each other nor with those of the controller. -/
def Harmonious (upper : Go.Upper) (platform : String) (service : Service) : Prop :=
  (∀ a ∈ service.spec.env, ∀ b ∈ service.spec.env,
    upper.toUpper a.name = upper.toUpper b.name → a.value = b.value) ∧
  ∀ a ∈ service.spec.env, ∀ value, Appends upper platform service (upper.toUpper a.name) value →
    a.value = value

/-- A custom cluster name is one of the user's variables. -/
theorem customClusterNameFound_eq_false_iff (upper : Go.Upper) (platform : String)
    (service : Service) :
    customClusterNameFound (upperEnv upper service.spec.env ++
        commonEnvVars platform service.metadata.name) = false ↔
      ∀ item ∈ service.spec.env, upper.toUpper item.name = "CLUSTER_NAME" → item.value = "" := by
  simp [customClusterNameFound, upperEnv, commonEnvVars]

theorem var_eq_iff {v : EnvVar} {name value : String} :
    v = { name := name, value := value } ↔ (v.name = name ∧ v.value = value) ∧ v.valueFrom = none := by
  obtain ⟨n, x, f⟩ := v
  simp [and_assoc]

theorem mem_roleEnvVars {v : EnvVar} {master node etcd : String} :
    v ∈ roleEnvVars master node etcd ↔ (v.name = "MASTER" ∧ v.value = master ∨
      v.name = "NODE" ∧ v.value = node ∨ v.name = "ETCD" ∧ v.value = etcd) ∧ v.valueFrom = none := by
  simp only [roleEnvVars, List.mem_cons, List.not_mem_nil, or_false, var_eq_iff, ← or_and_right]

/-- `ownEnvVars` are the variables of `Appends`. -/
theorem mem_ownEnvVars {upper : Go.Upper} {platform : String} {service : Service} {v : EnvVar} :
    v ∈ ownEnvVars upper platform service ↔
      Appends upper platform service v.name v.value ∧ v.valueFrom = none := by
  unfold ownEnvVars specificEnvVars Appends
  rw [← customClusterNameFound_eq_false_iff upper platform service]
  have hne : kubernetesCluster ≠ kubernetesNodepool := by decide
  by_cases hc : appOf service = kubernetesCluster
  · cases customClusterNameFound (upperEnv upper service.spec.env ++
      commonEnvVars platform service.metadata.name) <;>
      simp [hc, hne, commonEnvVars, mem_roleEnvVars, var_eq_iff, or_and_right, or_assoc]
  · by_cases hn : appOf service = kubernetesNodepool
    · simp [hn, hne.symm, commonEnvVars, mem_roleEnvVars, var_eq_iff, or_and_right]
    · simp [hc, hn, commonEnvVars, var_eq_iff, or_and_right]

/-- The controller appends one value for a name. -/
theorem Appends.unique {upper : Go.Upper} {platform : String} {service : Service}
    {name value value' : String} (h : Appends upper platform service name value)
    (h' : Appends upper platform service name value') : value = value' := by
  have hne : kubernetesCluster ≠ kubernetesNodepool := by decide
  have hne' := hne.symm
  unfold Appends at h h'
  rcases h with ⟨rfl, rfl⟩ | ⟨rfl, rfl⟩ | ⟨ha, ⟨rfl, rfl⟩ | ⟨rfl, rfl⟩ | ⟨rfl, rfl⟩ | ⟨rfl, rfl, -⟩⟩ |
    ⟨ha, ⟨rfl, rfl⟩ | ⟨rfl, rfl⟩ | ⟨rfl, rfl⟩⟩ <;>
    simp_all

/-- A rendered spec is seen to differ from itself exactly if variables clash. -/
theorem rendered_same_iff {upper : Go.Upper} {platform : String} {service : Service}
    {found : Module} (h : found.spec = renderSpec upper platform service) :
    IsModuleDifferent found (renderModule upper platform service) = false ↔
      Harmonious upper platform service := by
  rw [IsModuleDifferent_eq_false_iff, h, EqualEnvVars_iff]
  have hmem : ∀ v, v ∈ (renderSpec upper platform service).env ↔
      (∃ item ∈ service.spec.env, { name := upper.toUpper item.name, value := item.value } = v) ∨
        Appends upper platform service v.name v.value ∧ v.valueFrom = none := by
    intro v
    rw [← mem_ownEnvVars]
    exact List.mem_append.trans (or_congr_left List.mem_map)
  simp only [true_and, renderModule]
  constructor
  · intro hall
    constructor
    · intro a ha b hb hn
      exact hall _ ((hmem _).mpr (.inl ⟨a, ha, rfl⟩)) { name := upper.toUpper b.name, value := b.value }
        ((hmem _).mpr (.inl ⟨b, hb, rfl⟩)) hn
    · intro a ha value hv
      exact hall _ ((hmem _).mpr (.inl ⟨a, ha, rfl⟩))
        { name := upper.toUpper a.name, value := value } ((hmem _).mpr (.inr ⟨hv, rfl⟩)) rfl
  · rintro ⟨huser, hown⟩ x hx y hy hn
    rcases (hmem x).mp hx with ⟨a, ha, rfl⟩ | ⟨hxa, -⟩ <;>
      rcases (hmem y).mp hy with ⟨b, hb, rfl⟩ | ⟨hya, -⟩
    · exact huser a ha b hb hn
    · rw [← hn] at hya
      exact hown a ha _ hya
    · rw [hn] at hxa
      exact (hown b hb _ hxa).symm
    · rw [← hn] at hya
      exact hxa.unique hya

/-- Which Services are left in peace once their Module is as rendered: exactly those whose
variables do not clash. -/
theorem quiescent_iff {upper : Go.Upper} {request : Key} {c : Cluster} {service : Service}
    {found : Module} (hs : c.find? .service request = some service)
    (hm : c.find? .module (moduleKey service) = some found)
    (hf : found.spec = renderSpec upper (c.env "PLATFORM") service) :
    (∀ e ∈ (run serve (Reconcile upper request) c).trace, ∀ o, e.op ≠ .update .module o) ↔
      Harmonious upper (c.env "PLATFORM") service := by
  rw [← rendered_same_iff hf]
  cases hd : IsModuleDifferent found (renderModule upper (c.env "PLATFORM") service) with
  | false =>
    refine iff_of_true (fun e he o heq => ?_) rfl
    exact (Reconcile_same upper hs hm hd).1 e he (by rw [heq]; rfl)
  | true =>
    refine iff_of_false (fun h => ?_) nofun
    obtain ⟨⟨e, he, o, heq⟩, -⟩ := Reconcile_differs upper hs hm hd
    exact h e he o heq

theorem quiescent_web :
    (webModule [⟨"size", "3", none⟩]).spec =
        renderSpec Go.asciiUpper "" (webService [⟨"size", "3", none⟩]) ∧
      ∀ e ∈ (run serve (Reconcile Go.asciiUpper webKey)
        (webStore (webService [⟨"size", "3", none⟩]) (webModule [⟨"size", "3", none⟩]))).trace,
          ∀ o, e.op ≠ .update .module o := by
  refine ⟨rfl, (quiescent_iff (webStore_service _ _) (webStore_module _ _) rfl).mpr
    ⟨by decide, ?_⟩⟩
  intro a ha value hv
  cases List.mem_singleton.mp ha
  exact absurd hv (by
    have hn : Go.asciiUpper.toUpper "size" = "SIZE" := by decide
    simp [Appends, hn])

/-- Two names that coincide in upper case: the Module is updated again and again. -/
theorem upper_case_clash_updates :
    ¬ ∀ (upper : Go.Upper) (request : Key) (c : Cluster) (service : Service) (found : Module),
      c.find? .service request = some service →
      c.find? .module (moduleKey service) = some found →
      found.spec = renderSpec upper (c.env "PLATFORM") service →
      ∀ e ∈ (run serve (Reconcile upper request) c).trace, ∀ o, e.op ≠ .update .module o := by
  intro h
  have hs := webStore_service [⟨"size", "3", none⟩, ⟨"SIZE", "4", none⟩]
    (webModule [⟨"size", "3", none⟩, ⟨"SIZE", "4", none⟩])
  have hm := webStore_module [⟨"size", "3", none⟩, ⟨"SIZE", "4", none⟩]
    [⟨"size", "3", none⟩, ⟨"SIZE", "4", none⟩]
  obtain ⟨⟨e, he, o, heq⟩, -⟩ := Reconcile_differs Go.asciiUpper hs hm (by decide)
  exact h Go.asciiUpper webKey _ _ _ hs hm rfl e he o heq

end ReconcileService

end Automium
