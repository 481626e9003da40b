import Automium.Proofs.Action
import Automium.Proofs.ReplicaRuns

/-!
# What the action depends on

`chooseModuleAction` takes the first healthy node of a list as reference and compares the others and
the Module with it. With different hostnames, which node is the reference does not matter: an
upgrade is due exactly if some node is healthy and some node that exists differs from the Module
(`upgrade_iff_due`).

* `action_order_independent`: all orders of the list lead to one action.
* `follows_machines_iff`: the action is the one that the existing machines call for, except when
  nodes that have not been looked up yet are counted beyond the replicas.
-/

namespace Automium

open Data Effect

namespace ReconcileModule

/-! ## When an upgrade is due -/

/-- The image or the flavor of the node is not that of the Module. -/
def Differs (module : Module) (node : Node) : Prop :=
  node.status.nodeProperties.image ≠ module.spec.image ∨
    node.status.nodeProperties.flavor ≠ module.spec.flavor

instance (module : Module) (node : Node) : Decidable (Differs module node) :=
  inferInstanceAs (Decidable (_ ∨ _))

/-- Some node is healthy, and some node that exists differs from the Module. -/
def UpgradeDue (module : Module) (nodes : List Node) : Prop :=
  (∃ node ∈ nodes, NodeIsHealthy node = true) ∧
    ∃ node ∈ nodes, NodeExists node = true ∧ Differs module node

instance (module : Module) (nodes : List Node) : Decidable (UpgradeDue module nodes) :=
  inferInstanceAs (Decidable (_ ∧ _))

section

variable {module : Module} {nodes nodes' : List Node}

theorem UpgradeDue.of_subset (h : UpgradeDue module nodes) (hsub : nodes ⊆ nodes') :
    UpgradeDue module nodes' := by
  obtain ⟨⟨a, ha, hhealthy⟩, b, hb, hdiffers⟩ := h
  exact ⟨⟨a, hsub ha, hhealthy⟩, b, hsub hb, hdiffers⟩

theorem differs_iff {node : Node} : Differs module node ↔
    EqNodeFlavor node module.spec.flavor = false ∨ EqNodeImage node module.spec.image = false := by
  rw [Differs, EqNodeFlavor, EqNodeImage, decide_eq_false_iff_not, decide_eq_false_iff_not, or_comm]

/-- The upgrades, whichever node is the reference. -/
theorem upgrade_iff_due (hhost : (nodes.map fun node => node.spec.hostname).Nodup)
    (hnode : ∀ node ∈ nodes, NodeIsHealthy node = true → node.status.nodeProperties.node ≠ "") :
    actionFor module nodes = "Upgrade" ↔
      GetNodesCount nodes ≤ module.spec.replicas ∧ UpgradeDue module nodes := by
  rw [upgrade_iff]
  refine and_congr_right fun _ => ?_
  constructor
  · rintro ⟨a, ha, hdiff⟩
    obtain ⟨hmem, hhealthy⟩ := ha.healthy
    have hexists := (healthy_spec hhealthy).1
    refine ⟨⟨a, hmem, hhealthy⟩, ?_⟩
    by_cases had : Differs module a
    · exact ⟨a, hmem, hexists, had⟩
    -- The reference is as the Module is, so a node that differs from it differs from the Module.
    rcases hdiff with ⟨b, hb, hmis⟩ | hdiff
    · obtain ⟨-, hb', hdiff⟩ := mismatches_eq_true.mp hmis
      obtain ⟨himage, hflavor⟩ : _ ∧ _ := by simpa [Differs] using had
      rw [himage, hflavor] at hdiff
      exact ⟨b, hb, hb', hdiff.elim (fun h => .inr (Ne.symm h)) fun h => .inl (Ne.symm h)⟩
    · exact absurd (differs_iff.mpr hdiff) had
  · rintro ⟨⟨x, hx, hhealthy⟩, b, hb, hexists, hdiffers⟩
    obtain ⟨a, hfind⟩ := Option.isSome_iff_exists.mp (List.find?_isSome.mpr ⟨x, hx, hhealthy⟩)
    have hmem := List.mem_of_find?_eq_some hfind
    have ha : Reference nodes a := ⟨hfind, hnode a hmem (List.find?_some hfind)⟩
    refine ⟨a, ha, ?_⟩
    by_cases had : Differs module a
    · exact .inr (differs_iff.mp had)
    · refine .inl ⟨b, hb, mismatches_eq_true.mpr ?_⟩
      have hne : b.spec.hostname ≠ a.spec.hostname := fun h =>
        had (List.inj_on_of_nodup_map hhost hb hmem h ▸ hdiffers)
      obtain ⟨himage, hflavor⟩ : _ ∧ _ := by simpa [Differs] using had
      rw [himage, hflavor]
      exact ⟨hne, hexists, hdiffers.elim (fun h => .inr (Ne.symm h)) fun h => .inl (Ne.symm h)⟩

theorem actionFor_cases (module : Module) (nodes : List Node) :
    actionFor module nodes = "Deploy" ∨ actionFor module nodes = "Upgrade" := by
  unfold actionFor
  split
  · exact .inl rfl
  dsimp only
  split
  · exact .inr rfl
  split
  · split
    · exact .inr rfl
    · exact .inl rfl
  · exact .inl rfl

/-- The action, whichever node is the reference. -/
theorem actionFor_eq (hhost : (nodes.map fun node => node.spec.hostname).Nodup)
    (hnode : ∀ node ∈ nodes, NodeIsHealthy node = true → node.status.nodeProperties.node ≠ "") :
    actionFor module nodes =
      if GetNodesCount nodes ≤ module.spec.replicas ∧ UpgradeDue module nodes then "Upgrade"
      else "Deploy" := by
  have hiff : actionFor module nodes = "Upgrade" ↔ _ := upgrade_iff_due hhost hnode
  split
  · rename_i h
    exact hiff.mpr h
  · rename_i h
    exact (actionFor_cases module nodes).resolve_right fun hu => h (hiff.mp hu)

/-- Two actions are the same if both are upgrades or neither is. -/
theorem actionFor_congr {module' : Module} (h : actionFor module nodes = "Upgrade" ↔
    actionFor module' nodes' = "Upgrade") : actionFor module nodes = actionFor module' nodes' := by
  rcases actionFor_cases module nodes with hd | hu
  · rcases actionFor_cases module' nodes' with hd' | hu'
    · rw [hd, hd']
    · rw [h.mpr hu', hu']
  · rw [hu, h.mp hu]

theorem GetNodesCount_perm (h : nodes.Perm nodes') : GetNodesCount nodes = GetNodesCount nodes' := by
  rw [GetNodesCount, GetNodesCount, (h.filter _).length_eq]

theorem actionFor_perm (h : nodes.Perm nodes')
    (hhost : (nodes.map fun node => node.spec.hostname).Nodup)
    (hnode : ∀ node ∈ nodes, NodeIsHealthy node = true → node.status.nodeProperties.node ≠ "") :
    actionFor module nodes = actionFor module nodes' := by
  refine actionFor_congr ?_
  rw [upgrade_iff_due hhost hnode, upgrade_iff_due ((h.map _).nodup_iff.mp hhost)
    fun node hm => hnode node (h.mem_iff.mpr hm), GetNodesCount_perm h]
  exact and_congr_right fun _ => ⟨fun hdue => hdue.of_subset h.subset,
    fun hdue => hdue.of_subset h.symm.subset⟩

end

/-! ## The action for a list in any order -/

theorem chooseModuleAction_zero {inst : Module} (hr : inst.spec.replicas = 0) :
    chooseModuleAction inst = .ret (.ok "Destroy") := by
  unfold chooseModuleAction
  rw [if_pos hr]
  rfl

/-- With the names set, `chooseModuleAction` lists the Nodes. -/
theorem chooseModuleAction_eq {inst : Module} (hr : inst.spec.replicas ≠ 0)
    (hsvc : serviceNameOf inst.metadata ≠ "") (hns : inst.metadata.ns ≠ "") :
    ∃ k, chooseModuleAction inst = .call (.list .node inst.metadata.ns) k ∧
      (∀ e, k (.error e) = .ret (.error e)) ∧
      ∀ l, k (.ok l) =
        .ret (.ok (actionFor inst (nodesOfService (serviceNameOf inst.metadata) l))) := by
  unfold chooseModuleAction retrieveNodesForService
  rw [if_neg hr, if_neg (not_or.mpr ⟨hsvc, hns⟩)]
  exact ⟨_, rfl, fun _ => rfl, fun _ => rfl⟩

section

variable {inst : Module} {c : Cluster}

theorem listed_perm {l : List Node} (hl : l.Perm (c.inNamespace .node inst.metadata.ns)) :
    (serviceNodes inst c).Perm (nodesOfService (serviceNameOf inst.metadata) l) :=
  (hl.filter _).symm

/-- What `chooseModuleAction` returns in the calm world: the action for the Nodes in some order. -/
theorem chooseModuleAction_yields_iff {Q : Except Error String → Prop}
    (hr : inst.spec.replicas ≠ 0) (hsvc : serviceNameOf inst.metadata ≠ "")
    (hns : inst.metadata.ns ≠ "") :
    (Yields calm c (chooseModuleAction inst) fun r _ => Q r) ↔
      ∀ l : List Node, l.Perm (c.inNamespace .node inst.metadata.ns) →
        Q (.ok (actionFor inst (nodesOfService (serviceNameOf inst.metadata) l))) := by
  obtain ⟨k, hk, -, hok⟩ := chooseModuleAction_eq hr hsvc hns
  rw [hk]
  constructor
  · intro h l hl
    have hrest := h.of_call (r := .ok l) ⟨⟨l, hl, rfl⟩, rfl⟩
    rw [hok] at hrest
    exact hrest.of_ret
  · intro h
    refine .call calm_closed ?_
    rintro r c₁ ⟨⟨l, hl, rfl⟩, rfl⟩
    rw [hok]
    exact .ret calm_closed (h l hl)

/-- The action does not depend on the order in which the Nodes are listed. -/
theorem action_order_independent
    (hhost : ((serviceNodes inst c).map fun node => node.spec.hostname).Nodup)
    (hnode : ∀ node ∈ serviceNodes inst c, NodeIsHealthy node = true →
      node.status.nodeProperties.node ≠ "") :
    ∃ r, Yields calm c (chooseModuleAction inst) fun r' _ => r' = r := by
  by_cases hr : inst.spec.replicas = 0
  · refine ⟨.ok "Destroy", ?_⟩
    rw [chooseModuleAction_zero hr]
    exact .ret calm_closed rfl
  by_cases hnames : serviceNameOf inst.metadata = "" ∨ inst.metadata.ns = ""
  · refine ⟨.error (.new "cannot retrieve nodes: invalid service and/or namspace"), ?_⟩
    unfold chooseModuleAction retrieveNodesForService
    rw [if_neg hr, if_pos hnames]
    exact .ret calm_closed rfl
  obtain ⟨hsvc, hns⟩ := not_or.mp hnames
  refine ⟨.ok (actionFor inst (serviceNodes inst c)), ?_⟩
  refine (chooseModuleAction_yields_iff hr hsvc hns).mpr fun l hl => ?_
  rw [actionFor_perm (listed_perm hl) hhost hnode]

/-! ### Two machines with different images -/

/-- The second machine has an older image. -/
theorem action_order_independent_web : ∃ r, Yields calm
    (webCluster { healthyProperties with image := "web-0" }) (chooseModuleAction webModule)
      fun r' _ => r' = r :=
  action_order_independent (by decide) (by decide)

/-! ## The machines that exist -/

/-- The number of nodes that exist. -/
def existing (nodes : List Node) : Nat := (nodes.filter NodeExists).length

/-- The number of nodes that have not been looked up yet. -/
def unknown (nodes : List Node) : Nat :=
  (nodes.filter fun node => node.status.nodeProperties.id = "").length

/-- The action that the existing machines call for. -/
def machinesAction (module : Module) (nodes : List Node) : String :=
  if module.spec.replicas = 0 then "Destroy"
  else if existing nodes = 0 ∨ module.spec.replicas < existing nodes then "Deploy"
  else if UpgradeDue module nodes then "Upgrade" else "Deploy"

/-- The replicas are enough for the nodes that exist, but not for these and those that have not been
looked up yet. -/
def Overcounted (module : Module) (nodes : List Node) : Prop :=
  existing nodes ≤ module.spec.replicas ∧ module.spec.replicas < existing nodes + unknown nodes

instance (module : Module) (nodes : List Node) : Decidable (Overcounted module nodes) :=
  inferInstanceAs (Decidable (_ ∧ _))

/-- `GetNodesCount` counts the nodes that have not been looked up yet. -/
theorem GetNodesCount_eq (nodes : List Node) :
    GetNodesCount nodes = existing nodes + unknown nodes := by
  unfold GetNodesCount existing unknown
  rw [← Int.natCast_add, Int.natCast_inj]
  induction nodes with
  | nil => rfl
  | cons node rest ih =>
    simp only [ne_eq] at ih
    have hne : ("" : String) ≠ nonExistentMachine := by decide
    simp only [List.filter_cons, NodeExists, decide_eq_true_eq, ne_eq, Bool.not_eq_true',
      Bool.or_eq_false_iff, decide_eq_false_iff_not]
    by_cases hempty : node.status.nodeProperties.id = ""
    · simp only [hempty, hne, not_false_eq_true, not_true_eq_false, false_and, if_true, if_false,
        List.length_cons]
      omega
    · by_cases hmissing : node.status.nodeProperties.id = nonExistentMachine
      · simp only [hmissing, hne.symm, not_false_eq_true, not_true_eq_false, and_false, if_false]
        exact ih
      · simp only [hempty, hmissing, not_false_eq_true, true_and, if_true, if_false,
          List.length_cons]
        omega

theorem UpgradeDue.existing_ne_zero {module : Module} {nodes : List Node}
    (h : UpgradeDue module nodes) : existing nodes ≠ 0 := by
  obtain ⟨node, hm, hexists, -⟩ := h.2
  exact (List.length_pos_of_mem (List.mem_filter.mpr ⟨hm, hexists⟩)).ne'

theorem machinesAction_eq {module : Module} {nodes : List Node} (hr : module.spec.replicas ≠ 0) :
    machinesAction module nodes =
      if existing nodes ≤ module.spec.replicas ∧ UpgradeDue module nodes then "Upgrade"
      else "Deploy" := by
  unfold machinesAction
  rw [if_neg hr]
  by_cases hfew : existing nodes = 0 ∨ module.spec.replicas < existing nodes
  · rw [if_pos hfew, if_neg]
    rintro ⟨hle, hdue⟩
    exact hfew.elim hdue.existing_ne_zero fun hlt => by omega
  · have hle : (existing nodes : Int) ≤ module.spec.replicas := by omega
    rw [if_neg hfew]
    exact if_congr (by rw [and_iff_right hle]) rfl rfl

/-- The action is the one that the machines call for, except for an upgrade that is due when some
nodes are counted beyond the replicas. -/
theorem actionFor_eq_machinesAction_iff {module : Module} {nodes : List Node}
    (hr : module.spec.replicas ≠ 0) (hhost : (nodes.map fun node => node.spec.hostname).Nodup)
    (hnode : ∀ node ∈ nodes, NodeIsHealthy node = true → node.status.nodeProperties.node ≠ "") :
    actionFor module nodes = machinesAction module nodes ↔
      ¬ (Overcounted module nodes ∧ UpgradeDue module nodes) := by
  have hcount := GetNodesCount_eq nodes
  rw [actionFor_eq hhost hnode, machinesAction_eq hr, Overcounted]
  by_cases hdue : UpgradeDue module nodes
  · simp only [and_true, hdue]
    split <;> split <;> simp <;> omega
  · simp [hdue]

/-- The cases in which `chooseModuleAction` returns the action that the existing machines call for:
no replica is wanted, no upgrade is due, or the nodes that have not been looked up yet do not make
the difference. -/
theorem follows_machines_iff (hsvc : serviceNameOf inst.metadata ≠ "")
    (hns : inst.metadata.ns ≠ "")
    (hhost : ((serviceNodes inst c).map fun node => node.spec.hostname).Nodup)
    (hnode : ∀ node ∈ serviceNodes inst c, NodeIsHealthy node = true →
      node.status.nodeProperties.node ≠ "") :
    (Yields calm c (chooseModuleAction inst) fun r _ =>
        r = .ok (machinesAction inst (serviceNodes inst c))) ↔
      inst.spec.replicas = 0 ∨ ¬ UpgradeDue inst (serviceNodes inst c) ∨
        ¬ Overcounted inst (serviceNodes inst c) := by
  by_cases hr : inst.spec.replicas = 0
  · refine iff_of_true ?_ (.inl hr)
    rw [chooseModuleAction_zero hr, machinesAction, if_pos hr]
    exact .ret calm_closed rfl
  · rw [or_iff_right hr, ← not_and_or, and_comm, ← actionFor_eq_machinesAction_iff hr hhost hnode,
      chooseModuleAction_yields_iff hr hsvc hns]
    constructor
    · intro h
      exact Except.ok.inj (h _ (.refl _))
    · rintro h l hl
      rw [← actionFor_perm (listed_perm hl) hhost hnode, h]

/-! ### A node that has not been looked up yet -/

/-- One replica, and a newer image. -/
def newerModule : Module :=
  { webModule with spec := { webModule.spec with replicas := 1, image := "web-2" } }

/-- With the second node still to be looked up, the upgrade of the first one is not started. -/
theorem unknown_node_delays_upgrade :
    ¬ ∀ (inst : Module) (c : Cluster), serviceNameOf inst.metadata ≠ "" → inst.metadata.ns ≠ "" →
      0 ≤ inst.spec.replicas → ((serviceNodes inst c).map fun node => node.spec.hostname).Nodup →
      (∀ node ∈ serviceNodes inst c, NodeExists node = true →
        node.status.nodeProperties.node ≠ "" ∧ node.status.nodeProperties.image ≠ "" ∧
          node.status.nodeProperties.flavor ≠ "") →
      Yields calm c (chooseModuleAction inst) fun r _ =>
        r = .ok (machinesAction inst (serviceNodes inst c)) := by
  intro h
  have hyields := h newerModule (webCluster {}) (by decide) (by decide) (by decide) (by decide)
    (by decide)
  have hall := (chooseModuleAction_yields_iff (by decide) (by decide) (by decide)).mp hyields
  exact absurd (hall _ (.refl _)) (by decide)

/-- Without the machine of the second node, it is. -/
theorem follows_machines_web : Yields calm (webCluster noMachine) (chooseModuleAction newerModule)
    fun r _ => r = .ok (machinesAction newerModule (serviceNodes newerModule (webCluster noMachine))) :=
  (follows_machines_iff (by decide) (by decide) (by decide) (by decide)).mpr (by decide)

end

end ReconcileModule

end Automium
