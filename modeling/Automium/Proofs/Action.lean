import Automium.Controller.Module

/-!
# When a Module is upgraded

`chooseModuleAction` starts a rolling upgrade on the word of the statuses that the node controller
records. A machine that Consul does not know, or knows without metadata, has no image and no
flavor in its status. `NodeIsHealthy` never takes such a node as the reference, but
`NodesAreConsistent` still compares it with the reference once it `NodeExists`: its empty image
differs from any real one.

* `upgrade_iff`: the upgrades of `actionFor`.
* `upgrade_iff_missing`: if every recorded image and flavor is that of the Module, exactly the
  nodes with missing data start an upgrade.
-/

namespace Automium

open Effect

theorem healthy_spec {node : Node} (h : NodeIsHealthy node = true) :
    NodeExists node = true ∧ node.status.nodeProperties.image ≠ "" ∧
      node.status.nodeProperties.flavor ≠ "" := by
  simp only [NodeIsHealthy, Bool.and_eq_true, Bool.not_eq_true', Bool.or_eq_false_iff,
    decide_eq_false_iff_not] at h
  exact ⟨h.1.1, h.2⟩

/-- A node that exists is counted. -/
theorem count_pos {nodes : List Node} {node : Node} (hm : node ∈ nodes)
    (he : NodeExists node = true) : 0 < GetNodesCount nodes := by
  simp only [NodeExists, Bool.not_eq_true', Bool.or_eq_false_iff, decide_eq_false_iff_not] at he
  refine Int.natCast_pos.mpr (List.length_pos_of_mem (List.mem_filter.mpr ⟨hm, ?_⟩))
  simpa using he.2

/-- Another node that exists, with another flavor or image. -/
theorem mismatches_eq_true {a node : Node} : mismatches a node = true ↔
    node.spec.hostname ≠ a.spec.hostname ∧ NodeExists node = true ∧
      (a.status.nodeProperties.flavor ≠ node.status.nodeProperties.flavor ∨
        a.status.nodeProperties.image ≠ node.status.nodeProperties.image) := by
  simp only [mismatches, EqNodeFlavor, EqNodeImage, Bool.and_eq_true, Bool.or_eq_true,
    Bool.not_eq_true', decide_eq_false_iff_not, decide_eq_true_eq, and_assoc, ne_eq]

/-- The reference node, if it has a name. -/
def Reference (nodes : List Node) (healthyNode : Node) : Prop :=
  nodes.find? NodeIsHealthy = some healthyNode ∧ healthyNode.status.nodeProperties.node ≠ ""

theorem Reference.unique {nodes : List Node} {a b : Node} (ha : Reference nodes a)
    (hb : Reference nodes b) : a = b :=
  Option.some.inj (ha.1.symm.trans hb.1)

theorem Reference.healthy {nodes : List Node} {a : Node} (h : Reference nodes a) :
    a ∈ nodes ∧ NodeIsHealthy a = true :=
  ⟨List.mem_of_find?_eq_some h.1, List.find?_some h.1⟩

/-- `NodesAreConsistent` has a reference, or it finds the nodes consistent for want of one. -/
theorem NodesAreConsistent_cases (nodes : List Node) :
    (∃ a, Reference nodes a ∧ NodesAreConsistent nodes = (!nodes.any (mismatches a), a)) ∨
    (∀ a, ¬ Reference nodes a) ∧ ∃ a, NodesAreConsistent nodes = (true, a) ∧
      a.status.nodeProperties.node = "" := by
  unfold NodesAreConsistent healthyNodeOf
  cases hf : nodes.find? NodeIsHealthy with
  | none =>
    refine .inr ⟨fun a ha => ?_, zeroNode, rfl, rfl⟩
    rw [Reference, hf] at ha
    cases ha.1
  | some a =>
    rw [Option.getD_some]
    by_cases hn : a.status.nodeProperties.node = ""
    · refine .inr ⟨fun b hb => ?_, a, if_pos hn, hn⟩
      rw [Reference, hf] at hb
      cases hb.1
      exact hb.2 hn
    · exact .inl ⟨a, ⟨hf, hn⟩, if_neg hn⟩

namespace ReconcileModule

/-- The upgrades: there is a reference node, no replica is to be removed, and a node differs from
the reference or the reference from the Module. -/
theorem upgrade_iff (module : Module) (nodes : List Node) :
    actionFor module nodes = "Upgrade" ↔
      GetNodesCount nodes ≤ module.spec.replicas ∧ ∃ a, Reference nodes a ∧
        ((∃ node ∈ nodes, mismatches a node = true) ∨
          EqNodeFlavor a module.spec.flavor = false ∨ EqNodeImage a module.spec.image = false) := by
  unfold actionFor
  rcases NodesAreConsistent_cases nodes with ⟨a, ha, he⟩ | ⟨hno, a, he, hn⟩
  · have hpos := count_pos ha.healthy.1 (healthy_spec ha.healthy.2).1
    have hex : ∀ P : Node → Prop, (∃ b, Reference nodes b ∧ P b) ↔ P a := fun P =>
      ⟨fun ⟨b, hb, h⟩ => hb.unique ha ▸ h, fun h => ⟨a, ha, h⟩⟩
    rw [he, hex]
    by_cases hr : module.spec.replicas < GetNodesCount nodes
    · rw [if_pos (.inr hr)]
      exact iff_of_false (by decide) fun h => absurd h.1 (by omega)
    · rw [if_neg (by omega)]
      simp only [Bool.not_not, if_pos ha.2, Bool.or_eq_true, Bool.not_eq_true', List.any_eq_true]
      split
      · rename_i h; simpa using ⟨by omega, .inl h⟩
      · rename_i h
        split
        · rename_i h'; simpa using ⟨by omega, .inr h'⟩
        · rename_i h'
          exact iff_of_false (by decide) fun hc => hc.2.elim h h'
  · rw [he]
    refine iff_of_false ?_ fun h => h.2.elim fun b hb => hno b hb.1
    split
    · decide
    · simp [hn]

/-- The node exists in the provider and no image or no flavor is recorded for it. -/
def MissingData (node : Node) : Prop :=
  NodeExists node = true ∧
    (node.status.nodeProperties.image = "" ∨ node.status.nodeProperties.flavor = "")

instance (node : Node) : Decidable (MissingData node) := inferInstanceAs (Decidable (_ ∧ _))

/-- If an image and a flavor are recorded for the node, they are those of the Module. -/
def RecordedAs (module : Module) (node : Node) : Prop :=
  node.status.nodeProperties.image ≠ "" → node.status.nodeProperties.flavor ≠ "" →
    node.status.nodeProperties.image = module.spec.image ∧
      node.status.nodeProperties.flavor = module.spec.flavor

instance (module : Module) (node : Node) : Decidable (RecordedAs module node) :=
  inferInstanceAs (Decidable (_ → _ → _))

/-- A node that exists differs from a healthy one exactly if it has missing data, when all
recorded data is that of the Module. -/
theorem mismatches_iff {module : Module} {a node : Node} (ha : NodeIsHealthy a = true)
    (hra : RecordedAs module a) (hrn : RecordedAs module node) :
    mismatches a node = true ↔ node.spec.hostname ≠ a.spec.hostname ∧ MissingData node := by
  obtain ⟨-, hi, hf⟩ := healthy_spec ha
  obtain ⟨ei, ef⟩ := hra hi hf
  rw [mismatches_eq_true, MissingData]
  refine and_congr_right fun _ => and_congr_right fun _ => ⟨fun h => ?_, ?_⟩
  · by_contra hc
    rw [not_or] at hc
    obtain ⟨ei', ef'⟩ := hrn hc.1 hc.2
    rcases h with h | h
    · exact h (ef.trans ef'.symm)
    · exact h (ei.trans ei'.symm)
  · rintro (h | h)
    · exact .inr (h ▸ hi)
    · exact .inl (h ▸ hf)

/-- If all recorded data is that of the Module, the upgrades are those that nodes with missing
data start. -/
theorem upgrade_iff_missing {module : Module} {nodes : List Node}
    (hrec : ∀ node ∈ nodes, RecordedAs module node) :
    actionFor module nodes = "Upgrade" ↔
      GetNodesCount nodes ≤ module.spec.replicas ∧ ∃ a, Reference nodes a ∧
        ∃ node ∈ nodes, node.spec.hostname ≠ a.spec.hostname ∧ MissingData node := by
  rw [upgrade_iff]
  refine and_congr_right fun _ => exists_congr fun a => and_congr_right fun ha => ?_
  obtain ⟨hm, hh⟩ := ha.healthy
  obtain ⟨-, hi, hf⟩ := healthy_spec hh
  obtain ⟨ei, ef⟩ := hrec a hm hi hf
  have hdiff : ¬ (EqNodeFlavor a module.spec.flavor = false ∨
      EqNodeImage a module.spec.image = false) := by
    simp [EqNodeFlavor, EqNodeImage, ei, ef]
  rw [or_iff_left hdiff]
  exact exists_congr fun node => and_congr_right fun hn =>
    mismatches_iff hh (hrec a hm) (hrec node hn)

/-- The action that `chooseModuleAction` returns for the Nodes that the API lists, in whatever
way the calls are answered. -/
theorem chooseModuleAction_run {σ : Type} {h : σ → (op : Request) → op.Reply × σ} {s : σ}
    {module : Module} {nodes : List Node} (hr : module.spec.replicas ≠ 0)
    (hl : (h s (.list .node module.metadata.ns)).1 = .ok nodes) :
    (run h (chooseModuleAction module) s).outcome =
      .done (if serviceNameOf module.metadata = "" ∨ module.metadata.ns = "" then
        .error (.new "cannot retrieve nodes: invalid service and/or namspace")
      else .ok (actionFor module (nodesOfService (serviceNameOf module.metadata) nodes))) := by
  unfold chooseModuleAction retrieveNodesForService
  rw [if_neg hr]
  split
  · rfl
  · rw [bind_assoc, list_bind, run_call, hl]
    rfl

/-- Which Modules are spared: with the data of each fully recorded node that of the Module,
`chooseModuleAction` does not upgrade exactly when no node with missing data is compared with a
healthy one. -/
theorem spared_iff {σ : Type} {h : σ → (op : Request) → op.Reply × σ} {s : σ}
    {module : Module} {nodes : List Node} (hr : 0 < module.spec.replicas)
    (hl : (h s (.list .node module.metadata.ns)).1 = .ok nodes)
    (hrec : ∀ node ∈ nodesOfService (serviceNameOf module.metadata) nodes,
      RecordedAs module node) :
    (run h (chooseModuleAction module) s).outcome ≠ .done (.ok "Upgrade") ↔
      serviceNameOf module.metadata = "" ∨ module.metadata.ns = "" ∨
      module.spec.replicas < GetNodesCount (nodesOfService (serviceNameOf module.metadata) nodes) ∨
      ∀ a, Reference (nodesOfService (serviceNameOf module.metadata) nodes) a →
        ∀ node ∈ nodesOfService (serviceNameOf module.metadata) nodes,
          MissingData node → node.spec.hostname = a.spec.hostname := by
  rw [chooseModuleAction_run hr.ne' hl]
  by_cases hn : serviceNameOf module.metadata = "" ∨ module.metadata.ns = ""
  · rw [if_pos hn]
    refine iff_of_true (by simp) ?_
    rcases hn with h | h
    · exact .inl h
    · exact .inr (.inl h)
  · rw [if_neg hn]
    rw [not_or] at hn
    rw [or_iff_right hn.1, or_iff_right hn.2, ne_eq, Outcome.done.injEq, Except.ok.injEq,
      upgrade_iff_missing hrec, not_and_or, not_le]
    refine or_congr_right ?_
    constructor
    · intro h a ha node hm hd
      by_contra hc
      exact h ⟨a, ha, node, hm, hc, hd⟩
    · rintro h ⟨a, ha, node, hm, hc, hd⟩
      exact hc (h a ha node hm hd)

/-! ### Two nodes, one without data -/

/-- A Module of two replicas. -/
def webModule : Module where
  metadata := { name := "web-module", ns := "default",
                annotations := Finmap.insert serviceNameAnnotation "web" ∅ }
  spec := { source := "web", image := "web-1", replicas := 2, flavor := "m1" }
  status := {}

/-- A healthy machine. -/
def healthyProperties : NodeProperties :=
  { id := "7d3c", node := "web-0", address := "10.0.0.1", flavor := "m1", image := "web-1" }

/-- What the node controller records when it cannot make a Consul client. -/
def consulProperties : NodeProperties :=
  { id := consulConnectionError, node := "missing port in address" }

/-- The Node of replica `i` of `webModule` with this status. -/
def webNode (i : Nat) (properties : NodeProperties) : Node :=
  { newNode "web" "default" ("web-" ++ toString i) i with
    status := { nodeProperties := properties } }

/-- A server with the Nodes of both replicas, where the second one has the given status. -/
def webCluster (second : NodeProperties) : Cluster :=
  Cluster.empty.setTbl .node
    ((Data.Table.empty.put (webNode 0 healthyProperties)).put (webNode 1 second))

/-- An upgrade on missing data: the second node has no image and no flavor. -/
theorem missing_data_upgrades :
    ¬ ∀ (module : Module) (c : Cluster), 0 < module.spec.replicas →
      (∀ node ∈ nodesOfService (serviceNameOf module.metadata)
        (c.inNamespace .node module.metadata.ns), RecordedAs module node) →
      (run serve (chooseModuleAction module) c).outcome ≠ .done (.ok "Upgrade") := by
  intro h
  refine h webModule (webCluster consulProperties) (by decide) ?_ (by decide)
  decide

/-- What the node controller records for a machine that Consul does not have. -/
def noMachine : NodeProperties := { id := nonExistentMachine, node := nonExistentMachine }

/-- Without the machine there is nothing to compare. -/
theorem spared_web :
    (run serve (chooseModuleAction webModule) (webCluster noMachine)).outcome ≠
      .done (.ok "Upgrade") := by
  have hl : (serve (webCluster noMachine) (.list .node webModule.metadata.ns)).1 =
    .ok [webNode 0 healthyProperties, webNode 1 noMachine] := rfl
  have hm : ∀ node ∈ nodesOfService (serviceNameOf webModule.metadata)
      [webNode 0 healthyProperties, webNode 1 noMachine], ¬ MissingData node := by decide
  exact (spared_iff (by decide) hl (by decide)).mpr
    (.inr (.inr (.inr fun _ _ node hn hd => absurd hd (hm node hn))))

end ReconcileModule

end Automium
