import Automium.Controller.Module

/-!
# The counters of the status of a Module

`getUpdatedNodes` counts the replicas in one pass over all Nodes of the namespace. Its two counters
are those of the Nodes of the service (`foldl_countNode`), in any order, and `updateModuleStatus`
writes them next to the phase (`updateModuleStatus_cases`).
-/

namespace Automium

open Effect

namespace ReconcileModule

/-- The Nodes of the Module's service that are healthy and have its image and its flavor. -/
def upToDate (inst : Module) (nodes : List Node) : Int :=
  ((nodesOfService (serviceNameOf inst.metadata) nodes).filter fun node =>
    NodeIsHealthy node && EqNodeImage node inst.spec.image &&
      EqNodeFlavor node inst.spec.flavor).length

/-- The Nodes of the Module's service that are healthy; if nothing is deployed, only those that are
not up to date. -/
def upAndRunning (inst : Module) (action : String) (nodes : List Node) : Int :=
  ((nodesOfService (serviceNameOf inst.metadata) nodes).filter fun node =>
    NodeIsHealthy node && (decide (action = "Deploy") ||
      !(EqNodeImage node inst.spec.image && EqNodeFlavor node inst.spec.flavor))).length

/-- The Module with the status that `updateModuleStatus` sends, for a list of Nodes. -/
def reported (inst : Module) (action phase : String) (nodes : List Node) : Module :=
  let count := nodes.foldl (countNode (serviceNameOf inst.metadata) action inst.spec.image
    inst.spec.flavor) (0, 0)
  { inst with status := { phase := phase, replicas := inst.spec.replicas,
                          currentReplicas := count.1, updatedReplicas := count.2 } }

section

variable {inst : Module} {action phase : String} {nodes nodes' : List Node}

/-- The loop counts the Nodes of the service. -/
theorem foldl_countNode (count : Int × Int) :
    nodes.foldl (countNode (serviceNameOf inst.metadata) action inst.spec.image inst.spec.flavor)
      count = (count.1 + upAndRunning inst action nodes, count.2 + upToDate inst nodes) := by
  induction nodes generalizing count with
  | nil => simp [upAndRunning, upToDate, nodesOfService]
  | cons node rest ih =>
    rw [List.foldl_cons, ih]
    simp only [countNode, upAndRunning, upToDate, nodesOfService, EqNodeImage, EqNodeFlavor]
    by_cases hsvc : serviceNameOf node.metadata = serviceNameOf inst.metadata
    · by_cases hhealthy : NodeIsHealthy node = true
      · by_cases hsame : node.status.nodeProperties.image = inst.spec.image ∧
            node.status.nodeProperties.flavor = inst.spec.flavor
        · by_cases hdeploy : action = "Deploy"
          · simp [hsvc, hhealthy, hsame, hdeploy]
            omega
          · simp [hsvc, hhealthy, hsame, hdeploy]
            omega
        · simp [hsvc, hhealthy, hsame, not_and_or.mp hsame]
          omega
      · simp [hsvc, hhealthy]
    · simp [hsvc]

/-- What is reported. -/
theorem reported_status : (reported inst action phase nodes).status =
    { phase := phase, replicas := inst.spec.replicas,
      currentReplicas := upAndRunning inst action nodes, updatedReplicas := upToDate inst nodes } := by
  unfold reported
  rw [foldl_countNode, Int.zero_add, Int.zero_add]

/-- The counter of the updated replicas. -/
theorem reported_updated (inst : Module) (action phase : String) (nodes : List Node) :
    (reported inst action phase nodes).status.updatedReplicas = upToDate inst nodes := by
  rw [reported_status]

/-- The order of the Nodes does not matter. -/
theorem reported_perm (h : nodes.Perm nodes') :
    (reported inst action phase nodes).status = (reported inst action phase nodes').status := by
  have hnodes : (nodesOfService (serviceNameOf inst.metadata) nodes).Perm
      (nodesOfService (serviceNameOf inst.metadata) nodes') := h.filter _
  rw [reported_status, reported_status, upAndRunning, upAndRunning, upToDate, upToDate,
    (hnodes.filter _).length_eq, (hnodes.filter _).length_eq]

end

/-- The write of the status, if it is another one. -/
def writeStatus (inst m : Module) : Ctl (Except Error Unit) :=
  if inst.status = m.status then return .ok ()
  else do
    match ← updateStatus .module m with
    | .error e => return .error e
    | .ok _ => return .ok ()

/-- `updateModuleStatus` fails for want of names, or it lists the Nodes and writes what it reports. -/
theorem updateModuleStatus_cases (inst : Module) (action phase : String) :
    (inst.metadata.ns = "" ∧ ∃ e, updateModuleStatus inst action phase = .ret (.error e)) ∨
      ∃ k, updateModuleStatus inst action phase = .call (.list .node inst.metadata.ns) k ∧
        (∀ e, k (.error e) = .ret (.error e)) ∧
        ∀ nodes, k (.ok nodes) = writeStatus inst (reported inst action phase nodes) := by
  unfold updateModuleStatus getUpdatedNodes
  split
  · rename_i hempty
    exact .inl ⟨hempty.1, _, rfl⟩
  · exact .inr ⟨_, rfl, fun _ => rfl, fun _ => rfl⟩

/-- It writes at most what it reports. -/
theorem updateModuleStatus_uses (inst : Module) (action phase : String) :
    Uses (fun op : Request => op = .list .node inst.metadata.ns ∨
        ∃ nodes, op = .updateStatus .module (reported inst action phase nodes))
      (updateModuleStatus inst action phase) := by
  rcases updateModuleStatus_cases inst action phase with ⟨-, e, he⟩ | ⟨k, hk, herr, hok⟩
  · rw [he]
    trivial
  rw [hk]
  refine ⟨.inl rfl, fun r _ => ?_⟩
  cases r with
  | error e =>
    rw [herr]
    trivial
  | ok nodes =>
    rw [hok]
    unfold writeStatus
    split
    · trivial
    · rw [updateStatus_bind]
      refine ⟨.inr ⟨nodes, rfl⟩, fun r _ => ?_⟩
      cases r <;> trivial

end ReconcileModule

end Automium
