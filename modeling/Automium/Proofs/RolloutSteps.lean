import Automium.Proofs.Panics
import Automium.Proofs.RolloutKeeps
import Automium.Proofs.ScaleDown
import Automium.Proofs.Settling

/-!
# What a reconcile adds to a rollout

A reconcile whose calls all succeed brings the rollout on: one of the Service stores the Module, one
of the Module removes an old Job, creates the new one, adds the missing Nodes or brings the status
up to date, whichever is due; and in the end one of the Service copies the phase.
-/

namespace Automium

open Data Effect ReconcileService ReconcileModule

namespace Rollout

section

variable {d : Rollout} {K : Facts} {c c' : Cluster} {sort : SliceSort} {inst : Module} {job : Job}
  {Q : Cluster → Prop}

/-! ## The Service -/

/-- Each replica has its Node, and the other Nodes are marked. -/
structure Scaled (d : Rollout) (c : Cluster) : Prop where
  all : ∀ i < d.replicas, c.find? .node (d.nodeKey i) ≠ none
  marked : ∀ i, d.replicas ≤ i → i < d.bound → ∀ node : Node,
    c.find? .node (d.nodeKey i) = some node → node.spec.deletionDate ≠ ""

theorem Scaled.of_tbl_eq (h : d.Scaled c) (htbl : c'.tbl .node = c.tbl .node) : d.Scaled c' := by
  have hfind : ∀ key, c'.find? .node key = c.find? .node key := fun key => by
    rw [Cluster.find?, htbl]
    rfl
  exact ⟨fun i hi => by rw [hfind]; exact h.all i hi,
    fun i hi hlt node hf => h.marked i hi hlt node (by rwa [← hfind])⟩

end

end Rollout

end Automium
