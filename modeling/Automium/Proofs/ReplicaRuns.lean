import Automium.Effect.Runs
import Automium.Proofs.Replicas

/-!
# The Nodes of a Module over a whole run

The users change the number of replicas, the Module controller calls `manageNodesForModule`, and
the node controller removes marked Nodes, in any order. After a call the unmarked Nodes are those
of the wanted replicas exactly if no call of the run met a state where marked Nodes are in the way
(`replica_runs_iff`): such a call counts them as replicas that are there.
-/

namespace Automium

open Data Effect

namespace ReconcileModule

/-- The wanted number of replicas, and the store. -/
structure ReplicaState where
  replicas : Nat
  cluster : Cluster

/-- A step: the user scales, `manageNodesForModule` is called and returns, or the node controller
removes a Node. -/
inductive ReplicaStep where
  | scale (replicas : Nat)
  | manage (res : Except Error Unit)
  | remove (key : Key)

/-- The Module when `replicas` are wanted. -/
def scaled (inst : Module) (replicas : Nat) : Module :=
  { inst with spec := { inst.spec with replicas := replicas } }

/-- The steps on the Nodes of the Module `inst` (module doc). The number of replicas is an `int`. -/
inductive ReplicaStep.Steps (sort : SliceSort) (inst : Module) :
    ReplicaState → ReplicaStep → ReplicaState → Prop
  | scale {s : ReplicaState} {replicas : Nat} : replicas ≤ Go.maxInt →
      Steps sort inst s (.scale replicas) { s with replicas := replicas }
  | manage {s : ReplicaState} {tr : List (Event Api Cluster)} {res : Except Error Unit}
      {c' : Cluster} :
      Exec calm (manageNodesForModule sort (scaled inst s.replicas)) s.cluster tr (.done res) c' →
        Steps sort inst s (.manage res) { s with cluster := c' }
  | remove {s : ReplicaState} {node : Node} {c' : Cluster} :
      s.cluster.find? .node node.key = some node → node.spec.deletionDate ≠ "" →
      Serves s.cluster (.delete .node node.key) (.ok ()) c' →
        Steps sort inst s (.remove node.key) { s with cluster := c' }

/-- The runs start without Nodes. -/
def replicaSys (sort : SliceSort) (inst : Module) : Sys ReplicaState ReplicaStep where
  init s := s.replicas ≤ Go.maxInt ∧ ∀ node : Node, ¬ node ∈ s.cluster.tbl .node
  step := ReplicaStep.Steps sort inst

/-- The Nodes of the Module's service in its namespace. -/
def serviceNodes (inst : Module) (c : Cluster) : List Node :=
  nodesOfService (serviceNameOf inst.metadata) (c.inNamespace .node inst.metadata.ns)

/-- The unmarked Nodes of the service are exactly those of the replicas below `R`. -/
def Exact (inst : Module) (R : Nat) (c : Cluster) : Prop :=
  ∀ name, (∃ node ∈ serviceNodes inst c, node.spec.deletionDate = "" ∧ node.metadata.name = name) ↔
    ∃ i < R, name = nodeName (serviceNameOf inst.metadata) i

/-- After the step, if it is a call that returns nil, the unmarked Nodes are those wanted. -/
def ExactAfter (inst : Module) (t : Trans ReplicaState ReplicaStep) : Prop :=
  t.lbl = .manage (.ok ()) → Exact inst t.post.replicas t.post.cluster

/-- Before a call that returns nil: there are unmarked Nodes enough, or there are too few Nodes and
no marked one has a wanted number. -/
def Unobstructed (inst : Module) (t : Trans ReplicaState ReplicaStep) : Prop :=
  t.lbl = .manage (.ok ()) →
    t.pre.replicas ≤
        ((serviceNodes inst t.pre.cluster).filter fun node => node.spec.deletionDate = "").length ∨
      (serviceNodes inst t.pre.cluster).length < t.pre.replicas ∧
        ∀ node ∈ serviceNodes inst t.pre.cluster, node.spec.deletionDate ≠ "" →
          t.pre.replicas ≤ nodeIndex node

section

variable {inst : Module} {c : Cluster} {rs : ReplicaSet} {R k : Nat}

/-- The store holds the replica set, for the names of `inst`. -/
abbrev HoldsFor (inst : Module) (c : Cluster) (rs : ReplicaSet) : Prop :=
  Holds (serviceNameOf inst.metadata) inst.metadata.ns (baseOf inst) c rs

theorem HoldsFor.serviceNodes_perm (h : HoldsFor inst c rs) :
    (serviceNodes inst c).Perm (c.tbl .node).items :=
  h.listed (.refl _)

theorem HoldsFor.mem_serviceNodes (h : HoldsFor inst c rs) {node : Node} :
    node ∈ serviceNodes inst c ↔ node ∈ c.tbl .node :=
  h.serviceNodes_perm.mem_iff

/-- The live numbers say which Nodes are unmarked. -/
theorem HoldsFor.exact_iff (h : HoldsFor inst c rs) :
    Exact inst R c ↔ rs.live = Finset.range R := by
  have hlive : ∀ i, i ∈ rs.live ↔ ∃ node ∈ serviceNodes inst c, node.spec.deletionDate = "" ∧
      node.metadata.name = nodeName (serviceNameOf inst.metadata) i := by
    intro i
    rw [h.live]
    constructor
    · rintro ⟨node, hm, hi, hd⟩
      exact ⟨node, h.mem_serviceNodes.mpr hm, hd, hi.name⟩
    · rintro ⟨node, hm, hd, hn⟩
      obtain ⟨j, hj⟩ := h.numbered node (h.mem_serviceNodes.mp hm)
      have hji := (nodeName_inj (hj.name.symm.trans hn)).2
      exact ⟨node, h.mem_serviceNodes.mp hm, hji ▸ hj, hd⟩
  constructor
  · intro hex
    ext i
    rw [hlive, hex, Finset.mem_range]
    exact ⟨fun ⟨j, hj, e⟩ => (nodeName_inj e).2 ▸ hj, fun hi => ⟨i, hi, rfl⟩⟩
  · intro hr name
    constructor
    · rintro ⟨node, hm, hd, rfl⟩
      obtain ⟨i, hi⟩ := h.numbered node (h.mem_serviceNodes.mp hm)
      refine ⟨i, ?_, hi.name⟩
      rw [← Finset.mem_range, ← hr, hlive]
      exact ⟨node, hm, hd, hi.name⟩
    · rintro ⟨i, hi, rfl⟩
      exact (hlive i).mp (hr ▸ Finset.mem_range.mpr hi)

/-- The number of unmarked Nodes is that of the live numbers. -/
theorem HoldsFor.card_live (hd : Go.NoDigit (baseOf inst)) (h : HoldsFor inst c rs) :
    ((serviceNodes inst c).filter fun node => node.spec.deletionDate = "").length =
      rs.live.card := by
  obtain ⟨hnd, -⟩ := h.indices hd h.serviceNodes_perm
  have hset : (((serviceNodes inst c).filter fun node => node.spec.deletionDate = "").map
      nodeIndex).toFinset = rs.live := by
    ext i
    rw [List.mem_toFinset, List.mem_map, h.live]
    constructor
    · rintro ⟨node, hm, rfl⟩
      obtain ⟨hm, hdate⟩ := List.mem_filter.mp hm
      have hm := h.mem_serviceNodes.mp hm
      obtain ⟨j, hj⟩ := h.numbered node hm
      exact ⟨node, hm, (hj.index hd).symm ▸ hj, by simpa using hdate⟩
    · rintro ⟨node, hm, hi, hdate⟩
      exact ⟨node, List.mem_filter.mpr ⟨h.mem_serviceNodes.mpr hm, by simpa using hdate⟩,
        hi.index hd⟩
  rw [← hset, List.toFinset_card_of_nodup (hnd.sublist (List.filter_sublist.map _)),
    List.length_map]

/-- The condition on the Nodes is the one on the replica set. -/
theorem HoldsFor.reachable_iff (hd : Go.NoDigit (baseOf inst)) (h : HoldsFor inst c rs) :
    (R ≤ ((serviceNodes inst c).filter fun node => node.spec.deletionDate = "").length ∨
      (serviceNodes inst c).length < R ∧
        ∀ node ∈ serviceNodes inst c, node.spec.deletionDate ≠ "" → R ≤ nodeIndex node) ↔
      rs.Reachable R := by
  unfold ReplicaSet.Reachable
  rw [h.card_live hd, h.card hd h.serviceNodes_perm]
  refine or_congr_right (and_congr_right fun _ => ?_)
  constructor
  · intro hall i hi
    obtain ⟨node, hm, hn, hdate⟩ := (h.marked i).mp hi
    exact hn.index hd ▸ hall node (h.mem_serviceNodes.mpr hm) hdate
  · intro hall node hm hdate
    have hm := h.mem_serviceNodes.mp hm
    obtain ⟨i, hi⟩ := h.numbered node hm
    rw [hi.index hd]
    exact hall i ((h.marked i).mpr ⟨node, hm, hi, hdate⟩)

end

/-! ## Runs -/

/-- The invariant: the Nodes are a packed replica set. -/
def PackedNodes (inst : Module) (s : ReplicaState) : Prop :=
  s.replicas ≤ Go.maxInt ∧ ∃ rs k, HoldsFor inst s.cluster rs ∧ rs.Packed k

theorem packedNodes_init {sort : SliceSort} {inst : Module} {s : ReplicaState}
    (h : (replicaSys sort inst).init s) : PackedNodes inst s := by
  obtain ⟨hmax, hnone⟩ := h
  refine ⟨hmax, ReplicaSet.empty, 0, ⟨fun node hm => absurd hm (hnone node), fun i => ?_,
    fun i => ?_⟩, ReplicaSet.packed_empty⟩ <;>
  · simp only [ReplicaSet.empty, Finset.notMem_empty, false_iff]
    rintro ⟨node, hm, -⟩
    exact hnone node hm

/-- A step from a packed replica set: what it does to the set, and when it keeps it packed. -/
theorem packedNodes_step {sort : SliceSort} {inst : Module} (hd : Go.NoDigit (baseOf inst))
    {t : Trans ReplicaState ReplicaStep} (hs : ReplicaStep.Steps sort inst t.pre t.lbl t.post)
    (hI : PackedNodes inst t.pre) :
    (ExactAfter inst t ↔ Unobstructed inst t) ∧
      (Unobstructed inst t → PackedNodes inst t.post) := by
  obtain ⟨pre, lbl, post⟩ := t
  obtain ⟨hmax, rs, k, h, hp⟩ := hI
  dsimp only at hs hmax h
  cases hs with
  | scale hle => exact ⟨iff_of_true nofun nofun, fun _ => ⟨hle, rs, k, h, hp⟩⟩
  | @remove node c' hf hdate ha =>
    refine ⟨iff_of_true nofun nofun, fun _ => ⟨hmax, ?_⟩⟩
    obtain ⟨i, hi⟩ := h.numbered node (find?_mem hf)
    cases (serve_delete hf).symm.trans ha
    exact ⟨rs.remove i, k, h.remove (find?_mem hf) hi hdate, hp.remove⟩
  | @manage tr res c' he =>
    have hd' : Go.NoDigit (baseOf (scaled inst pre.replicas)) := hd
    rcases manageNodes_exec hd' rfl hmax h he with ⟨rfl, h'⟩ | ⟨⟨e, rfl⟩, rfl⟩
    · have h' : HoldsFor inst c' (rs.manage pre.replicas) := h'
      have hiff : Exact inst pre.replicas c' ↔ rs.Reachable pre.replicas :=
        h'.exact_iff.trans (ReplicaSet.manage_live_iff hp)
      have hcond := HoldsFor.reachable_iff (R := pre.replicas) hd h
      refine ⟨?_, fun hu => ⟨hmax, _, _, h', hp.manage (hcond.mp (hu rfl))⟩⟩
      exact ⟨fun hex _ => hcond.mpr (hiff.mp (hex rfl)), fun hu _ => hiff.mpr (hcond.mp (hu rfl))⟩
    · exact ⟨iff_of_true nofun nofun, fun _ => ⟨hmax, rs, k, h, hp⟩⟩

/-- The runs after each of whose calls the unmarked Nodes are exactly the wanted replicas: those in
which no call meets marked Nodes in the way. -/
theorem replica_runs_iff {sort : SliceSort} {inst : Module} {s : ReplicaState}
    {ts : List (Trans ReplicaState ReplicaStep)}
    (ha : Go.NoDigit (appNameOf inst.metadata)) (hs : Go.NoDigit (serviceNameOf inst.metadata))
    (hc : Go.NoDigit (clusterNameOf (serviceNameOf inst.metadata) inst.spec.env))
    (h : Run (replicaSys sort inst) ts s) :
    (∀ t ∈ ts, ExactAfter inst t) ↔ ∀ t ∈ ts, Unobstructed inst t := by
  have hd : Go.NoDigit (baseOf inst) := by
    unfold baseOf
    split
    · rename_i base hb
      exact hostBase_noDigit ha hs hc hb
    · decide
  exact h.forall_iff (I := PackedNodes inst) (fun s hi => packedNodes_init hi)
    (fun t hst hI hu => (packedNodes_step hd hst hI).2 hu)
    (fun t hst hI => (packedNodes_step hd hst hI).1)

/-! ### Down and up again -/

/-- A Module of the app `nginx`. -/
def nginxModule : Module where
  metadata := { name := "web-module", ns := "default",
                annotations := Finmap.insert serviceNameAnnotation "web"
                  (Finmap.insert appNameAnnotation "nginx" ∅) }
  spec := { source := "nginx", image := "nginx-1", replicas := 0, flavor := "m1" }
  status := {}

/-- The call of `manageNodesForModule` in a state. -/
def managed (s : ReplicaState) : ReplicaState :=
  { s with cluster :=
      (run serve (manageNodesForModule insertionSort (scaled nginxModule s.replicas)) s.cluster).final }

/-- The user wants `replicas`, and then the controller manages them. -/
def scaleAndManage (replicas : Nat) (s : ReplicaState) : List (Trans ReplicaState ReplicaStep) :=
  [⟨s, .scale replicas, { s with replicas := replicas }⟩,
    ⟨{ s with replicas := replicas }, .manage (.ok ()), managed { s with replicas := replicas }⟩]

/-- The state after `scaleAndManage`. -/
def afterScale (replicas : Nat) (s : ReplicaState) : ReplicaState :=
  managed { s with replicas := replicas }

theorem run_scaleAndManage {ts : List (Trans ReplicaState ReplicaStep)} {s : ReplicaState}
    (replicas : Nat) (hr : replicas ≤ Go.maxInt)
    (h : Run (replicaSys insertionSort nginxModule) ts s)
    (ho : (run serve (manageNodesForModule insertionSort (scaled nginxModule replicas))
      s.cluster).outcome = .done (.ok ())) :
    Run (replicaSys insertionSort nginxModule) (ts ++ scaleAndManage replicas s)
      (afterScale replicas s) := by
  have hexec := calm_run (manageNodesForModule insertionSort (scaled nginxModule replicas)) s.cluster
  rw [ho] at hexec
  have h₂ := (h.snoc (.scale hr)).snoc (.manage hexec)
  rwa [List.append_assoc] at h₂

def noNodes : ReplicaState := ⟨0, Cluster.empty⟩

theorem noNodes_run : Run (replicaSys insertionSort nginxModule) [] noNodes :=
  .nil ⟨Nat.zero_le _, fun _ => Table.not_mem_empty⟩

theorem replica_runs_up :
    Run (replicaSys insertionSort nginxModule) (scaleAndManage 3 noNodes) (afterScale 3 noNodes) ∧
      ∀ t ∈ scaleAndManage 3 noNodes, ExactAfter nginxModule t := by
  have hrun := run_scaleAndManage 3 (by decide) noNodes_run (by decide)
  rw [List.nil_append] at hrun
  refine ⟨hrun, (replica_runs_iff (by decide) (by decide) (by decide) hrun).mpr fun t ht => ?_⟩
  rcases List.mem_pair.mp ht with rfl | rfl
  · nofun
  · exact fun _ => by decide

/-- Three replicas, one, and three again before the marked Nodes are gone. -/
def downAndUp : List (Trans ReplicaState ReplicaStep) :=
  scaleAndManage 3 noNodes ++ scaleAndManage 1 (afterScale 3 noNodes) ++
    scaleAndManage 3 (afterScale 1 (afterScale 3 noNodes))

/-- The last call of `downAndUp` finds three Nodes and leaves them, with two of them marked. -/
theorem down_and_up_keeps_marks :
    ¬ ∀ (sort : SliceSort) (inst : Module) (ts : List (Trans ReplicaState ReplicaStep))
      (s : ReplicaState), Go.NoDigit (appNameOf inst.metadata) →
      Go.NoDigit (serviceNameOf inst.metadata) →
      Go.NoDigit (clusterNameOf (serviceNameOf inst.metadata) inst.spec.env) →
      Run (replicaSys sort inst) ts s → ∀ t ∈ ts, ExactAfter inst t := by
  intro h
  have h₁ := run_scaleAndManage 3 (by decide) noNodes_run (by decide)
  have h₂ := run_scaleAndManage 1 (by decide) h₁ (by decide)
  have h₃ := run_scaleAndManage 3 (by decide) h₂ (by decide)
  have hexact := h insertionSort nginxModule downAndUp _ (by decide) (by decide) (by decide) h₃
    _ (List.mem_append_right _ (List.mem_cons_of_mem _ List.mem_cons_self)) rfl
  exact absurd ((hexact "web-node-1").mpr ⟨1, by decide, by decide⟩) (by decide)

end ReconcileModule

end Automium
