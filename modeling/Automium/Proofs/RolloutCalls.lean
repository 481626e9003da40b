import Automium.Proofs.Rollout

/-!
# The calls around a rollout

Which calls keep `Rollout.At`, whatever is known so far (`keeps_*`), and what the replies of a server
say about the object or the list that was asked for (`heard_get`, `heard_listed`).
-/

namespace Automium

open Data Effect ReconcileService ReconcileModule

namespace Rollout

section

variable {d : Rollout} {K : Facts} {c c' : Cluster} {op : Request} {i : ℕ}

/-! ## Calls that write nothing of the Service -/

theorem keeps_of_writes (h : ∀ k, op.writes = some k → ¬ OwnKind k) : lossy.Keeps (d.At K) op := by
  rintro c r c' hc (hs | ⟨-, rfl⟩)
  · exact hc.of_tbl_eq hs.env_eq fun k hk => hs.tbl_eq fun e => h k e hk
  · exact hc

theorem keeps_read (h : op.writes = none) : lossy.Keeps (d.At K) op :=
  keeps_of_writes (by simp [h])

/-! ## The Service and its Module -/

theorem keeps_updateStatus_service {s : Service}
    (hs : K.reported = true → s.status.phase = StatusPhaseCompleted) :
    lossy.Keeps (d.At K) (.updateStatus .service s) := by
  rintro c r c' hc (ha | ⟨-, rfl⟩)
  · rcases ha.updateStatus_cases with ⟨rfl, -⟩ | ⟨old, hf, -, -, rfl⟩
    · exact hc
    · refine hc.write_service (hc.service.put fun hkey => ⟨?_, hs⟩)
      have hold : c.find? .service d.service.key = some old := by
        rw [← hkey, statusObj_key, find?_key hf]
        exact hf
      obtain ⟨hname, hns, hlabels, hspec⟩ := hc.service.same old hold
      exact ⟨hname, hns, hlabels, hspec⟩
  · exact hc

theorem keeps_create_module (hK : K.Valid d.bound) {m : Module} (hkey : m.key = d.moduleKey)
    (hm : d.IsModule m) : lossy.Keeps (d.At K) (.create .module m) := by
  rintro c r c' hc (ha | ⟨-, rfl⟩)
  · rcases ha.create_cases with ⟨rfl, -⟩ | ⟨hf, -, rfl⟩
    · exact hc
    · rw [hkey] at hf
      have hnew : ¬ K.counted = true := fun hcounted =>
        hc.module.rendered (hK.counted hcounted).1 hf
      exact hc.write_module (hc.module.put fun _ => ⟨⟨hm.spec, hm.service, hm.app⟩,
        fun hcounted => absurd hcounted hnew,
        fun hcompleted => absurd (hK.completed hcompleted) hnew⟩)
  · exact hc

theorem keeps_update_module {m : Module} (hm : d.IsModule m) :
    lossy.Keeps (d.At K) (.update .module m) := by
  rintro c r c' hc (ha | ⟨-, rfl⟩)
  · rcases ha.update_cases with ⟨rfl, -⟩ | ⟨old, hf, -, -, rfl⟩
    · exact hc
    · refine hc.write_module (hc.module.put fun hkey => ?_)
      have hold : c.find? .module d.moduleKey = some old := by rwa [← hkey]
      exact ⟨⟨hm.spec, hm.service, hm.app⟩, fun h => hc.module.counted h old hold,
        fun h => hc.module.completed h old hold⟩
  · exact hc

theorem Replica.ns_eq {node : Node} (h : d.Replica i node) : node.metadata.ns = d.ns :=
  (Key.mk.inj h.key).1

/-- The Node of a replica is stored as such. -/
theorem At.nodeAt (h : d.At K c) {node : Node} (hi : i < d.bound)
    (hf : c.find? .node (d.nodeKey i) = some node) : d.NodeAt K i node := by
  have hkey := find?_key hf
  obtain ⟨j, hj⟩ := h.nodes.ours node (find?_mem hf) (.inr ⟨i, hi, hkey⟩)
  obtain rfl := nodeKey_inj (hkey.symm.trans hj.replica.key)
  exact hj

theorem heard_get {k : Kind} {key : Key} {o : k.Obj}
    (h : lossy.Heard (d.At K) (.get k key) (.ok o)) : ∃ c, d.At K c ∧ c.find? k key = some o := by
  obtain ⟨c, c', hc, ha | ⟨⟨e, he⟩, -⟩⟩ := h
  · exact ⟨c, hc, (Serves.get_ok ha).2 o rfl⟩
  · cases he

/-- The Nodes of the Service in a list of the server. -/
structure Listing (d : Rollout) (K : Facts) (nodes : List Node) : Prop where
  nodeAt : ∀ node ∈ nodes, ∃ i, d.NodeAt K i node
  nodup : (nodes.map Object.key).Nodup
  scaled : K.scaled = true ∨ d.replicas < d.bound →
    ∀ i < d.replicas, d.nodeKey i ∈ nodes.map Object.key

theorem At.listing (h : d.At K c) {l : List Node} (hl : l.Perm (c.inNamespace .node d.ns)) :
    d.Listing K (nodesOfService d.name l) := by
  refine ⟨fun node hm => ?_, nodup_listed hl, fun hs i hi => ?_⟩
  · obtain ⟨hstored, hns, hservice⟩ := (mem_listed hl).mp hm
    exact h.nodes.ours node hstored (.inl ⟨hns.resolve_left d.ns_ne, hservice⟩)
  · obtain ⟨node, hf⟩ := Option.ne_none_iff_exists'.mp (h.nodes.scaled hs i hi)
    have hreplica := (h.nodeAt (lt_of_lt_of_le hi d.replicas_le) hf).replica
    refine List.mem_map.mpr ⟨node, ?_, hreplica.key⟩
    exact (mem_listed hl).mpr ⟨find?_mem hf, .inr hreplica.ns_eq, hreplica.service⟩

namespace Listing

variable {nodes : List Node}

/-- If there are only Nodes of the first `n` replicas, they are no more than that. -/
theorem subperm (h : d.Listing K nodes) {n : ℕ}
    (hn : ∀ node ∈ nodes, ∀ i, d.NodeAt K i node → i < n) :
    (nodes.map Object.key).Subperm ((List.range n).map d.nodeKey) := by
  refine h.nodup.subperm fun key hkey => ?_
  obtain ⟨node, hm, rfl⟩ := List.mem_map.mp hkey
  obtain ⟨i, hi⟩ := h.nodeAt node hm
  exact List.mem_map.mpr ⟨i, List.mem_range.mpr (hn node hm i hi), hi.replica.key.symm⟩

theorem length_le (h : d.Listing K nodes) {n : ℕ}
    (hn : ∀ node ∈ nodes, ∀ i, d.NodeAt K i node → i < n) : nodes.length ≤ n := by
  simpa using (h.subperm hn).length_le

/-- The replicas that are wanted. -/
theorem le_length (h : d.Listing K nodes) (hs : K.scaled = true ∨ d.replicas < d.bound) :
    d.replicas ≤ nodes.length := by
  have hnodup : ((List.range d.replicas).map d.nodeKey).Nodup :=
    List.nodup_range.map fun i j e => nodeKey_inj e
  have hsub : ((List.range d.replicas).map d.nodeKey).Subperm (nodes.map Object.key) :=
    hnodup.subperm fun key hkey => by
      obtain ⟨i, hi, rfl⟩ := List.mem_map.mp hkey
      exact h.scaled hs i (List.mem_range.mp hi)
  simpa using hsub.length_le

/-- As many Nodes as replicas are wanted are those of the replicas. -/
theorem keys (h : d.Listing K nodes) (hlen : nodes.length = d.replicas) :
    (nodes.map Object.key).Perm ((List.range d.replicas).map d.nodeKey) := by
  rcases eq_or_lt_of_le d.replicas_le with hbound | hlt
  · refine (h.subperm fun _ _ i hi => ?_).perm_of_length_le (by simp [hlen])
    rw [hbound]
    exact hi.replica.lt
  · have hnodup : ((List.range d.replicas).map d.nodeKey).Nodup :=
      List.nodup_range.map fun i j e => nodeKey_inj e
    refine ((hnodup.subperm fun key hkey => ?_).perm_of_length_le (by simp [hlen])).symm
    obtain ⟨i, hi, rfl⟩ := List.mem_map.mp hkey
    exact h.scaled (.inr hlt) i (List.mem_range.mp hi)

/-- In the end there are the Nodes of the replicas only. -/
theorem length_eq (h : d.Listing K nodes) (hs : K.scaled = true) (hr : d.bound ≤ K.removed) :
    nodes.length = d.replicas :=
  le_antisymm (h.length_le fun _ _ _ hi => hi.kept (lt_of_lt_of_le hi.replica.lt hr))
    (h.le_length (.inl hs))

end Listing

end

end Rollout

end Automium
