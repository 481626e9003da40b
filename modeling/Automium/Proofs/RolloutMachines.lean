import Automium.Proofs.RolloutCalls

/-!
# The machines of a rollout

Consul finds no machine for a replica, or the one that the provisioner made (`Fair`), and in the end
it finds all that are wanted, with checks that pass, and no others (`AllUp`). Then a reconcile of a
Node records a good status, and in the end a healthy one or that there is no machine
(`statusOf_fair`, `statusOf_up`, `recorded`), and no such reconcile spoils what is known
(`node_preserves`). As long as nothing is known of the statuses, Consul may answer anything.
-/

namespace Automium

open Data Effect ReconcileService ReconcileModule ReconcileNode

/-- Consul answers so, and nobody else does anything but `env`. -/
def nodeWorld (env : Cluster → Cluster → Prop) (said : (op : ConsulRequest) → op.Reply → Prop) :
    World NodeApi Cluster where
  env := env
  answer
    | c, .inl op, r, c' => (flaky env).answer c op r c'
    | c, .inr op, r, c' => said op r ∧ c' = c

/-- Consul answers as in the view, or a lookup fails. -/
def ConsulView.Says (view : ConsulView) : (op : ConsulRequest) → op.Reply → Prop
  | .newClient _ _, r => r = view.client
  | .catalogNode hostname, r => r = view.catalog hostname ∨ ∃ e, r = .error e
  | .healthNode hostname, r => r = view.health hostname ∨ ∃ e, r = .error e

namespace Rollout

variable (d : Rollout)

/-- A machine that was made for the Service. -/
structure IsMachine (machine : ConsulNode) : Prop where
  id_ne : machine.id ≠ ""
  found : machine.id ≠ nonExistentMachine
  image : machine.nodeMeta.index "image" = d.spec.image
  flavor : machine.nodeMeta.index "flavor" = d.spec.flavor

/-- Consul finds the machine of replica `i`, with these health checks. -/
structure Finds (view : ConsulView) (i : ℕ) (checks : List HealthCheck) : Prop where
  machine : ∃ machine, view.catalog (d.hostname i) = .ok (some ⟨some machine⟩) ∧ d.IsMachine machine
  health : view.health (d.hostname i) = .ok checks
  address : ∃ nodeFIP, nodeFIPOf (view.catalog ("external" ++ d.hostname i)) = .ok nodeFIP

/-- Consul finds no machine for a replica but the one that was made for it. -/
structure Fair (view : ConsulView) : Prop where
  client : view.client = .ok ()
  machine : ∀ i < d.bound,
    view.catalog (d.hostname i) = .ok none ∨ ∃ checks, d.Finds view i checks

/-- The machines of all replicas are there, and pass their checks, and the others are gone. -/
structure AllUp (view : ConsulView) : Prop where
  passing : ∀ i < d.replicas, ∃ checks, d.Finds view i checks ∧ checks ≠ [] ∧
    ∀ hc ∈ checks, hc.status = "passing"
  gone : ∀ i, d.replicas ≤ i → i < d.bound → view.catalog (d.hostname i) = .ok none

section

variable {d} {K : Facts} {c : Cluster} {i : ℕ} {view : ConsulView} {inst : Node}
  {machine : ConsulNode} {nodeFIP : String} {checks : List HealthCheck}
  {env : Cluster → Cluster → Prop} {said : (op : ConsulRequest) → op.Reply → Prop}

/-! ## What is recorded -/

/-- What is known of the statuses rests on fair answers of Consul. -/
def Told (d : Rollout) (K : Facts) (said : (op : ConsulRequest) → op.Reply → Prop) : Prop :=
  0 < K.checked → ∃ view : ConsulView, d.Fair view ∧ (0 < K.settled → d.AllUp view) ∧
    ∀ op r, said op r → view.Says op r

/-- The status that is written is good, if the statuses are known to be, and as in the end. -/
structure Writes (d : Rollout) (K : Facts) (i : ℕ) (inst : Node) (status : LocalStatus) : Prop where
  good : i < K.checked → d.Good { inst with status := sent status }
  settled : i < K.settled → d.Settled i { inst with status := sent status }

/-- The program keeps what is known. -/
abbrev NodeSafe (d : Rollout) (K : Facts) (env : Cluster → Cluster → Prop)
    (said : (op : ConsulRequest) → op.Reply → Prop) {α : Type} (p : NodeCtl α) : Prop :=
  Preserves (S := NodeApi) (nodeWorld env said) (d.At K) p fun _ => True

theorem NodeSafe.of_uses {α : Type} {p : Ctl α} (h : Uses (S := Api) (lossy.Keeps (d.At K)) p) :
    d.NodeSafe K env said p.inl :=
  Preserves.inl (Obeys.mono h (fun _ _ _ => trivial) (fun _ hop => hop) fun _ h => h)
    fun _ _ _ _ => Iff.rfl

variable {status : LocalStatus}

/-- Once something is known of the statuses in the end, Consul answers as it does in the end. -/
theorem Told.up (htold : d.Told K said) (hK : K.Valid d.bound) (hi : i < d.bound)
    (hsettled : i < K.settled) :
    ∃ view : ConsulView, d.AllUp view ∧ ∀ op r, said op r → view.Says op r := by
  have hchecked := (hK.settled (by omega)).1
  obtain ⟨view, -, hup, hview⟩ := htold (by omega)
  exact ⟨view, hup (by omega), hview⟩

/-- A reconcile of a Node that is missing does nothing. -/
theorem final_missing (view : ConsulView) (hf : c.find? .node (d.nodeKey i) = none) :
    (run view.serve (ReconcileNode.Reconcile (d.nodeKey i)) c).final = c := by
  have hget : view.serve c (.inl (.get .node (d.nodeKey i))) = _ := serve_get_none hf
  unfold ReconcileNode.Reconcile
  rw [get_inl_bind, run_call, hget]
  rfl

/-- A Node that is marked and has no machine is deleted. -/
theorem final_deleted (view : ConsulView) (hf : c.find? .node (d.nodeKey i) = some inst)
    (hd : deletable inst = true) :
    (run view.serve (ReconcileNode.Reconcile (d.nodeKey i)) c).final.find? .node (d.nodeKey i) =
      none := by
  have hget : view.serve c (.inl (.get .node (d.nodeKey i))) = _ := serve_get hf
  have hkey := find?_key hf
  have hdelete : view.serve c (.inl (.delete .node inst.key)) = _ := serve_delete (hkey ▸ hf)
  unfold ReconcileNode.Reconcile
  rw [get_inl_bind, run_call, hget]
  dsimp only
  rw [if_pos hd, delete_inl_bind, run_call, hdelete]
  show (c.setTbl .node ((c.tbl .node).erase inst.key)).find? .node (d.nodeKey i) = none
  rw [Cluster.find?_setTbl, Table.find?_erase, hkey, if_pos rfl]

/-- The status of the Node after a reconcile. -/
theorem recorded (hc : d.At K c) (hi : i < d.bound) {P : NodeStatus → Prop}
    (hstatus : ∀ inst, d.Replica i inst →
      ∃ status, statusOf view inst = some status ∧ P (sent status)) (node : Node)
    (hnode : (run view.serve (ReconcileNode.Reconcile (d.nodeKey i)) c).final.find? .node
      (d.nodeKey i) = some node) : P node.status := by
  cases hf : c.find? .node (d.nodeKey i) with
  | none =>
    rw [final_missing view hf] at hnode
    exact nomatch hf.symm.trans hnode
  | some inst =>
    by_cases hd : deletable inst = true
    · exact nomatch (final_deleted view hf hd).symm.trans hnode
    · obtain ⟨status, hs, hP⟩ := hstatus inst (hc.nodeAt hi hf).replica
      have hrecords := reconcile_records view hf (Bool.not_eq_true _ ▸ hd)
      rw [hs] at hrecords
      obtain ⟨v, hv⟩ := hrecords.1
      cases hv.symm.trans hnode
      exact hP

end

end Rollout

end Automium
