import Automium.Proofs.Recreated

/-!
# What a reconcile of a Node records

`statusOf` is the status that a reconcile computes from the answers of Consul and the health checks
that are stored, if it gets so far. When the calls to the API server succeed, it is stored as the
server reads it, and it is written only if it is not there already (`reconcile_records`).

So two Nodes that differ in their status only are left with the same status exactly if Consul has
health checks, or both Nodes had the same ones (`same_status_iff`).
-/

namespace Automium

open Data Effect

/-- The answers when the calls to the API server succeed. -/
def ConsulView.serve (view : ConsulView) (c : Cluster) :
    (op : NodeApi.Op) → NodeApi.Reply op × Cluster
  | .inl op => Automium.serve c op
  | .inr (.newClient _ _) => (view.client, c)
  | .inr (.catalogNode hostname) => (view.catalog hostname, c)
  | .inr (.healthNode hostname) => (view.health hostname, c)

namespace ReconcileNode

/-- The status that the reconcile of this copy computes. -/
def statusOf (view : ConsulView) (inst : Node) : Option LocalStatus :=
  match view.client with
  | .error e => some (placeholder consulConnectionError e.text)
  | .ok _ =>
    match view.catalog inst.spec.hostname with
    | .error _ => none
    | .ok none => some (placeholder nonExistentMachine nonExistentMachine)
    | .ok (some nodeInfo) =>
      match view.health inst.spec.hostname with
      | .error _ => none
      | .ok nodeHC =>
        match nodeFIPOf (view.catalog ("external" ++ inst.spec.hostname)), nodeInfo.node with
        | .ok nodeFIP, some machine => some (machineStatus inst.status machine nodeFIP nodeHC)
        | _, _ => none

/-- The call writes a status. -/
def WritesStatus : NodeApi.Op → Prop
  | .inl (.updateStatus _ _) => True
  | _ => False

/-- The events write no status. -/
def NoStatusWrite {σ : Type} (tr : List (Event NodeApi σ)) : Prop :=
  ∀ e ∈ tr, ¬ WritesStatus e.op

/-- The Node with another status, at another version. -/
def withStatus (inst : Node) (status : NodeStatus) (v : Nat) : Node :=
  { inst with metadata := { inst.metadata with resourceVersion := v }, status := status }

/-- What a run does with the status that is computed: it is stored, and written only if it was not
there. Without one nothing is done. -/
def Records (inst : Node) (request : Key) (c : Cluster)
    (ran : Ran NodeApi Cluster (Except Error Result)) : Option LocalStatus → Prop
  | none => ran.final = c ∧ NoStatusWrite ran.trace
  | some status =>
    (∃ v, ran.final.find? .node request = some (withStatus inst (sent status) v)) ∧
      (NoStatusWrite ran.trace ↔ loaded inst.status = status)

section

variable {view : ConsulView} {request : Key} {inst : Node} {status : LocalStatus} {c : Cluster}

variable (status) in
/-- The end of a reconcile: a comparison, and the write if it is needed. -/
theorem UpdateNodeStatusIfNeeded_run (hf : c.find? .node request = some inst) :
    let ran := run serve (UpdateNodeStatusIfNeeded { inst with status := status } request) c
    ran.outcome = .done (.ok ()) ∧
      (∃ v, ran.final.find? .node request = some (withStatus inst (sent status) v)) ∧
      ((∀ e ∈ ran.trace, ¬ WritesStatus (.inl e.op)) ↔ loaded inst.status = status) := by
  intro ran
  have hkey := find?_key hf
  unfold ran UpdateNodeStatusIfNeeded
  rw [get_bind, run_call, serve_get hf]
  dsimp only
  split
  · rename_i hsame
    obtain rfl := CompareStatuses_loaded.mp hsame
    rw [sent_loaded]
    refine ⟨rfl, ⟨inst.metadata.resourceVersion, hf⟩, iff_of_true ?_ rfl⟩
    exact List.forall_mem_singleton.mpr id
  · rename_i hdiff
    have hne : loaded inst.status ≠ status := fun h => hdiff (CompareStatuses_loaded.mpr h)
    have hfind : c.find? .node (sentNode { inst with status := status }).key = some inst := by
      rw [← hf, ← hkey]
      rfl
    rw [updateStatus_bind, run_call, serve_updateStatus hfind rfl]
    refine ⟨rfl, ⟨c.version + 1, ?_⟩, iff_of_false (fun h => ?_) hne⟩
    · show (c.setTbl _ _).find? _ _ = _
      rw [Cluster.find?_setTbl, ← hkey]
      exact Table.find?_put_self
    · exact h _ (List.mem_cons_of_mem _ List.mem_cons_self) trivial

/-- After a call that changes nothing. -/
theorem Records.call {op : NodeApi.Op} {k : NodeApi.Reply op → NodeCtl (Except Error Result)}
    {r : NodeApi.Reply op} {computed : Option LocalStatus} (hr : view.serve c op = (r, c))
    (hop : ¬ WritesStatus op)
    (h : Records inst request c (run view.serve (k r) c) computed) :
    Records inst request c (run view.serve (.call op k) c) computed := by
  have hwrites : NoStatusWrite (run view.serve (.call op k) c).trace ↔
      NoStatusWrite (run view.serve (k r) c).trace := by
    rw [run_call, hr]
    exact List.forall_mem_cons.trans (and_iff_right hop)
  have hfinal : (run view.serve (.call op k) c).final = (run view.serve (k r) c).final := by
    rw [run_call, hr]
  unfold Records at h ⊢
  rw [hwrites, hfinal]
  exact h

theorem records_ret (res : Except Error Result) :
    Records inst request c (run view.serve (.ret res) c) none := ⟨rfl, List.forall_mem_nil _⟩

theorem records_crash (msg : String) :
    Records inst request c (run view.serve (.crash msg) c) none := ⟨rfl, List.forall_mem_nil _⟩

/-- A program that uses the API server only. -/
theorem records_inl {q : Ctl (Except Error Result)}
    (hstored : ∃ v, (run serve q c).final.find? .node request =
      some (withStatus inst (sent status) v))
    (hwrites : (∀ e ∈ (run serve q c).trace, ¬ WritesStatus (.inl e.op)) ↔
      loaded inst.status = status) :
    Records inst request c (run view.serve q.inl c) (some status) := by
  have hserve : ∀ c op, view.serve c (.inl op) = serve c op := fun _ _ => rfl
  have hrun := run_inl hserve q c
  unfold Records NoStatusWrite
  rw [hrun]
  refine ⟨hstored, ?_⟩
  rw [← hwrites]
  exact List.forall_mem_map

theorem saveStatus_records (hf : c.find? .node request = some inst) :
    Records inst request c (run view.serve (saveStatus inst status request).inl c)
      (some status) := by
  obtain ⟨hout, hstored, hwrites⟩ := UpdateNodeStatusIfNeeded_run status hf
  refine records_inl ?_ ?_
  · unfold saveStatus
    rw [run_bind_done hout]
    exact hstored
  · unfold saveStatus
    rw [run_bind_done hout, ← hwrites]
    exact List.forall_mem_append.trans (and_iff_left (List.forall_mem_nil _))

theorem updateOrCreate_records (hf : c.find? .node request = some inst) :
    Records inst request c
      (run view.serve (updateOrCreate { inst with status := status } request).inl c)
      (some status) := by
  obtain ⟨hout, hstored, hwrites⟩ := UpdateNodeStatusIfNeeded_run status hf
  refine records_inl ?_ ?_
  · unfold updateOrCreate
    rw [get_bind, run_call, serve_get hf]
    dsimp only
    rw [run_bind_done hout]
    exact hstored
  · unfold updateOrCreate
    rw [get_bind, run_call, serve_get hf]
    dsimp only
    rw [run_bind_done hout, ← hwrites]
    refine List.forall_mem_cons.trans ((and_iff_right id).trans ?_)
    exact List.forall_mem_append.trans (and_iff_left (List.forall_mem_nil _))

theorem askConsul_records (hf : c.find? .node request = some inst) :
    Records inst request c (run view.serve (askConsul inst request) c) (statusOf view inst) := by
  unfold askConsul statusOf
  rw [getenv_inl_bind]
  refine .call rfl id ?_
  rw [newClient_bind]
  refine .call rfl id ?_
  cases view.client with
  | error e => exact saveStatus_records hf
  | ok u =>
    dsimp only
    rw [catalogNode_bind]
    refine .call rfl id ?_
    cases view.catalog inst.spec.hostname with
    | error e => exact records_ret _
    | ok nodeInfo =>
      cases nodeInfo with
      | none => exact saveStatus_records hf
      | some nodeInfo =>
        dsimp only
        unfold recordMachine
        rw [healthNode_bind]
        refine .call rfl id ?_
        cases view.health inst.spec.hostname with
        | error e => exact records_ret _
        | ok nodeHC =>
          dsimp only
          rw [catalogNode_bind]
          refine .call rfl id ?_
          cases nodeFIPOf (view.catalog ("external" ++ inst.spec.hostname)) with
          | error msg => exact records_crash msg
          | ok nodeFIP =>
            cases nodeInfo.node with
            | none => exact records_crash _
            | some machine => exact updateOrCreate_records hf

variable (view) in
/-- What a reconcile does with the status of a Node that it does not delete. -/
theorem reconcile_records (hf : c.find? .node request = some inst)
    (hd : deletable inst = false) :
    Records inst request c (run view.serve (Reconcile request) c) (statusOf view inst) := by
  obtain ⟨k, hk, -, hask⟩ := Reconcile_get request
  rw [hk]
  refine .call (serve_get hf) id ?_
  rw [hask inst hd]
  exact askConsul_records hf

/-- The status that is stored after the reconcile. -/
theorem stored_status (hf : c.find? .node request = some inst) (hd : deletable inst = false)
    (hs : statusOf view inst = some status) :
    ((run view.serve (Reconcile request) c).final.find? .node request).map (fun node => node.status) =
      some (sent status) := by
  obtain ⟨⟨v, hv⟩, -⟩ := hs ▸ reconcile_records view hf hd
  rw [hv]
  rfl

theorem deletable_unmarked (h : inst.spec.deletionDate = "") : deletable inst = false := by
  simp [deletable, h]

end

/-! ## Two prior statuses -/

section

variable {view : ConsulView} {request : Key} {inst inst₁ inst₂ : Node} {c₁ c₂ : Cluster}
  {nodeInfo : CatalogNode} {fipInfo : Option CatalogNode} {nodeHC : List HealthCheck}

/-- No record in the answers is nil. -/
def NoNilRecord (nodeInfo : CatalogNode) (fipInfo : Option CatalogNode) : Prop :=
  nodeInfo.node ≠ none ∧ fipInfo ≠ some ⟨none⟩

theorem statusOf_registered (hclient : ∃ u, view.client = .ok u)
    (hmachine : view.catalog inst.spec.hostname = .ok (some nodeInfo))
    (hhealth : view.health inst.spec.hostname = .ok nodeHC) :
    statusOf view inst =
      match nodeFIPOf (view.catalog ("external" ++ inst.spec.hostname)), nodeInfo.node with
      | .ok nodeFIP, some machine => some (machineStatus inst.status machine nodeFIP nodeHC)
      | _, _ => none := by
  obtain ⟨u, hclient⟩ := hclient
  unfold statusOf
  rw [hclient, hmachine, hhealth]

/-- The old status counts only if Consul has no health checks. -/
theorem sent_machineStatus_eq_iff {old₁ old₂ : NodeStatus} {machine : ConsulNode} {nodeFIP : String} :
    sent (machineStatus old₁ machine nodeFIP nodeHC) =
        sent (machineStatus old₂ machine nodeFIP nodeHC) ↔
      nodeHC ≠ [] ∨ old₁.nodeHealthChecks = old₂.nodeHealthChecks := by
  cases nodeHC with
  | cons hc rest => exact iff_of_true rfl (.inl nofun)
  | nil =>
    have hsent : ∀ old, (sent (machineStatus old machine nodeFIP [])).nodeHealthChecks =
        old.nodeHealthChecks := by
      intro old
      show (sent (loaded old)).nodeHealthChecks = _
      rw [sent_loaded]
    rw [or_iff_right (not_not.mpr rfl), ← hsent old₁, ← hsent old₂]
    refine ⟨congrArg NodeStatusOf.nodeHealthChecks, fun h => ?_⟩
    exact congrArg (NodeStatusOf.mk _) h

theorem NoNilRecord.found (h : NoNilRecord nodeInfo fipInfo) :
    ∃ machine nodeFIP, nodeInfo.node = some machine ∧ nodeFIPOf (.ok fipInfo) = .ok nodeFIP := by
  obtain ⟨machine, hm⟩ := Option.ne_none_iff_exists'.mp h.1
  rcases fipInfo with _ | ⟨_ | fip⟩
  · exact ⟨machine, _, hm, rfl⟩
  · exact absurd rfl h.2
  · exact ⟨machine, _, hm, rfl⟩

/-- With a nil record no status is computed: the reconcile panics. -/
theorem noStatus_of_nilRecord (h : ¬ NoNilRecord nodeInfo fipInfo) (old : NodeStatus) :
    (match nodeFIPOf (.ok fipInfo), nodeInfo.node with
      | .ok nodeFIP, some machine => some (machineStatus old machine nodeFIP nodeHC)
      | _, _ => none) = none := by
  rcases nodeInfo with ⟨_ | machine⟩
  · split
    · rename_i hnone
      cases hnone
    · rfl
  · obtain rfl : fipInfo = some ⟨none⟩ := by
      by_contra hsome
      exact h ⟨nofun, hsome⟩
    rfl

/-- Two Nodes that are not marked and differ in their status only are left with the same status
exactly if Consul has health checks, or they had the same ones. (If a record is nil the reconcile
panics, and leaves the statuses as they were.) -/
theorem same_status_iff (h₁ : c₁.find? .node request = some inst₁)
    (h₂ : c₂.find? .node request = some inst₂) (hspec : inst₂.spec = inst₁.spec)
    (hmark : inst₁.spec.deletionDate = "") (hclient : ∃ u, view.client = .ok u)
    (hmachine : view.catalog inst₁.spec.hostname = .ok (some nodeInfo))
    (hhealth : view.health inst₁.spec.hostname = .ok nodeHC)
    (hfip : view.catalog ("external" ++ inst₁.spec.hostname) = .ok fipInfo) :
    ((run view.serve (Reconcile request) c₁).final.find? .node request).map
          (fun node => node.status) =
        ((run view.serve (Reconcile request) c₂).final.find? .node request).map
          (fun node => node.status) ↔
      (nodeHC ≠ [] ∨ inst₁.status.nodeHealthChecks = inst₂.status.nodeHealthChecks) ∧
        (NoNilRecord nodeInfo fipInfo ∨ inst₁.status = inst₂.status) := by
  have hs₁ := statusOf_registered hclient hmachine hhealth
  have hs₂ : statusOf view inst₂ = _ :=
    statusOf_registered hclient (hspec ▸ hmachine) (hspec ▸ hhealth)
  rw [hspec] at hs₂
  rw [hfip] at hs₁ hs₂
  have hd₁ : deletable inst₁ = false := deletable_unmarked hmark
  have hd₂ : deletable inst₂ = false := deletable_unmarked (hspec ▸ hmark)
  by_cases hnil : NoNilRecord nodeInfo fipInfo
  · obtain ⟨machine, nodeFIP, hm, hip⟩ := hnil.found
    rw [hm, hip] at hs₁ hs₂
    rw [stored_status h₁ hd₁ hs₁, stored_status h₂ hd₂ hs₂, Option.some.injEq,
      sent_machineStatus_eq_iff, and_iff_left (.inl hnil)]
  · rw [noStatus_of_nilRecord hnil] at hs₁ hs₂
    have hr₁ := hs₁ ▸ reconcile_records view h₁ hd₁
    have hr₂ := hs₂ ▸ reconcile_records view h₂ hd₂
    rw [hr₁.1, hr₂.1, h₁, h₂, or_iff_right hnil]
    show some inst₁.status = some inst₂.status ↔ _
    rw [Option.some.injEq]
    exact ⟨fun h => ⟨.inr (congrArg NodeStatusOf.nodeHealthChecks h), h⟩, fun h => h.2⟩

end

/-! ### A check that stays -/

/-- A health check that failed some time ago. -/
def criticalCheck : NodeHealthCheck where
  checkID := "http"
  name := "http"
  status := "critical"
  output := "connection refused"
  serviceID := ""
  serviceName := ""

/-- The Node as it was recorded with it. -/
def criticalNode : Node := { webNode with status := { nodeHealthChecks := [criticalCheck] } }

def criticalStore : Cluster := Cluster.empty.setTbl .node (Table.empty.put criticalNode)

theorem webNodeStore_find? : webNodeStore.find? .node webNode.key = some webNode :=
  Table.find?_put_self

theorem criticalStore_find? : criticalStore.find? .node webNode.key = some criticalNode :=
  Table.find?_put_self

/-- Consul has the machine and no health check. -/
theorem same_status_web :
    ((run webView.serve (Reconcile webNode.key) webNodeStore).final.find? .node webNode.key).map
          (fun node => node.status) =
        ((run webView.serve (Reconcile webNode.key) criticalStore).final.find? .node
          webNode.key).map (fun node => node.status) ↔
      (([] : List HealthCheck) ≠ [] ∨
          webNode.status.nodeHealthChecks = criticalNode.status.nodeHealthChecks) ∧
        (NoNilRecord ⟨some { id := "a1", node := "nginx-0", address := "10.0.0.7" }⟩ none ∨
          webNode.status = criticalNode.status) :=
  same_status_iff webNodeStore_find? criticalStore_find? rfl rfl ⟨(), rfl⟩ rfl rfl rfl

/-- The old check is still there, and the Node is not healthy. -/
theorem old_check_stays :
    ¬ ∀ (view : ConsulView) (request : Key) (c₁ c₂ : Cluster) (inst₁ inst₂ : Node)
      (nodeInfo : CatalogNode) (nodeHC : List HealthCheck) (fipInfo : Option CatalogNode),
      c₁.find? .node request = some inst₁ → c₂.find? .node request = some inst₂ →
      inst₂.metadata = inst₁.metadata → inst₂.spec = inst₁.spec →
      inst₁.spec.deletionDate = "" → (∃ u, view.client = .ok u) →
      view.catalog inst₁.spec.hostname = .ok (some nodeInfo) →
      view.health inst₁.spec.hostname = .ok nodeHC →
      view.catalog ("external" ++ inst₁.spec.hostname) = .ok fipInfo →
      NoNilRecord nodeInfo fipInfo →
      ((run view.serve (Reconcile request) c₁).final.find? .node request).map
          (fun node => node.status) =
        ((run view.serve (Reconcile request) c₂).final.find? .node request).map
          (fun node => node.status) := by
  intro h
  have hsame := h webView webNode.key webNodeStore criticalStore webNode criticalNode _ [] none
    webNodeStore_find? criticalStore_find? rfl rfl rfl ⟨(), rfl⟩ rfl rfl rfl ⟨nofun, nofun⟩
  rw [stored_status webNodeStore_find? rfl rfl, stored_status criticalStore_find? rfl rfl,
    Option.some.injEq, sent_machineStatus_eq_iff] at hsame
  exact hsame.elim (fun hne => hne rfl) nofun

end ReconcileNode

end Automium
