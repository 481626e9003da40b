import Automium.Proofs.Choice
import Mathlib.Logic.Function.Iterate

/-!
# The status of a Module settles

Each reconcile writes the status that it computes from the counters of the status before, and the
write triggers the next reconcile. With a completed Job and nothing else changing, the first
reconcile brings the counters up to date and the second one the phase, so the third one finds
nothing to write (`nextStatus_settled`).

* `Reconcile_emits`: what one reconcile writes.
* `module_status_settles`: what any number of them write, and what is stored from the second one on.
-/

namespace Automium

open Data Effect

namespace ReconcileModule

/-! ## The fixed inputs -/

/-- The writing calls of an execution. -/
def writesOf (tr : List (Event Api Cluster)) : List Request :=
  (tr.map Event.op).filter fun op : Request => op.writes.isSome

/-- The Module has its Nodes, and its Job is completed and is the one that the controller renders. -/
structure Finished (inst : Module) (job : Job) (c : Cluster) : Prop where
  stored : c.find? .module inst.key = some inst
  app : appNameOf inst.metadata ≠ ""
  service : serviceNameOf inst.metadata ≠ ""
  inNs : inst.metadata.ns ≠ ""
  nodes : (serviceNodes inst c).length = inst.spec.replicas
  found : c.find? .job ⟨inst.metadata.ns, jobName inst.metadata.name⟩ = some job
  rendered : ∃ container rest, job.spec.containers = container :: rest ∧
    container.env = batchEnvVars inst ∧
    Yields calm c (chooseModuleAction inst) fun r _ =>
      ∃ action, r = .ok action ∧ jobCommand action = some container.command
  active : job.status.active = 0
  started : job.status.startTime ≠ none
  complete : job.status.conditions.head? = some "Complete"

/-- The calls of `Reconcile` for the Module, one after the other. -/
def reconcileSys (sort : SliceSort) (inst : Module) (c₀ : Cluster) :
    Sys Cluster (List (Event Api Cluster)) where
  init c := c = c₀
  step c tr c' := ∃ o, o ≠ .halted ∧ Exec calm (Reconcile sort inst.key) c tr o c'

section

variable {inst : Module} {c c₀ : Cluster} {job : Job} {sort : SliceSort} {action : String}

/-! ## The next status -/

/-- The status that a reconcile of a completed Job writes over `status`. -/
def nextStatus (inst : Module) (c₀ : Cluster) (action : String) (status : ModuleStatus) :
    ModuleStatus :=
  (reported inst action (phaseToReport status StatusPhaseCompleted)
    (c₀.inNamespace .node inst.metadata.ns)).status

theorem phaseToReport_completed (status : ModuleStatus) :
    phaseToReport status StatusPhaseCompleted =
      if status.updatedReplicas = status.replicas then StatusPhaseCompleted
      else StatusPhasePending := by
  unfold phaseToReport
  by_cases h : status.updatedReplicas = status.replicas <;> simp [h]

/-- The second one is the last. -/
theorem nextStatus_settled (status : ModuleStatus) :
    nextStatus inst c₀ action (nextStatus inst c₀ action (nextStatus inst c₀ action status)) =
      nextStatus inst c₀ action (nextStatus inst c₀ action status) := rfl

theorem iterate_nextStatus (status : ModuleStatus) {n : ℕ} (hn : 2 ≤ n) :
    (nextStatus inst c₀ action)^[n] status =
      nextStatus inst c₀ action (nextStatus inst c₀ action status) := by
  induction n, hn using Nat.le_induction with
  | base => rfl
  | succ n _ ih => rw [Function.iterate_succ_apply', ih, nextStatus_settled]

/-! ## One reconcile -/

theorem writesOf_append (tr tr' : List (Event Api Cluster)) :
    writesOf (tr ++ tr') = writesOf tr ++ writesOf tr' := by
  rw [writesOf, List.map_append, List.filter_append]
  rfl

theorem writesOf_cons_read {e : Event Api Cluster} {tr : List (Event Api Cluster)}
    (h : Request.writes e.op = none) : writesOf (e :: tr) = writesOf tr := by
  rw [writesOf, List.map_cons, List.filter_cons_of_neg (by rw [h]; decide)]
  rfl

/-- The Module at version `v`, with this status. -/
def withStatus (inst : Module) (v : ℕ) (status : ModuleStatus) : Module :=
  { inst with metadata := { inst.metadata with resourceVersion := v }, status := status }

theorem chooseModuleAction_withStatus (v : ℕ) (status : ModuleStatus) :
    chooseModuleAction (withStatus inst v status) = chooseModuleAction inst := rfl

/-- The status is stored, and nothing else has changed. -/
structure Waits (inst : Module) (c₀ : Cluster) (status : ModuleStatus) (c : Cluster) : Prop where
  stored : ∃ v, c.find? .module inst.key = some (withStatus inst v status)
  nodes : c.tbl .node = c₀.tbl .node
  jobs : c.tbl .job = c₀.tbl .job

theorem jobCommand_injective {action action' : String} {command : List String}
    (h : jobCommand action = some command) (h' : jobCommand action' = some command) :
    action = action' := by
  unfold jobCommand at h h'
  grind

/-- The action is the same in each reconcile. -/
theorem Finished.chosen (h : Finished inst job c₀) : ∃ action container rest,
    job.spec.containers = container :: rest ∧ container.env = batchEnvVars inst ∧
      jobCommand action = some container.command ∧
      ∀ c : Cluster, c.tbl .node = c₀.tbl .node →
        Emits calm c (chooseModuleAction inst) fun r c' tr =>
          r = .ok action ∧ c' = c ∧ writesOf tr = [] := by
  obtain ⟨container, rest, hcontainers, henv, hyields⟩ := h.rendered
  by_cases hr : inst.spec.replicas = 0
  · rw [chooseModuleAction_zero hr] at hyields
    obtain ⟨action, haction, hcommand⟩ := hyields.of_ret
    cases haction
    refine ⟨_, container, rest, hcontainers, henv, hcommand, fun c _ => ?_⟩
    rw [chooseModuleAction_zero hr]
    exact .ret calm_closed ⟨rfl, rfl, rfl⟩
  · rw [chooseModuleAction_yields_iff hr h.service h.inNs] at hyields
    obtain ⟨action, haction, hcommand⟩ := hyields _ (.refl _)
    refine ⟨action, container, rest, hcontainers, henv, hcommand, fun c hnodes => ?_⟩
    obtain ⟨k, hk, -, hok⟩ := chooseModuleAction_eq hr h.service h.inNs
    rw [hk]
    refine .call calm_closed ?_
    rintro r c₁ ⟨⟨l, hl, rfl⟩, rfl⟩
    rw [Cluster.inNamespace, hnodes] at hl
    obtain ⟨action', haction', hcommand'⟩ := hyields l hl
    rw [hok]
    refine .ret calm_closed ⟨?_, rfl, rfl⟩
    rw [haction', jobCommand_injective hcommand hcommand']

/-- With all Nodes there, `manageNodesForModule` does nothing. -/
theorem manageNodesForModule_emits (h : Finished inst job c₀) (hnodes : c.tbl .node = c₀.tbl .node)
    (v : ℕ) (status : ModuleStatus) :
    Emits calm c (manageNodesForModule sort (withStatus inst v status)) fun r c' tr =>
      r = .ok () ∧ c' = c ∧ writesOf tr = [] := by
  have happ : appNameOf (withStatus inst v status).metadata ≠ "" := h.app
  obtain ⟨k, hk, -, hok⟩ := manageNodesForModule_eq sort happ h.service h.inNs
  rw [hk]
  refine .call calm_closed ?_
  rintro r c₁ ⟨⟨l, hl, rfl⟩, rfl⟩
  rw [Cluster.inNamespace, hnodes] at hl
  have hperm : (serviceNodes inst c₀).Perm (nodesOfService (serviceNameOf inst.metadata) l) :=
    listed_perm hl
  have hcount : ((nodesOfService (serviceNameOf (withStatus inst v status).metadata) l).length : Int) =
      (withStatus inst v status).spec.replicas :=
    (congrArg Nat.cast hperm.length_eq.symm).trans h.nodes
  rw [hok, manageListed, if_neg (by omega), if_neg (by omega)]
  exact .ret calm_closed ⟨rfl, rfl, rfl⟩

/-- The status is written if it changes. -/
theorem updateModuleStatus_emits {v : ℕ} {status : ModuleStatus} (h : Finished inst job c₀)
    (hc : Waits inst c₀ status c) (hv : c.find? .module inst.key = some (withStatus inst v status)) :
    Emits calm c (updateModuleStatus (withStatus inst v status) action
        (phaseToReport status StatusPhaseCompleted)) fun r c' tr =>
      r = .ok () ∧ Waits inst c₀ (nextStatus inst c₀ action status) c' ∧
        (writesOf tr = [] ∨ nextStatus inst c₀ action status ≠ status ∧
          ∃ m : Module, writesOf tr = [.updateStatus .module m] ∧ m.key = inst.key) := by
  obtain ⟨k, hk, -, hok⟩ := (updateModuleStatus_cases (withStatus inst v status) action
    (phaseToReport status StatusPhaseCompleted)).resolve_left fun hempty => h.inNs hempty.1
  rw [hk]
  refine .call calm_closed ?_
  rintro r c₁ ⟨⟨l, hl, rfl⟩, rfl⟩
  rw [Cluster.inNamespace, hc.nodes] at hl
  have hnext : reported (withStatus inst v status) action
      (phaseToReport status StatusPhaseCompleted) l =
        withStatus inst v (nextStatus inst c₀ action status) :=
    congrArg (withStatus inst v) (reported_perm hl)
  have hread : ∀ tr : List (Event Api Cluster), writesOf
      (⟨c₁, .list .node inst.metadata.ns, .ok l⟩ :: tr) = writesOf tr := fun _ =>
    writesOf_cons_read rfl
  rw [hok, writeStatus, hnext]
  split
  · rename_i hsame
    have hsame : status = nextStatus inst c₀ action status := hsame
    refine .ret calm_closed ⟨rfl, ?_, .inl (hread [])⟩
    rwa [← hsame]
  · rename_i hne
    have hne : nextStatus inst c₀ action status ≠ status := Ne.symm hne
    rw [updateStatus_bind]
    refine .call calm_closed fun r c₂ hupdate => ?_
    have hserve := serve_updateStatus (k := .module)
      (o := withStatus inst v (nextStatus inst c₀ action status)) hv rfl
    cases hserve.symm.trans hupdate
    refine .ret calm_closed ⟨rfl, ⟨⟨c₁.version + 1, ?_⟩, ?_, ?_⟩, .inr ⟨hne,
      withStatus inst v (nextStatus inst c₀ action status), rfl, rfl⟩⟩
    · rw [Cluster.find?_setTbl, Table.find?_put, statusObj_key]
      exact if_pos (find?_key hv).symm
    · exact (c₁.setTbl_ne _ (by decide)).trans hc.nodes
    · exact (c₁.setTbl_ne _ (by decide)).trans hc.jobs

/-- The Job is found completed. -/
theorem Finished.status (h : Finished inst job c₀) :
    retrieveJobStatus job = .ok StatusPhaseCompleted := by
  obtain ⟨rest, hconditions⟩ := List.head?_eq_some_iff.mp h.complete
  unfold retrieveJobStatus
  rw [if_neg h.started, if_neg (by rw [h.active]; decide), hconditions]
  rfl

/-- What one reconcile does: it brings the status to the next one, and writes nothing else. -/
theorem Reconcile_emits (sort : SliceSort) (h : Finished inst job c₀) :
    ∃ action, ∀ (c : Cluster) (status : ModuleStatus), Waits inst c₀ status c →
      Emits calm c (Reconcile sort inst.key) fun _ c' tr =>
        Waits inst c₀ (nextStatus inst c₀ action status) c' ∧
          (writesOf tr = [] ∨ nextStatus inst c₀ action status ≠ status ∧
            ∃ m : Module, writesOf tr = [.updateStatus .module m] ∧ m.key = inst.key) := by
  obtain ⟨action, container, rest, hcontainers, henv, hcommand, hchosen⟩ := h.chosen
  refine ⟨action, fun c status hc => ?_⟩
  obtain ⟨v, hv⟩ := hc.stored
  unfold Reconcile
  rw [get_bind]
  refine .call calm_closed fun r c₁ hget => ?_
  cases (serve_get hv).symm.trans hget
  dsimp only
  rw [chooseModuleAction_withStatus]
  refine (hchosen c hc.nodes).bind ?_
  rintro r c₁ tr₁ ⟨rfl, rfl, htr₁⟩
  dsimp only
  rw [hcommand]
  dsimp only
  unfold syncJob
  rw [get_bind]
  refine .call calm_closed fun r c₂ hget => ?_
  have hfound : c₁.find? .job ⟨inst.metadata.ns, jobName inst.metadata.name⟩ = some job := by
    rw [Cluster.find?, hc.jobs]
    exact h.found
  cases (serve_get hfound).symm.trans hget
  have hdiffers : jobDiffers (provisioner (withStatus inst v status) container.command) container =
      false := by
    unfold jobDiffers
    simp [provisioner, henv]
    rfl
  dsimp only [desiredJob]
  rw [hcontainers]
  dsimp only
  rw [hdiffers, if_neg Bool.false_ne_true]
  unfold reportJob
  refine (manageNodesForModule_emits h hc.nodes v status).bind ?_
  rintro r c₂ tr₂ ⟨rfl, rfl, htr₂⟩
  dsimp only
  rw [h.status]
  dsimp only
  refine (updateModuleStatus_emits h hc hv).bind ?_
  rintro r c₃ tr₃ ⟨rfl, hwaits, hwrites⟩
  have htr : ∀ e₁ e₂ : Event Api Cluster, e₁.op.writes = none → e₂.op.writes = none →
      writesOf (e₁ :: (tr₁ ++ e₂ :: (tr₂ ++ (tr₃ ++ [])))) = writesOf tr₃ := fun e₁ e₂ h₁ h₂ => by
    rw [writesOf_cons_read h₁, writesOf_append, htr₁, writesOf_cons_read h₂, writesOf_append, htr₂,
      List.append_nil]
    rfl
  dsimp only
  split <;> exact .ret calm_closed ⟨hwaits, by rwa [htr _ _ rfl rfl]⟩

/-! ## Any number of them -/

/-- The stored status is the iterate of the first one, and each of the first two calls may have
written it. -/
theorem run_status (h : Finished inst job c₀) {ts : List (Trans Cluster (List (Event Api Cluster)))}
    (hrun : Run (reconcileSys sort inst c₀) ts c) : ∃ action,
    Waits inst c₀ ((nextStatus inst c₀ action)^[ts.length] inst.status) c ∧
      (writesOf (ts.flatMap fun t => t.lbl)).length ≤ min ts.length 2 ∧
      ∀ op ∈ writesOf (ts.flatMap fun t => t.lbl),
        ∃ m : Module, op = .updateStatus .module m ∧ m.key = inst.key := by
  obtain ⟨action, hstep⟩ := Reconcile_emits sort h
  refine ⟨action, ?_⟩
  induction hrun with
  | nil hinit =>
    cases hinit
    exact ⟨⟨⟨inst.metadata.resourceVersion, h.stored⟩, rfl, rfl⟩, Nat.zero_le _,
      fun _ hop => (List.not_mem_nil hop).elim⟩
  | @snoc ts c c' tr _ hcall ih =>
    obtain ⟨hwaits, hlen, hops⟩ := ih
    obtain ⟨o, ho, he⟩ := hcall
    obtain ⟨r, -, hwaits', hwrites⟩ := hstep c _ hwaits he ho
    rw [List.flatMap_append, List.flatMap_singleton, writesOf_append, List.length_append,
      List.length_append, List.length_singleton]
    refine ⟨by rwa [Function.iterate_succ_apply'], ?_, ?_⟩
    · rcases hwrites with hnone | ⟨hchanged, m, hm, -⟩
      · rw [hnone, List.length_nil]
        omega
      · rw [hm, List.length_singleton]
        -- A third call finds the status settled.
        have hearly : ts.length < 2 := by
          by_contra hlate
          rw [iterate_nextStatus _ (not_lt.mp hlate)] at hchanged
          exact hchanged (nextStatus_settled _)
        omega
    · refine List.forall_mem_append.mpr ⟨hops, ?_⟩
      rcases hwrites with hnone | ⟨-, m, hm, hkey⟩
      · rw [hnone]
        exact fun _ hop => (List.not_mem_nil hop).elim
      · rw [hm]
        exact List.forall_mem_singleton.mpr ⟨m, rfl, hkey⟩

/-- Reconciles write the status at most twice and nothing else, and from the second one on it is that
of the Nodes (module doc). -/
theorem module_status_settles (h : Finished inst job c₀)
    {ts : List (Trans Cluster (List (Event Api Cluster)))}
    (hrun : Run (reconcileSys sort inst c₀) ts c) :
    (writesOf (ts.flatMap fun t => t.lbl)).length ≤ 2 ∧
      (∀ op ∈ writesOf (ts.flatMap fun t => t.lbl),
        ∃ m : Module, op = .updateStatus .module m ∧ m.key = inst.key) ∧
      (2 ≤ ts.length → ∃ m : Module, c.find? .module inst.key = some m ∧
        m.status.replicas = inst.spec.replicas ∧
        m.status.updatedReplicas = upToDate inst (c₀.inNamespace .node inst.metadata.ns) ∧
        m.status.phase = if m.status.updatedReplicas = m.status.replicas then StatusPhaseCompleted
          else StatusPhasePending) := by
  obtain ⟨action, ⟨⟨v, hv⟩, -, -⟩, hlen, hops⟩ := run_status h hrun
  refine ⟨by omega, hops, fun hn => ⟨_, hv, ?_⟩⟩
  rw [iterate_nextStatus _ hn]
  exact ⟨rfl, reported_updated .., phaseToReport_completed _⟩

end

/-! ### A completed deployment -/

/-- A Module whose status still has the counters of two replicas. -/
def finishedModule : Module :=
  { scaled nginxModule 1 with status := { phase := StatusPhaseRunning, replicas := 2 } }

/-- Its Job. -/
def finishedJob : Job :=
  { desiredJob finishedModule ["./deploy"] with
    status := { startTime := some "2019-01-01T00:00:00Z", conditions := ["Complete"] } }

/-- Its Node, with the image of the Module. -/
def finishedNode : Node :=
  { newNode "web" "default" "nginx-0" 0 with
    status := { nodeProperties := { healthyProperties with image := "nginx-1" } } }

/-- A store with these. -/
def finishedStore : Cluster :=
  ((Cluster.empty.setTbl .module (Table.empty.put finishedModule)).setTbl .job
    (Table.empty.put finishedJob)).setTbl .node (Table.empty.put finishedNode)

theorem finished_nginx : Finished finishedModule finishedJob finishedStore where
  stored := rfl
  app := by decide
  service := by decide
  inNs := by decide
  nodes := by decide
  found := rfl
  rendered := by
    refine ⟨_, _, rfl, rfl, ?_⟩
    refine (chooseModuleAction_yields_iff (Q := fun r => ∃ action, r = .ok action ∧
      jobCommand action = some ["./deploy"]) (by decide) (by decide) (by decide)).mpr fun l hl => ?_
    obtain rfl : l = [finishedNode] := List.perm_singleton.mp hl
    exact ⟨"Deploy", by decide, rfl⟩
  active := rfl
  started := by decide
  complete := rfl

/-- The store after one more reconcile. -/
def reconciled (c : Cluster) : Cluster :=
  (run serve (Reconcile insertionSort finishedModule.key) c).final

theorem module_status_settles_nginx : ∃ m : Module,
    (reconciled (reconciled finishedStore)).find? .module finishedModule.key = some m ∧
      m.status.replicas = 1 ∧ m.status.updatedReplicas = 1 ∧
        m.status.phase = StatusPhaseCompleted := by
  have hcall : ∀ c, ∃ tr, (reconcileSys insertionSort finishedModule finishedStore).step c tr
      (reconciled c) := fun c => ⟨_, _, run_ne_halted _ _, calm_run _ c⟩
  obtain ⟨tr₁, h₁⟩ := hcall finishedStore
  obtain ⟨tr₂, h₂⟩ := hcall (reconciled finishedStore)
  obtain ⟨m, hm, hreplicas, hupdated, hphase⟩ :=
    (module_status_settles finished_nginx (((Run.nil rfl).snoc h₁).snoc h₂)).2.2 (le_refl 2)
  have hone : upToDate finishedModule (finishedStore.inNamespace .node "default") = 1 := by decide
  have hupdated : m.status.updatedReplicas = 1 := hupdated.trans hone
  refine ⟨m, hm, hreplicas, hupdated, ?_⟩
  rw [hphase, hupdated, hreplicas]
  rfl

end ReconcileModule

end Automium
