import Automium.Proofs.ExtrasPhase
import Automium.Proofs.JobGuard
import Automium.Proofs.Marks

/-!
# When a Module is reported as completed

A reconcile decides on the phase with the counters of the status that the Module had before, and
writes it next to counters that it takes from the Nodes afterwards. `Reconcile_stores` says what a
reconcile has read and done when it writes a status. From that, a run stores `Completed` with
other counters than the wanted ones only if a reconcile finds a completed Job and agreeing old
counters while the Nodes disagree (`completed_iff`).
-/

namespace Automium

open Data Effect

namespace ReconcileModule

/-! ## The calls around the write -/

/-- The call reads or writes Nodes. -/
def OnNodes : Request → Prop
  | .list .node _ | .create .node _ | .update .node _ | .now => True
  | _ => False

/-- The call deletes pods, or lists them. -/
def OnPods : Request → Prop
  | .list .pod _ | .delete .pod _ => True
  | _ => False

/-- The Nodes that the call listed. -/
def nodesRead {σ : Type} : Event Api σ → Option (List Node)
  | ⟨_, .list .node _, .ok nodes⟩ => some nodes
  | _ => none

/-- The Module that the call stored with a new status. -/
def moduleStored {σ : Type} : Event Api σ → Option Module
  | ⟨_, .updateStatus .module _, .ok m⟩ => some m
  | _ => none

theorem retrieveNodesForService_uses (svcName ns : String) :
    Uses OnNodes (retrieveNodesForService svcName ns) := by
  unfold retrieveNodesForService
  split
  · trivial
  · rw [list_bind]
    refine ⟨trivial, fun r _ => ?_⟩
    cases r <;> trivial

theorem chooseModuleAction_uses (inst : Module) : Uses OnNodes (chooseModuleAction inst) := by
  unfold chooseModuleAction
  split
  · trivial
  · refine (retrieveNodesForService_uses ..).bind fun r => ?_
    cases r <;> trivial

theorem manageNodesForModule_uses (sort : SliceSort) (inst : Module) :
    Uses OnNodes (manageNodesForModule sort inst) := by
  rcases manageNodesForModule_cases sort inst with ⟨e, he⟩ | ⟨-, k, hk, herr, hok⟩
  · rw [he]
    trivial
  rw [hk]
  refine ⟨trivial, fun r _ => ?_⟩
  cases r with
  | error e => rw [herr]; trivial
  | ok l =>
    rw [hok]
    unfold manageListed
    split
    · refine (createNodes_uses ..).mono ?_
      rintro op ⟨i, -, hostname, -, rfl⟩
      trivial
    · split
      · refine (deleteExtraNodes_uses ..).mono ?_
        rintro op (rfl | ⟨item, -, date, rfl⟩) <;> trivial
      · trivial

theorem cleanupPods_uses (inst : Module) : Uses OnPods (cleanupPods inst) := by
  unfold cleanupPods
  rw [list_bind]
  refine ⟨trivial, fun r _ => ?_⟩
  cases r with
  | error e => trivial
  | ok pods =>
    dsimp only
    induction pods with
    | nil => trivial
    | cons pod rest ih =>
      unfold deletePods
      split
      · rw [delete_bind]
        exact ⟨trivial, fun _ _ => ih⟩
      · exact ih

section

variable {σ : Type} {W : World Api σ} {s s' : σ} {tr : List (Event Api σ)} {inst m : Module}
  {sort : SliceSort} {action phase : String}

/-- What the calls on Nodes have read of other objects, and stored of them. -/
theorem OnNodes.reads (h : ∀ e ∈ tr, OnNodes e.op) :
    tr.filterMap ReconcileService.moduleRead = [] ∧ tr.filterMap jobRead = [] ∧
      tr.filterMap moduleStored = [] ∧ ∀ e ∈ tr, e.op.isDelete = false := by
  simp only [List.filterMap_eq_nil_iff]
  refine ⟨?_, ?_, ?_, ?_⟩ <;> rintro ⟨s, op, r⟩ hm <;> have hop := h _ hm <;>
    cases op <;> first | rfl | exact hop.elim

theorem OnPods.reads (h : ∀ e ∈ tr, OnPods e.op) :
    tr.filterMap ReconcileService.moduleRead = [] ∧ tr.filterMap jobRead = [] ∧
      tr.filterMap moduleStored = [] := by
  simp only [List.filterMap_eq_nil_iff]
  refine ⟨?_, ?_, ?_⟩ <;> rintro ⟨s, op, r⟩ hm <;> have hop := h _ hm <;>
    cases op <;> first | rfl | exact hop.elim

/-- `updateModuleStatus` stores a status that it computes from the Nodes that it has just listed. -/
theorem updateModuleStatus_stores {o : Outcome (Except Error Unit)}
    (he : Exec W (updateModuleStatus inst action phase) s tr o s')
    (hm : m ∈ tr.filterMap moduleStored) :
    ∃ s₁ s₂ nodes, tr = [⟨s₁, .list .node inst.metadata.ns, .ok nodes⟩,
      ⟨s₂, .updateStatus .module (reported inst action phase nodes), .ok m⟩] := by
  rcases updateModuleStatus_cases inst action phase with ⟨-, e, hret⟩ | ⟨k, hk, herr, hok⟩
  · rw [hret] at he
    rw [he.ret_trace] at hm
    cases hm
  rw [hk] at he
  rcases he.call_cases with ⟨-, rfl, -⟩ | ⟨s₁, r, s₂, tr₁, -, -, he₁, rfl⟩
  · cases hm
  cases r with
  | error e =>
    rw [herr] at he₁
    rw [he₁.ret_trace] at hm
    cases hm
  | ok nodes =>
    rw [hok] at he₁
    unfold writeStatus at he₁
    split at he₁
    · rw [he₁.ret_trace] at hm
      cases hm
    rw [updateStatus_bind] at he₁
    rcases he₁.call_cases with ⟨-, rfl, -⟩ | ⟨s₃, r, s₄, tr₂, -, -, he₂, rfl⟩
    · cases hm
    cases r with
    | error e =>
      rw [he₂.ret_trace] at hm
      cases hm
    | ok m' =>
      rw [he₂.ret_trace] at hm ⊢
      obtain rfl : m' = m := by simpa [moduleStored] using hm
      exact ⟨s₁, s₃, nodes, rfl⟩

/-- The end of the trace of a reconcile that stores a status. -/
def written (inst : Module) (action phase : String) (s₁ s₂ : σ) (nodes : List Node) (m : Module) :
    List (Event Api σ) :=
  [⟨s₁, .list .node inst.metadata.ns, .ok nodes⟩,
    ⟨s₂, .updateStatus .module (reported inst action phase nodes), .ok m⟩]

/-- `reportJob` stores the phase of the Job, after calls on Nodes. -/
theorem reportJob_stores {found : Job} {o : Outcome (Except Error Result)}
    (he : Exec W (reportJob sort inst action found) s tr o s')
    (hm : m ∈ tr.filterMap moduleStored) :
    ∃ tr₁ s₁ s₂ nodes status, (∀ e ∈ tr₁, OnNodes e.op) ∧
      retrieveJobStatus found = .ok status ∧
      tr = tr₁ ++ written inst action (phaseToReport inst.status status) s₁ s₂ nodes m := by
  unfold reportJob at he
  obtain ⟨tr₁, tr₂, o₁, s₁, rfl, h₁, hrest⟩ := he.bind_split
  have hop := (manageNodesForModule_uses sort inst).events h₁
  rw [List.filterMap_append, (OnNodes.reads hop).2.2.1, List.nil_append] at hm
  rcases hrest with rfl | ⟨r, -, he₁⟩
  · cases hm
  cases r with
  | error e =>
    rw [he₁.ret_trace] at hm
    cases hm
  | ok =>
    dsimp only at he₁
    cases hstatus : retrieveJobStatus found with
    | error e =>
      rw [hstatus] at he₁
      rw [he₁.ret_trace] at hm
      cases hm
    | ok status =>
      rw [hstatus] at he₁
      dsimp only at he₁
      obtain ⟨o₂, s₂, h₂⟩ := he₁.bind_trace fun r => by
        cases r with
        | error e => exact ⟨_, rfl⟩
        | ok => dsimp only; split <;> exact ⟨_, rfl⟩
      obtain ⟨s₃, s₄, nodes, rfl⟩ := updateModuleStatus_stores h₂ hm
      exact ⟨tr₁, s₃, s₄, nodes, status, hop, rfl, rfl⟩

/-- `recreateJob` stores `Pending`, after calls on pods and the removal of the Job. -/
theorem recreateJob_stores {found : Job} {o : Outcome (Except Error Result)}
    (he : Exec W (recreateJob inst action found) s tr o s')
    (hm : m ∈ tr.filterMap moduleStored) :
    ∃ tr₁ s₁ s₂ s₃ r nodes, (∀ e ∈ tr₁, OnPods e.op) ∧
      tr = tr₁ ++ ⟨s₁, .delete .job found.key, r⟩ ::
        written inst action StatusPhasePending s₂ s₃ nodes m := by
  unfold recreateJob at he
  split at he
  · rw [he.ret_trace] at hm
    cases hm
  obtain ⟨tr₁, tr₂, o₁, s₁, rfl, h₁, hrest⟩ := he.bind_split
  have hop := (cleanupPods_uses inst).events h₁
  rw [List.filterMap_append, (OnPods.reads hop).2.2, List.nil_append] at hm
  rcases hrest with rfl | ⟨r, -, he₁⟩
  · cases hm
  rw [delete_bind] at he₁
  rcases he₁.call_cases with ⟨-, rfl, -⟩ | ⟨s₂, r, s₃, tr₃, -, -, he₂, rfl⟩
  · cases hm
  cases r with
  | error e =>
    rw [he₂.ret_trace] at hm
    cases hm
  | ok =>
    dsimp only at he₂
    obtain ⟨o₂, s₄, h₂⟩ := he₂.bind_trace fun r => by cases r <;> exact ⟨_, rfl⟩
    obtain ⟨s₅, s₆, nodes, rfl⟩ := updateModuleStatus_stores h₂ hm
    exact ⟨tr₁, s₂, s₅, s₆, _, nodes, hop, rfl⟩

/-- A reconcile after the action is chosen. -/
theorem syncJob_stores {command : List String} {o : Outcome (Except Error Result)}
    (he : Exec W (syncJob sort inst action (desiredJob inst command)) s tr o s')
    (hm : m ∈ tr.filterMap moduleStored) :
    ∃ found tr₁ s₁ s₂ nodes phase,
      tr.filterMap ReconcileService.moduleRead = [] ∧ tr.filterMap jobRead = [found] ∧
      tr = tr₁ ++ written inst action phase s₁ s₂ nodes m ∧
      ((∃ e ∈ tr, e.op.isDelete = true) ∧ phase = StatusPhasePending ∨
        (∀ e ∈ tr, e.op.isDelete = false) ∧ ∃ status, retrieveJobStatus found = .ok status ∧
          phase = phaseToReport inst.status status) := by
  unfold syncJob at he
  rw [get_bind] at he
  rcases he.call_cases with ⟨-, rfl, -⟩ | ⟨s₁, r, s₂, tr₁, -, -, he₁, rfl⟩
  · cases hm
  rw [List.filterMap_cons_none rfl] at hm
  cases r with
  | error e =>
    dsimp only at he₁
    split at he₁
    · rw [create_bind] at he₁
      rcases he₁.call_cases with ⟨-, rfl, -⟩ | ⟨s₃, r, s₄, tr₂, -, -, he₂, rfl⟩
      · cases hm
      have hnil : tr₂ = [] := by cases r <;> exact he₂.ret_trace
      rw [hnil] at hm
      cases hm
    · rw [he₁.ret_trace] at hm
      cases hm
  | ok found =>
    dsimp only at he₁
    split at he₁
    · split at he₁
      · obtain ⟨tr₂, s₃, s₄, s₅, r, nodes, hop, rfl⟩ := recreateJob_stores he₁ hm
        obtain ⟨hmod, hjob, -⟩ := OnPods.reads hop
        let gone : Event Api σ := ⟨s₃, .delete .job found.key, r⟩
        refine ⟨found, ⟨s₁, .get .job (desiredJob inst command).key, .ok found⟩ :: tr₂ ++ [gone],
          s₄, s₅, nodes, StatusPhasePending, ?_, ?_, ?_, .inl ⟨⟨gone, ?_, rfl⟩, rfl⟩⟩
        · simp [List.filterMap_cons, hmod, ReconcileService.moduleRead, written]
        · simp [List.filterMap_cons, hjob, jobRead, written]
        · rw [List.append_assoc]
          rfl
        · exact List.mem_cons_of_mem _ (List.mem_append_right _ List.mem_cons_self)
      · obtain ⟨tr₂, s₃, s₄, nodes, status, hop, hstatus, rfl⟩ := reportJob_stores he₁ hm
        obtain ⟨hmod, hjob, -, hdel⟩ := OnNodes.reads hop
        refine ⟨found, _ :: tr₂, s₃, s₄, nodes, _, ?_, ?_, rfl, .inr ⟨?_, status, hstatus, rfl⟩⟩
        · simp [List.filterMap_cons, hmod, ReconcileService.moduleRead, written]
        · simp [List.filterMap_cons, hjob, jobRead, written]
        · exact List.forall_mem_cons.mpr ⟨rfl, List.forall_mem_append.mpr ⟨hdel, by
            simp [written, Request.isDelete]⟩⟩
    · rw [he₁.ret_trace] at hm
      cases hm

/-- What a reconcile that stores a status has read, and what it stores. -/
theorem Reconcile_stores {request : Key} {o : Outcome (Except Error Result)}
    (he : Exec W (Reconcile sort request) s tr o s') (hm : m ∈ tr.filterMap moduleStored) :
    ∃ inst found tr₁ s₁ s₂ nodes action phase,
      tr.filterMap ReconcileService.moduleRead = [inst] ∧ tr.filterMap jobRead = [found] ∧
      tr = tr₁ ++ written inst action phase s₁ s₂ nodes m ∧
      ((∃ e ∈ tr, e.op.isDelete = true) ∧ phase = StatusPhasePending ∨
        (∀ e ∈ tr, e.op.isDelete = false) ∧ ∃ status, retrieveJobStatus found = .ok status ∧
          phase = phaseToReport inst.status status) := by
  obtain ⟨k, hk, herr, hok⟩ := Reconcile_eq sort request
  rw [hk] at he
  rcases he.call_cases with ⟨-, rfl, -⟩ | ⟨s₁, r, s₂, tr₁, -, -, he₁, rfl⟩
  · cases hm
  rw [List.filterMap_cons_none rfl] at hm
  cases r with
  | error e =>
    obtain ⟨res, hres⟩ := herr e
    rw [hres] at he₁
    rw [he₁.ret_trace] at hm
    cases hm
  | ok inst =>
    obtain ⟨g, hg, hcases⟩ := hok inst
    rw [hg] at he₁
    obtain ⟨tr₂, tr₃, o₁, s₃, rfl, h₁, hrest⟩ := he₁.bind_split
    obtain ⟨hmod, hjob, hstored, hdel⟩ := OnNodes.reads ((chooseModuleAction_uses inst).events h₁)
    rw [List.filterMap_append, hstored, List.nil_append] at hm
    rcases hrest with rfl | ⟨r, -, he₂⟩
    · cases hm
    rcases hcases r with ⟨res, hr⟩ | ⟨action, command, hr⟩ <;> rw [hr] at he₂
    · rw [he₂.ret_trace] at hm
      cases hm
    obtain ⟨found, tr₄, s₄, s₅, nodes, phase, hmod', hjob', rfl, hphase⟩ := syncJob_stores he₂ hm
    let read : Event Api σ := ⟨s₁, .get .module request, .ok inst⟩
    have hdel' : ∀ e ∈ read :: tr₂, e.op.isDelete = false := List.forall_mem_cons.mpr ⟨rfl, hdel⟩
    refine ⟨inst, found, read :: tr₂ ++ tr₄, s₄, s₅, nodes, action, phase, ?_, ?_, ?_, ?_⟩
    · show inst :: List.filterMap ReconcileService.moduleRead (tr₂ ++ _) = [inst]
      rw [List.filterMap_append, hmod, hmod', List.nil_append]
    · show List.filterMap jobRead (tr₂ ++ _) = [found]
      rw [List.filterMap_append, hjob, hjob', List.nil_append]
    · rw [List.append_assoc]
      rfl
    · refine hphase.imp (And.imp_left ?_) (And.imp_left fun h => ?_)
      · rintro ⟨e, he, hd⟩
        exact ⟨e, List.mem_cons_of_mem _ (List.mem_append_right _ he), hd⟩
      · exact List.forall_mem_append.mpr ⟨hdel', h⟩

end

/-! ## Runs -/

/-- What happens in a step: other actors change objects, or the Module is reconciled. -/
inductive Visit where
  | others
  | reconcile (tr : List (Event Api Cluster))

/-- Other actors may change everything, also between the calls of a reconcile, and calls may
fail. -/
inductive VisitStep (sort : SliceSort) (request : Key) : Cluster → Visit → Cluster → Prop
  | others {c c' : Cluster} : Renews c c' → VisitStep sort request c .others c'
  | reconcile {c c' : Cluster} {tr : List (Event Api Cluster)}
      {o : Outcome (Except Error Result)} :
      Exec (flaky Renews) (Reconcile sort request) c tr o c' →
      VisitStep sort request c (.reconcile tr) c'

/-- The runs of the reconciles of one Module. -/
def visits (sort : SliceSort) (request : Key) : Sys Cluster Visit where
  init := Cluster.Bounded
  step := VisitStep sort request

/-- A status that is stored with the phase `Completed` has the wanted counters. -/
def Visit.Complete : Visit → Prop
  | .others => True
  | .reconcile tr => ∀ m ∈ tr.filterMap moduleStored, m.status.phase = StatusPhaseCompleted →
      m.status.updatedReplicas = m.status.replicas ∧ m.status.replicas = m.spec.replicas

/-- If the reconcile keeps the Job and stores a status, the counters of the Module that it has read
agree and the Job that it has read is complete, then as many Nodes as wanted are up to date in the
list that it has read last. -/
def Visit.NodesAgree : Visit → Prop
  | .others => True
  | .reconcile tr => tr.filterMap moduleStored ≠ [] → (∀ e ∈ tr, e.op.isDelete = false) →
      ∀ inst ∈ tr.filterMap ReconcileService.moduleRead,
        inst.status.updatedReplicas = inst.status.replicas →
        ∀ found ∈ tr.filterMap jobRead, retrieveJobStatus found = .ok StatusPhaseCompleted →
          ∀ nodes ∈ (tr.filterMap nodesRead).getLast?, upToDate inst nodes = inst.spec.replicas

section

variable {c c' : Cluster} {tr : List (Event Api Cluster)} {sort : SliceSort} {request : Key}
  {o : Outcome (Except Error Result)}

theorem renews_of_flaky {op : Request} {r : op.Reply} (h : (flaky Renews).answer c op r c') :
    Renews c c' := by
  rcases h with h | ⟨-, rfl⟩
  · exact h.renews
  · exact .refl _

theorem VisitStep.bounded {l : Visit} (h : VisitStep sort request c l c') (hc : c.Bounded) :
    c'.Bounded := by
  cases h with
  | others h => exact h.bounded hc
  | reconcile he =>
    have hI : Stable (flaky Renews) Cluster.Bounded := fun _ _ h hr => Renews.bounded hr h
    have hu := Reconcile_calls (P := fun _ _ => True) sort request
    exact (hu.invariant hI (fun s op r s' hs _ ha =>
      ⟨flaky_returns ha, (renews_of_flaky ha).bounded hs⟩) he hc).1

/-- The status that a reconcile stores comes with the spec of the copy that it has read. -/
theorem stored_spec (hc : c.Bounded) (he : Exec (flaky Renews) (Reconcile sort request) c tr o c')
    {inst m : Module} {s : Cluster} (status : ModuleStatus)
    (hinst : tr.filterMap ReconcileService.moduleRead = [inst])
    (hev : ⟨s, .updateStatus .module { inst with status := status }, .ok m⟩ ∈ tr) :
    m.spec = inst.spec ∧ m.status = status := by
  obtain ⟨k, hk, herr, hok⟩ := Reconcile_get (fun _ _ => True) sort request
  rw [hk] at he
  rcases he.call_cases with ⟨-, rfl, -⟩ | ⟨c₁, r, c₂, tr₁, henv, ha, he₁, rfl⟩
  · cases hev
  cases r with
  | error e =>
    obtain ⟨res, hres⟩ := herr e
    rw [hres] at he₁
    rw [he₁.ret_trace] at hinst
    cases hinst
  | ok inst' =>
    obtain rfl : inst' = inst := (List.cons.inj hinst).1
    obtain ⟨rfl, hf⟩ := (ha.resolve_right fun h => nomatch h.1).get_ok
    have hknown : Known (k := .module) c₂ inst' :=
      known_of_find? ((Renews.of_star henv).bounded hc) (hf inst' rfl)
    have hI : Stable (flaky Renews) fun c => Known (k := .module) c inst' :=
      fun _ _ h hr => h.renews hr
    have hev₁ := (List.mem_cons.mp hev).resolve_left fun h => nomatch congrArg Event.op h
    have hs := (((hok inst').invariant hI (fun s op r s' hs _ ha =>
      ⟨flaky_returns ha, hs.renews (renews_of_flaky ha)⟩) he₁ hknown).2.1 _ hev₁).1
    obtain ⟨s', ha'⟩ := he₁.answered _ hev₁
    have hserve := ha'.resolve_right fun h => nomatch h.1
    rcases hserve.updateStatus_known hs rfl rfl with ⟨-, e, he⟩ | ⟨-, he, -⟩
    · cases he
    · rw [Except.ok.inj he]
      exact ⟨rfl, rfl⟩

/-- What a reconcile stores, and the copies that it comes from. -/
theorem stored_cases (hc : c.Bounded) (he : Exec (flaky Renews) (Reconcile sort request) c tr o c')
    {m : Module} (hm : m ∈ tr.filterMap moduleStored) :
    ∃ inst found nodes,
      tr.filterMap ReconcileService.moduleRead = [inst] ∧ tr.filterMap jobRead = [found] ∧
      (tr.filterMap nodesRead).getLast? = some nodes ∧
      m.spec = inst.spec ∧ m.status.replicas = inst.spec.replicas ∧
      m.status.updatedReplicas = upToDate inst nodes ∧
      ((∃ e ∈ tr, e.op.isDelete = true) ∧ m.status.phase = StatusPhasePending ∨
        (∀ e ∈ tr, e.op.isDelete = false) ∧ ∃ status, retrieveJobStatus found = .ok status ∧
          m.status.phase = phaseToReport inst.status status) := by
  obtain ⟨inst, found, tr₁, s₁, s₂, nodes, action, phase, hinst, hfound, htr, hphase⟩ :=
    Reconcile_stores he hm
  have hev : ⟨s₂, .updateStatus .module (reported inst action phase nodes), .ok m⟩ ∈ tr := by
    rw [htr]
    exact List.mem_append_right _ (List.mem_cons_of_mem _ List.mem_cons_self)
  obtain ⟨hspec, hstatus⟩ := stored_spec hc he _ hinst hev
  refine ⟨inst, found, nodes, hinst, hfound, ?_, hspec, ?_, ?_, ?_⟩
  · rw [htr, List.filterMap_append]
    exact List.getLast?_concat
  · rw [hstatus]
  · rw [hstatus]
    exact reported_updated ..
  · rw [hstatus]
    exact hphase

theorem phaseToReport_eq_completed {status : ModuleStatus} {phase : String} :
    phaseToReport status phase = StatusPhaseCompleted ↔
      phase = StatusPhaseCompleted ∧ status.updatedReplicas = status.replicas := by
  unfold phaseToReport
  split
  · rename_i h
    exact iff_of_false (by decide) fun hc => h.1 hc.2
  · rename_i h
    refine ⟨fun hp => ⟨hp, ?_⟩, fun hp => hp.1⟩
    by_contra hc
    exact h ⟨hc, hp⟩

/-- A reconcile stores `Completed` with the wanted counters only, exactly if the Nodes agree when
the old counters do. -/
theorem complete_iff_agree {l : Visit} (hc : c.Bounded) (h : VisitStep sort request c l c') :
    l.Complete ↔ l.NodesAgree := by
  cases h with
  | others => exact Iff.rfl
  | reconcile he =>
    constructor
    · intro hgood hne hdel inst hinst hagree found hfound hcomplete nodes hnodes
      obtain ⟨m, hm⟩ := List.exists_mem_of_ne_nil _ hne
      obtain ⟨inst', found', nodes', hinst', hfound', hnodes', hspec, hr, hu, hphase⟩ :=
        stored_cases hc he hm
      rw [hinst', List.mem_singleton] at hinst
      rw [hfound', List.mem_singleton] at hfound
      subst hinst hfound
      obtain rfl := Option.some.inj (hnodes.symm.trans hnodes')
      rcases hphase with ⟨⟨e, hm, hd⟩, -⟩ | ⟨-, status, hstatus, hphase⟩
      · exact absurd hd (by simp [hdel e hm])
      · obtain rfl := Except.ok.inj (hcomplete.symm.trans hstatus)
        have hdone := hgood m hm (hphase.trans (phaseToReport_eq_completed.mpr ⟨rfl, hagree⟩))
        rw [← hu, hdone.1, hr]
    · intro hcond m hm hdone
      obtain ⟨inst, found, nodes, hinst, hfound, hnodes, hspec, hr, hu, hphase⟩ :=
        stored_cases hc he hm
      rcases hphase with ⟨-, hphase⟩ | ⟨hdel, status, hstatus, hphase⟩
      · exact absurd (hphase.symm.trans hdone) (by decide)
      · obtain ⟨rfl, hagree⟩ := phaseToReport_eq_completed.mp (hphase.symm.trans hdone)
        have hcount := hcond (List.ne_nil_of_mem hm) hdel inst (by simp [hinst]) hagree found
          (by simp [hfound]) hstatus nodes hnodes
        rw [hu, hr, hspec]
        exact ⟨hcount, rfl⟩

/-- In a run, `Completed` is stored with the wanted counters only, exactly if the Nodes agree
whenever a reconcile finds agreeing old counters and a completed Job. -/
theorem completed_iff {ts : List (Trans Cluster Visit)} (h : Run (visits sort request) ts c) :
    (∀ t ∈ ts, t.lbl.Complete) ↔ ∀ t ∈ ts, t.lbl.NodesAgree :=
  h.forall_iff (I := Cluster.Bounded) (fun _ h => h) (fun _ hst hs _ => VisitStep.bounded hst hs)
    fun _ hst hs => complete_iff_agree hs hst

end

/-! ### A Module that has no Nodes yet -/

/-- A store with a Module. -/
def moduleStore (module : Module) : Cluster :=
  Cluster.empty.setTbl .module (Table.empty.put module)

/-- The state after a reconcile when nobody else acts. -/
def visited (c : Cluster) : Ran Api Cluster (Except Error Result) :=
  run serve (Reconcile insertionSort webRequest) c

/-- The Job of the Module ends well. -/
def jobDone (c : Cluster) : Cluster :=
  c.setTbl .job ((c.tbl .job).put { webJob with
    metadata := { webJob.metadata with resourceVersion := c.version + 1 }
    status := { startTime := some "2019-02-01T10:00:00Z", conditions := ["Complete"] } })

theorem bounded_moduleStore {module : Module} (h : module.metadata.resourceVersion ≤ 1) :
    (moduleStore module).Bounded :=
  bounded_empty.put (k := .module) h

theorem visit_run (c : Cluster) :
    VisitStep insertionSort webRequest c (.reconcile (visited c).trace) (visited c).final :=
  .reconcile (flaky_of_calm Renews (calm_run _ c))

/-- The first reconcile creates the Job, which ends well before the second one. That one finds the
counters of a Module without a status. -/
theorem completed_without_nodes :
    ¬ ∀ (sort : SliceSort) (request : Key) (ts : List (Trans Cluster Visit)) (c : Cluster),
      Run (visits sort request) ts c → ∀ t ∈ ts, t.lbl.Complete := by
  intro h
  let c₁ := (visited (moduleStore (provisionedModule "nginx-1"))).final
  have hbounded : (moduleStore (provisionedModule "nginx-1")).Bounded :=
    bounded_moduleStore (by decide)
  have hrun := (((Run.nil (S := visits insertionSort webRequest) hbounded).snoc
    (visit_run _)).snoc (.others (Renews.put (k := .job) c₁ rfl))).snoc (visit_run (jobDone c₁))
  have hgood : (Visit.reconcile (visited (jobDone c₁)).trace).Complete :=
    h _ _ _ _ hrun _ (List.mem_append_right _ (List.mem_singleton.mpr rfl))
  have hstored : ((visited (jobDone c₁)).trace.filterMap moduleStored).map Object.status =
      [{ phase := StatusPhaseCompleted, replicas := 1, currentReplicas := 0,
         updatedReplicas := 0 }] := by decide
  obtain ⟨m, hm, hstatus⟩ := List.mem_map.mp (hstored ▸ List.mem_singleton.mpr rfl)
  have hcount := (hgood m hm (by rw [hstatus])).1
  rw [hstatus] at hcount
  exact absurd hcount (by decide)

/-- The Node of the replica, which is up to date. -/
def readyNode : Node :=
  { newNode "web" "default" "nginx-0" 0 with
    status := { nodeProperties := { id := "7d3c", node := "nginx-0", address := "10.0.0.1",
                                    flavor := "m1", image := "nginx-1" } } }

/-- The store with that Node and the counters of an earlier reconcile. -/
def readyStore : Cluster :=
  let c := moduleStore { provisionedModule "nginx-1" with
    status := { phase := StatusPhaseRunning, replicas := 1, updatedReplicas := 1 } }
  c.setTbl .node ((c.tbl .node).put readyNode)

theorem completed_web : (Visit.reconcile (visited (jobDone readyStore)).trace).Complete := by
  have hready : readyStore.Bounded :=
    (bounded_moduleStore (by decide)).put (k := .node) (by decide)
  have hdone : (jobDone readyStore).Bounded := hready.put (k := .job) le_rfl
  have hrun := (Run.nil (S := visits insertionSort webRequest) hdone).snoc (visit_run _)
  refine (completed_iff hrun).mpr ?_ _ (List.mem_singleton.mpr rfl)
  refine List.forall_mem_singleton.mpr ?_
  show Visit.NodesAgree (.reconcile _)
  unfold Visit.NodesAgree
  decide

end ReconcileModule

end Automium
