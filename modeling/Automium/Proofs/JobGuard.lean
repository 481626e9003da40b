import Automium.Api.Versions
import Automium.Effect.Runs
import Automium.Proofs.ModuleCalls

/-!
# When a running provisioner is killed

Before a reconcile deletes the Job of a Module and its pods, it looks at the number of active pods
in the copy of the Job that it has read. That copy may be old, and the number in it counts the pods
that the Job controller had counted when it wrote that version. So the state (`Yard`) has, with
the objects, every version of a Job that was stored and the pods counted in it. The invariant
(`Counted`) says that a version without active pods counts finished pods only, also long after it
was written. A reconcile then spares every running pod, if each pod of the Job was counted in the
copy (`running_spared`), and it kills one that has just been started (`started_pod_killed`).
-/

namespace Automium

open Data Effect

namespace ReconcileModule

/-! ## Pods of a Job -/

/-- The pod is controlled by the Job. -/
def ownedBy (pod : Pod) (job : Job) : Bool :=
  pod.metadata.ownerReferences.any fun ref =>
    ref.controller && ref.kind = "Job" && ref.uid = job.metadata.uid

def finished (pod : Pod) : Bool := pod.status.phase = "Succeeded" || pod.status.phase = "Failed"

def jobKey (request : Key) : Key := ⟨request.ns, jobName request.name⟩

/-- The pods of the stored Job of a Module. -/
def jobPods (c : Cluster) (request : Key) : List Pod :=
  match c.find? .job (jobKey request) with
  | none => []
  | some job => (c.tbl .pod).items.filter fun pod => ownedBy pod job

/-- The call deletes the Job of the Module or one of its pods. -/
def killing (request : Key) (c : Cluster) : Request → Bool
  | .delete .job key => key = jobKey request
  | .delete .pod key => (jobPods c request).any fun pod => pod.key = key
  | _ => false

/-! ## The system -/

/-- The stored objects, the Jobs that were ever stored, and for each version of a Job the uids of
the pods that its status counts. -/
structure Yard where
  cluster : Cluster
  past : Job → Prop
  counted : Nat → List Nat

/-- The state after a step. -/
def Yard.next (s : Yard) (c : Cluster) (counted : Nat → List Nat) : Yard where
  cluster := c
  past j := s.past j ∨ j ∈ c.tbl .job
  counted := counted

/-- The pod that the Job controller starts for a Job. -/
def startedPod (job : Job) (suffix : String) (v : Nat) : Pod where
  metadata := { name := job.metadata.name ++ "-" ++ suffix, ns := job.metadata.ns,
                labels := job.spec.templateLabels,
                ownerReferences := controllerReference "Job" job.metadata,
                uid := v, resourceVersion := v }
  spec := ()
  status := { phase := "Pending" }

/-- The number of active pods among those counted. -/
def activeAmong (c : Cluster) (counts : List Nat) : Nat :=
  ((c.tbl .pod).items.filter fun pod => pod.metadata.uid ∈ counts && !finished pod).length

/-- A step around the Module controller. -/
inductive YardStep (s : Yard) : Yard → Prop
  /-- The Job controller starts a pod for a Job that has not ended. -/
  | start {job : Job} {suffix : String} : s.cluster.find? .job job.key = some job →
      job.status.conditions = [] →
      s.cluster.find? .pod (startedPod job suffix (s.cluster.version + 1)).key = none →
      YardStep s (s.next (s.cluster.setTbl .pod
        ((s.cluster.tbl .pod).put (startedPod job suffix (s.cluster.version + 1)))) s.counted)
  /-- The phase of a pod changes. A finished pod stays finished. -/
  | progress {pod : Pod} {status : PodStatus} : s.cluster.find? .pod pod.key = some pod →
      (finished pod = true → finished { pod with status := status } = true) →
      YardStep s (s.next (s.cluster.setTbl .pod ((s.cluster.tbl .pod).put
        (statusObj .pod pod { pod with status := status } (s.cluster.version + 1)))) s.counted)
  /-- The Job controller writes the status of a Job. It has seen the pods `counts`, which may not be
  all. -/
  | sync {job : Job} {status : JobStatus} {counts : List Nat} :
      s.cluster.find? .job job.key = some job →
      (∀ uid ∈ counts, ∃ pod : Pod, pod ∈ s.cluster.tbl .pod ∧ ownedBy pod job = true ∧
        pod.metadata.uid = uid) →
      status.active = activeAmong s.cluster counts →
      YardStep s (s.next (s.cluster.setTbl .job ((s.cluster.tbl .job).put
        (statusObj .job job { job with status := status } (s.cluster.version + 1))))
        (Function.update s.counted (s.cluster.version + 1) counts))
  /-- A Job or a pod is removed. -/
  | remove {k : Kind} {key : Key} : k = .job ∨ k = .pod →
      YardStep s (s.next (s.cluster.setTbl k ((s.cluster.tbl k).erase key)) s.counted)
  /-- A user edits Modules, or other actors write objects of other kinds. -/
  | edit {c' : Cluster} : s.cluster.version ≤ c'.version →
      c'.tbl .job = s.cluster.tbl .job → c'.tbl .pod = s.cluster.tbl .pod →
      YardStep s (s.next c' s.counted)

/-- The read of a Job from a cache: any version that was stored once. -/
def Stale (s : Yard) : (op : Request) → op.Reply → Prop
  | .get .job key, r => ∃ j : Job, s.past j ∧ j.key = key ∧ r = .ok j
  | _, _ => False

/-- The world of a reconcile of a Module. -/
def yard : World Api Yard where
  env := YardStep
  answer s op r s' := ∃ c', (Serves s.cluster op r c' ∨ (Stale s op r ∨ op.Failed r) ∧
    c' = s.cluster) ∧ s' = s.next c' s.counted

/-- What happens in a step: something around the Module controller, or one of its reconciles. -/
inductive YardLabel where
  | others
  | reconcile (request : Key) (tr : List (Event Api Yard))

/-- The reconciles run one after the other, as the controller has one worker. Each may stop at any
call. -/
inductive Work (sort : SliceSort) : Yard → YardLabel → Yard → Prop
  | others {s s' : Yard} : YardStep s s' → Work sort s .others s'
  | reconcile {request : Key} {s s' : Yard} {tr : List (Event Api Yard)}
      {o : Outcome (Except Error Result)} : Exec yard (Reconcile sort request) s tr o s' →
      Work sort s (.reconcile request tr) s'

/-! ## The condition and the property -/

/-- The copy of the Job that the call read. -/
def jobRead {σ : Type} : Event Api σ → Option Job
  | ⟨_, .get .job _, .ok found⟩ => some found
  | _ => none

/-- When the reconcile deletes the Job or one of its pods, the copy of the Job that it has read
counts each pod of the Job. -/
def CountsAll (request : Key) (tr : List (Event Api Yard)) : Prop :=
  ∀ e ∈ tr, killing request e.state.cluster e.op = true → ∀ copy ∈ tr.filterMap jobRead,
    ∀ pod ∈ jobPods e.state.cluster request,
      pod.metadata.uid ∈ e.state.counted copy.metadata.resourceVersion

/-- When the reconcile deletes the Job or one of its pods, each pod of the Job is finished. -/
def SparesActive (request : Key) (tr : List (Event Api Yard)) : Prop :=
  ∀ e ∈ tr, killing request e.state.cluster e.op = true →
    ∀ pod ∈ jobPods e.state.cluster request, finished pod = true

def YardLabel.CountsAll : YardLabel → Prop
  | .others => True
  | .reconcile request tr => ReconcileModule.CountsAll request tr

def YardLabel.SparesActive : YardLabel → Prop
  | .others => True
  | .reconcile request tr => ReconcileModule.SparesActive request tr

/-! ## The invariant -/

/-- A version of a Job without active pods counts finished pods only, and no version counts a pod
that is still to come. -/
structure Counted (s : Yard) : Prop where
  idle : ∀ j, s.past j → j.status.active < 1 → ∀ pod : Pod, pod ∈ s.cluster.tbl .pod →
    pod.metadata.uid ∈ s.counted j.metadata.resourceVersion → finished pod = true
  stored : ∀ j : Job, j ∈ s.cluster.tbl .job → s.past j
  versions : ∀ j, s.past j → j.metadata.resourceVersion ≤ s.cluster.version
  pods : ∀ pod : Pod, pod ∈ s.cluster.tbl .pod → pod.metadata.uid ≤ s.cluster.version
  uids : ∀ v, ∀ uid ∈ s.counted v, uid ≤ s.cluster.version
  fresh : ∀ v, s.cluster.version < v → s.counted v = []

/-- What a step may do to the Jobs and the pods: pods finish, and new objects have new numbers. -/
structure Develops (s : Yard) (c' : Cluster) : Prop where
  version : s.cluster.version ≤ c'.version
  pods : ∀ pod : Pod, pod ∈ c'.tbl .pod →
    (∃ old : Pod, old ∈ s.cluster.tbl .pod ∧ old.metadata.uid = pod.metadata.uid ∧
      (finished old = true → finished pod = true)) ∨
    s.cluster.version < pod.metadata.uid ∧ pod.metadata.uid ≤ c'.version
  jobs : ∀ j : Job, j ∈ c'.tbl .job → j ∈ s.cluster.tbl .job ∨
    s.cluster.version < j.metadata.resourceVersion ∧ j.metadata.resourceVersion ≤ c'.version

section

variable {s s' : Yard} {c' : Cluster} {sort : SliceSort} {op : Request} {r : op.Reply}

/-- A step with new counts for the new versions only. -/
theorem Counted.next (h : Counted s) (hd : Develops s c') {counted : Nat → List Nat}
    (hold : ∀ v, v ≤ s.cluster.version → counted v = s.counted v)
    (hidle : ∀ j : Job, j ∈ c'.tbl .job → s.cluster.version < j.metadata.resourceVersion →
      j.status.active < 1 → ∀ pod : Pod, pod ∈ c'.tbl .pod →
        pod.metadata.uid ∈ counted j.metadata.resourceVersion → finished pod = true)
    (huids : ∀ v, s.cluster.version < v → ∀ uid ∈ counted v, uid ≤ s.cluster.version)
    (hfresh : ∀ v, c'.version < v → counted v = []) : Counted (s.next c' counted) where
  idle := by
    intro j hj hactive pod hpod huid
    have hpast : s.past j → finished pod = true := by
      intro hj
      have huid : pod.metadata.uid ∈ s.counted j.metadata.resourceVersion := by
        rw [← hold _ (h.versions j hj)]
        exact huid
      rcases hd.pods pod hpod with ⟨old, hmem, heq, hfin⟩ | ⟨hlt, -⟩
      · exact hfin (h.idle j hj hactive old hmem (heq ▸ huid))
      · exact absurd (h.uids _ _ huid) (not_le.mpr hlt)
    rcases hj with hj | hj
    · exact hpast hj
    · rcases hd.jobs j hj with hj | ⟨hlt, -⟩
      · exact hpast (h.stored j hj)
      · exact hidle j hj hlt hactive pod hpod huid
  stored j hj := .inr hj
  versions := by
    rintro j (hj | hj)
    · exact (h.versions j hj).trans hd.version
    · rcases hd.jobs j hj with hj | ⟨-, hle⟩
      · exact (h.versions j (h.stored j hj)).trans hd.version
      · exact hle
  pods pod hpod := by
    rcases hd.pods pod hpod with ⟨old, hmem, heq, -⟩ | ⟨-, hle⟩
    · exact heq ▸ (h.pods old hmem).trans hd.version
    · exact hle
  uids v uid huid := by
    refine le_trans ?_ hd.version
    by_cases hv : v ≤ s.cluster.version
    · exact h.uids v uid (hold v hv ▸ huid)
    · exact huids v (not_le.mp hv) uid huid
  fresh := hfresh

/-- A step that writes no status of a Job. -/
theorem Counted.next_same (h : Counted s) (hd : Develops s c') : Counted (s.next c' s.counted) := by
  refine h.next hd (fun _ _ => rfl) (fun j _ hlt _ pod _ huid => ?_) (fun v hlt uid huid => ?_)
    fun v hv => h.fresh v (hd.version.trans_lt hv)
  · rw [h.fresh _ hlt] at huid
    exact absurd huid List.not_mem_nil
  · rw [h.fresh _ hlt] at huid
    exact absurd huid List.not_mem_nil

/-- Steps after which every Job and pod was there before. -/
theorem Develops.of_subset (hv : s.cluster.version ≤ c'.version)
    (hpods : ∀ pod : Pod, pod ∈ c'.tbl .pod → pod ∈ s.cluster.tbl .pod)
    (hjobs : ∀ j : Job, j ∈ c'.tbl .job → j ∈ s.cluster.tbl .job) : Develops s c' where
  version := hv
  pods pod hpod := .inl ⟨pod, hpods pod hpod, rfl, fun h => h⟩
  jobs j hj := .inl (hjobs j hj)

/-- Writing a pod. -/
theorem Develops.put_pod {pod : Pod}
    (hpod : (∃ old : Pod, old ∈ s.cluster.tbl .pod ∧ old.metadata.uid = pod.metadata.uid ∧
      (finished old = true → finished pod = true)) ∨ pod.metadata.uid = s.cluster.version + 1) :
    Develops s (s.cluster.setTbl .pod ((s.cluster.tbl .pod).put pod)) where
  version := Nat.le_succ _
  pods x hx := by
    rw [Cluster.setTbl_self] at hx
    rcases Table.mem_put.mp hx with rfl | ⟨hx, -⟩
    · refine hpod.imp id fun h => ?_
      rw [h]
      exact ⟨Nat.lt_succ_self _, le_rfl⟩
    · exact .inl ⟨x, hx, rfl, fun h => h⟩
  jobs j hj := .inl hj

/-- Writing a Job. -/
theorem Develops.put_job {job : Job} (hjob : job.metadata.resourceVersion = s.cluster.version + 1) :
    Develops s (s.cluster.setTbl .job ((s.cluster.tbl .job).put job)) where
  version := Nat.le_succ _
  pods pod hpod := .inl ⟨pod, hpod, rfl, fun h => h⟩
  jobs j hj := by
    rw [Cluster.setTbl_self] at hj
    rcases Table.mem_put.mp hj with rfl | ⟨hj, -⟩
    · rw [hjob]
      exact .inr ⟨Nat.lt_succ_self _, le_rfl⟩
    · exact .inl hj

theorem Develops.erase (k : Kind) (key : Key) :
    Develops s (s.cluster.setTbl k ((s.cluster.tbl k).erase key)) :=
  .of_subset (Nat.le_succ _) (fun _ h => mem_of_erase h) fun _ h => mem_of_erase h

/-- The Job controller writes a status. -/
theorem Counted.sync (h : Counted s) {job : Job} {status : JobStatus} {counts : List Nat}
    (hcounts : ∀ uid ∈ counts, uid ≤ s.cluster.version)
    (hactive : status.active = activeAmong s.cluster counts) :
    Counted (s.next (s.cluster.setTbl .job ((s.cluster.tbl .job).put
      (statusObj .job job { job with status := status } (s.cluster.version + 1))))
      (Function.update s.counted (s.cluster.version + 1) counts)) := by
  refine h.next (.put_job rfl) (fun v hv => ?_) ?_ (fun v hv uid huid => ?_) fun v hv => ?_
  · exact Function.update_of_ne (by omega) ..
  · intro j hj hlt hidle pod hpod huid
    rw [Cluster.setTbl_self] at hj
    rcases Table.mem_put.mp hj with rfl | ⟨hj, -⟩
    · -- No pod that was counted is active.
      have hpod : pod ∈ s.cluster.tbl .pod := hpod
      have hcount : activeAmong s.cluster counts = 0 := by
        have hlt : status.active < 1 := hidle
        omega
      have hnone := List.filter_eq_nil_iff.mp (List.length_eq_zero_iff.mp hcount) pod hpod
      have hmem : pod.metadata.uid ∈ counts := by
        have heq : Function.update s.counted (s.cluster.version + 1) counts
          (s.cluster.version + 1) = counts := Function.update_self ..
        exact heq ▸ huid
      simpa [hmem] using hnone
    · exact absurd (h.versions j (h.stored j hj)) (not_le.mpr hlt)
  · by_cases hv' : v = s.cluster.version + 1
    · subst hv'
      rw [Function.update_self] at huid
      exact hcounts uid huid
    · rw [Function.update_of_ne hv', h.fresh v hv] at huid
      exact absurd huid List.not_mem_nil
  · have hv : s.cluster.version + 1 < v := hv
    rw [Function.update_of_ne (by omega), h.fresh v (by omega)]

/-- The invariant survives what happens around the controller. -/
theorem YardStep.counted (h : YardStep s s') (hs : Counted s) : Counted s' := by
  cases h with
  | start => exact hs.next_same (.put_pod (.inr rfl))
  | @progress pod status hf hfin =>
    exact hs.next_same (.put_pod (.inl ⟨pod, find?_mem hf, rfl, hfin⟩))
  | sync _ hcounts hactive =>
    refine hs.sync (fun uid huid => ?_) hactive
    obtain ⟨pod, hpod, -, rfl⟩ := hcounts uid huid
    exact hs.pods pod hpod
  | remove => exact hs.next_same (.erase ..)
  | edit hv hjobs hpods =>
    exact hs.next_same (.of_subset hv (fun pod h => hpods ▸ h) fun j h => hjobs ▸ h)

/-! ## A reconcile -/

/-- What a call of a reconcile does to the Jobs and the pods. -/
theorem develops_of_mayCall {inst : Module} (hop : MayCall (fun _ _ => True) inst op)
    (h : Serves s.cluster op r c') : Develops s c' := by
  rcases h.cases with rfl | ⟨k, o, o', hw, rfl, hwrite⟩ | ⟨k, key, -, rfl⟩
  · exact .of_subset le_rfl (fun _ h => h) fun _ h => h
  · by_cases hjob : k = .job
    · subst hjob
      refine .put_job ?_
      rcases hwrite with ⟨-, -, rfl⟩ | ⟨old, -, -, -, rfl⟩ | ⟨old, -, -, -, rfl⟩ <;> rfl
    · by_cases hpod : k = .pod
      · subst hpod
        exfalso
        rcases hwrite with ⟨rfl, -⟩ | ⟨old, rfl, -⟩ | ⟨old, rfl, -⟩ <;> exact hop
      · refine .of_subset (Nat.le_succ _) (fun pod hp => ?_) fun j hj => ?_
        · rwa [Cluster.setTbl_ne _ _ (Ne.symm hpod)] at hp
        · rwa [Cluster.setTbl_ne _ _ (Ne.symm hjob)] at hj
  · exact .erase k key

theorem yard_returns (h : yard.answer s op r s') :
    op.Returns (fun _ _ => True) r := by
  obtain ⟨c', hserve | ⟨hstale | hfailed, -⟩, -⟩ := h
  · exact hserve.returns fun _ _ _ => trivial
  · unfold Stale at hstale
    split at hstale
    · obtain ⟨j, -, hkey, rfl⟩ := hstale
      rintro o e
      cases e
      exact ⟨trivial, hkey⟩
    · exact hstale.elim
  · exact hfailed.returns

/-- A call keeps the invariant and what has been stored. -/
theorem Counted.answer (hs : Counted s)
    (hop : (∃ inst, MayCall (fun _ _ => True) inst op) ∨ ∃ request, op = .get .module request)
    (h : yard.answer s op r s') : Counted s' := by
  obtain ⟨c', hcases, rfl⟩ := h
  have hsame : c' = s.cluster → Develops s c' := fun hc =>
    .of_subset (by rw [hc]) (fun _ h => hc ▸ h) fun _ h => hc ▸ h
  rcases hcases with hserve | ⟨-, hc⟩
  · rcases hop with ⟨inst, hop⟩ | ⟨request, rfl⟩
    · exact hs.next_same (develops_of_mayCall hop hserve)
    · exact hs.next_same (hsame hserve.get_ok.1)
  · exact hs.next_same (hsame hc)

/-- A Job that is read was stored once. -/
theorem past_of_read {key : Key} {found : Job} (hs : Counted s)
    (h : yard.answer s (.get .job key) (.ok found) s') : s'.past found := by
  obtain ⟨c', hserve | ⟨⟨j, hj, -, e⟩ | ⟨e, he⟩, -⟩, rfl⟩ := h
  · exact .inl (hs.stored found (find?_mem (hserve.get_ok.2 found rfl)))
  · cases e
    exact .inl hj
  · cases he

theorem past_mono (j : Job) (hj : s.past j) (h : YardStep s s' ∨ ∃ op r, yard.answer s op r s') :
    s'.past j := by
  rcases h with h | ⟨op, r, c', -, rfl⟩
  · cases h <;> exact .inl hj
  · exact .inl hj

/-- A reconcile keeps the invariant. -/
theorem Counted.exec {request : Key} {tr : List (Event Api Yard)}
    {o : Outcome (Except Error Result)} (hs : Counted s)
    (he : Exec yard (Reconcile sort request) s tr o s') :
    Counted s' ∧ ∀ e ∈ tr, Counted e.state := by
  have hstable : Stable yard Counted := fun _ _ h he => YardStep.counted he h
  have hcall : ∀ s op r s', Counted s → (op = .get .module request ∨ ∃ inst : Module, True ∧
      inst.key = request ∧ MayCall (fun _ _ => True) inst op) → yard.answer s op r s' →
        op.Returns (fun _ _ => True) r ∧ Counted s' := by
    rintro s op r s' hs hop ha
    refine ⟨yard_returns ha, hs.answer ?_ ha⟩
    rcases hop with rfl | ⟨inst, -, -, hop⟩
    · exact .inr ⟨_, rfl⟩
    · exact .inl ⟨inst, hop⟩
  obtain ⟨h, hev, -⟩ :=
    (Reconcile_calls (P := fun _ _ => True) sort request).invariant hstable hcall he hs
  exact ⟨h, fun e hm => (hev e hm).1⟩

theorem Reports.not_delete {α : Type} {inst : Module} {q : Ctl α} {Q : α → Prop}
    {tr : List (Event Api Yard)} {o : Outcome α}
    (hq : Reports (fun _ _ => True) inst q Q) (he : Exec yard q s tr o s') :
    ∀ e ∈ tr, ¬ e.op.isDelete = true := by
  have htrue : Stable yard fun _ => True := fun _ _ _ _ => trivial
  have hev := (hq.invariant htrue (fun s op r s' _ _ ha => ⟨yard_returns ha, trivial⟩) he
    trivial).2.1
  exact fun e hm => by simp [(hev e hm).2.2]

/-- A program that deletes nothing, or only if the copy of the Job counts no active pod, which was
stored before. -/
theorem deletes_of_copy {inst : Module} {q : Ctl (Except Error Result)} {found : Job}
    {tr : List (Event Api Yard)} {o : Outcome (Except Error Result)} (hfound : s.past found)
    (hq : Reports (fun _ _ => True) inst q (fun _ => True) ∨
      found.status.active < 1 ∧ Does (fun _ _ => True) inst q fun _ => True)
    (he : Exec yard q s tr o s') :
    ∀ e ∈ tr, e.op.isDelete = true → found.status.active < 1 ∧ e.state.past found := by
  have hpast : Stable yard fun s => s.past found := fun _ _ h he => past_mono found h (.inl he)
  rcases hq with hq | ⟨hactive, hq⟩
  · exact fun e hm hdel => absurd hdel (hq.not_delete he e hm)
  · have hev := (hq.invariant hpast
      (fun s op r s' hs _ ha => ⟨yard_returns ha, past_mono found hs (.inr ⟨op, r, ha⟩)⟩) he
      hfound).2.1
    exact fun e hm _ => ⟨hactive, (hev e hm).1⟩

/-- What is deleted, is deleted with a copy of the Job at hand that counts no active pod and was
stored before. -/
def Guarded (tr : List (Event Api Yard)) : Prop :=
  ∀ e ∈ tr, e.op.isDelete = true →
    ∃ copy ∈ tr.filterMap jobRead, copy.status.active < 1 ∧ e.state.past copy

theorem Guarded.of_not_delete {tr : List (Event Api Yard)}
    (h : ∀ e ∈ tr, ¬ e.op.isDelete = true) : Guarded tr :=
  fun e hm hdel => absurd hdel (h e hm)

theorem Guarded.nil : Guarded [] := .of_not_delete fun _ hm => absurd hm List.not_mem_nil

theorem Guarded.append {tr₁ tr₂ : List (Event Api Yard)} (h₁ : ∀ e ∈ tr₁, ¬ e.op.isDelete = true)
    (h₂ : Guarded tr₂) : Guarded (tr₁ ++ tr₂) := by
  intro e hm hdel
  rcases List.mem_append.mp hm with hm | hm
  · exact absurd hdel (h₁ e hm)
  · obtain ⟨copy, hcopy, h⟩ := h₂ e hm hdel
    exact ⟨copy, ((List.sublist_append_right tr₁ tr₂).filterMap _).subset hcopy, h⟩

theorem Guarded.cons {e : Event Api Yard} {tr : List (Event Api Yard)}
    (he : ¬ e.op.isDelete = true) (h : Guarded tr) : Guarded (e :: tr) :=
  .append (List.forall_mem_singleton.mpr he) h

theorem syncJob_guarded {inst : Module} {action : String} {command : List String}
    {tr : List (Event Api Yard)} {o : Outcome (Except Error Result)}
    (hcounted : ∀ e ∈ tr, Counted e.state)
    (he : Exec yard (syncJob sort inst action (desiredJob inst command)) s tr o s') :
    Guarded tr := by
  obtain ⟨k, hk, herr, hok⟩ := syncJob_get (fun _ _ => True) sort action command
  rw [hk] at he
  rcases he.call_cases with ⟨-, rfl, -⟩ | ⟨s₁, r, s₂, tr₁, -, ha, he₁, rfl⟩
  · exact .nil
  cases r with
  | error err => exact .cons Bool.false_ne_true (.of_not_delete ((herr err).not_delete he₁))
  | ok found =>
    have hkey := (yard_returns ha found rfl).2
    have hpast := past_of_read (hcounted _ List.mem_cons_self) ha
    intro e hm hdel
    rcases List.mem_cons.mp hm with rfl | hm
    · cases hdel
    · exact ⟨found, List.mem_filterMap.mpr ⟨_, List.mem_cons_self, rfl⟩,
        deletes_of_copy hpast (hok found hkey) he₁ e hm hdel⟩

/-- What a reconcile deletes, it deletes after it has read a copy of the Job without active pods. -/
theorem Reconcile_guarded {request : Key} {tr : List (Event Api Yard)}
    {o : Outcome (Except Error Result)} (hs : Counted s)
    (he : Exec yard (Reconcile sort request) s tr o s') : Guarded tr := by
  have hcounted := (hs.exec he).2
  obtain ⟨k, hk, herr, hok⟩ := Reconcile_eq sort request
  rw [hk] at he
  rcases he.call_cases with ⟨-, rfl, -⟩ | ⟨s₁, r, s₂, tr₁, -, -, he₁, rfl⟩
  · exact .nil
  refine .cons Bool.false_ne_true ?_
  cases r with
  | error e =>
    obtain ⟨res, hres⟩ := herr e
    rw [hres] at he₁
    rw [he₁.ret_trace]
    exact .nil
  | ok inst =>
    obtain ⟨g, hg, hcases⟩ := hok inst
    rw [hg] at he₁
    rcases he₁.bind_cases with ⟨r, s₃, tr₂, tr₃, rfl, haction, he₂⟩ | ⟨_, _, haction⟩ | ⟨_, haction⟩
    · refine .append (chooseModuleAction_calls.not_delete haction) ?_
      rcases hcases r with ⟨res, hr⟩ | ⟨action, command, hr⟩
      · rw [hr] at he₂
        rw [he₂.ret_trace]
        exact .nil
      · rw [hr] at he₂
        refine syncJob_guarded (fun e hm => ?_) he₂
        exact hcounted e (List.mem_cons_of_mem _ (List.mem_append_right _ hm))
    · exact .of_not_delete (chooseModuleAction_calls.not_delete haction)
    · exact .of_not_delete (chooseModuleAction_calls.not_delete haction)

/-! ## Runs -/

/-- The runs of the controller and what happens around it. -/
def jobSystem (sort : SliceSort) : Sys Yard YardLabel where
  init := Counted
  step := Work sort

theorem isDelete_of_killing {request : Key} {c : Cluster} (h : killing request c op = true) :
    op.isDelete = true := by
  unfold killing at h
  split at h
  · rfl
  · rfl
  · cases h

theorem mem_of_jobPods {request : Key} {c : Cluster} {pod : Pod} (h : pod ∈ jobPods c request) :
    pod ∈ c.tbl .pod := by
  unfold jobPods at h
  split at h
  · exact absurd h List.not_mem_nil
  · exact List.mem_of_mem_filter h

/-- A reconcile whose copy of the Job counts each pod kills no active one. -/
theorem spares_of_countsAll {request : Key} {tr : List (Event Api Yard)}
    {o : Outcome (Except Error Result)} (hs : Counted s)
    (he : Exec yard (Reconcile sort request) s tr o s') (hc : CountsAll request tr) :
    SparesActive request tr := by
  intro e hm hkill pod hpod
  obtain ⟨copy, hcopy, hactive, hpast⟩ := Reconcile_guarded hs he e hm (isDelete_of_killing hkill)
  exact ((hs.exec he).2 e hm).idle copy hpast hactive pod (mem_of_jobPods hpod)
    (hc e hm hkill copy hcopy pod hpod)

/-- In a run whose reconciles delete only on copies that count each pod, no reconcile kills an
active pod. -/
theorem running_spared {ts : List (Trans Yard YardLabel)} (h : Run (jobSystem sort) ts s)
    (hc : ∀ t ∈ ts, t.lbl.CountsAll) : ∀ t ∈ ts, t.lbl.SparesActive := by
  have hstep : ∀ t : Trans Yard YardLabel, Work sort t.pre t.lbl t.post → Counted t.pre →
      Counted t.post ∧ (t.lbl.CountsAll → t.lbl.SparesActive) := by
    rintro ⟨s, l, s'⟩ hst hs
    dsimp only at hst hs ⊢
    cases hst with
    | others hst => exact ⟨hst.counted hs, fun _ => trivial⟩
    | reconcile he => exact ⟨(hs.exec he).1, spares_of_countsAll hs he⟩
  obtain ⟨-, hts⟩ := h.invariant' (I := Counted) (fun _ h => h) fun t hst hs => (hstep t hst hs).1
  exact fun t ht => (hstep t (hts t ht).1 (hts t ht).2.1).2 (hc t ht)

end

/-! ### A pod that has just been started -/

/-- The Module of a service. -/
def provisionedModule (image : String) : Module where
  metadata := { name := "web-module", ns := "default", uid := 1, resourceVersion := 1,
                annotations := Finmap.insert serviceNameAnnotation "web"
                  (Finmap.insert appNameAnnotation "nginx" ∅) }
  spec := { source := "nginx", image := image, replicas := 1, flavor := "m1" }
  status := {}

/-- The Job of an earlier image. -/
def webJob : Job where
  metadata := { (desiredJob (provisionedModule "nginx-1") ["./deploy"]).metadata with
                uid := 2, resourceVersion := 2 }
  spec := (desiredJob (provisionedModule "nginx-1") ["./deploy"]).spec
  status := {}

def webRequest : Key := ⟨"default", "web-module"⟩

/-- A user has just changed the image. The Job has no pod yet. -/
def webYard : Yard where
  cluster :=
    (Cluster.empty.setTbl .module (Table.empty.put (provisionedModule "nginx-2"))).setTbl .job
      (Table.empty.put webJob)
  past j := j = webJob
  counted _ := []

/-- The Job controller has started a pod. -/
def startedYard : Yard :=
  webYard.next (webYard.cluster.setTbl .pod
    ((webYard.cluster.tbl .pod).put (startedPod webJob "x7k2p" (webYard.cluster.version + 1))))
    webYard.counted

/-- Nobody acts during the reconcile, and nothing fails. -/
def serveYard (s : Yard) (op : Request) : op.Reply × Yard :=
  let (r, c') := serve s.cluster op
  (r, s.next c' s.counted)

def webRun (s : Yard) : Ran Api Yard (Except Error Result) :=
  run serveYard (Reconcile insertionSort webRequest) s

theorem counted_webYard : Counted webYard where
  idle j _ _ pod hpod _ := (Table.not_mem_empty hpod).elim
  stored j hj := by
    rw [webYard, Cluster.setTbl_self] at hj
    exact (Table.mem_put.mp hj).resolve_right fun h => Table.not_mem_empty h.1
  versions j hj := by
    cases hj
    decide
  pods pod hpod := (Table.not_mem_empty hpod).elim
  uids v uid huid := absurd huid List.not_mem_nil
  fresh _ _ := rfl

theorem work_webRun (s : Yard) :
    Work insertionSort s (.reconcile webRequest (webRun s).trace) (webRun s).final := by
  have hserve : ∀ s op, yard.answer s op (serveYard s op).1 (serveYard s op).2 :=
    fun s op => ⟨_, .inl (serves_serve _ op), rfl⟩
  exact .reconcile (Exec.of_run hserve _ _)

theorem step_started : YardStep webYard startedYard := .start rfl rfl rfl

/-- The reconcile of the Module deletes the pod that has just been started, because the Job does
not count it yet. -/
theorem started_pod_killed :
    ¬ ∀ (sort : SliceSort) (ts : List (Trans Yard YardLabel)) (s : Yard),
      Run (jobSystem sort) ts s → ∀ t ∈ ts, t.lbl.SparesActive := by
  intro h
  have hrun := ((Run.nil (S := jobSystem insertionSort) counted_webYard).snoc
    (.others step_started)).snoc (work_webRun startedYard)
  have hspares : SparesActive webRequest (webRun startedYard).trace :=
    h _ _ _ hrun _ (List.mem_append_right _ (List.mem_singleton.mpr rfl))
  have hkilled : ((webRun startedYard).trace.find? fun e =>
      killing webRequest e.state.cluster e.op).map
        (fun e => (jobPods e.state.cluster webRequest).map finished) = some [false] := by decide
  obtain ⟨e, he, hpods⟩ := Option.map_eq_some_iff.mp hkilled
  have hkill : killing webRequest e.state.cluster e.op = true := by simpa using List.find?_some he
  obtain ⟨pod, hpod, hactive⟩ := List.mem_map.mp (hpods ▸ List.mem_singleton.mpr rfl)
  exact Bool.false_ne_true
    (hactive.symm.trans (hspares e (List.mem_of_find?_eq_some he) hkill pod hpod))

/-- The pod has ended. -/
def endedYard : Yard :=
  startedYard.next (startedYard.cluster.setTbl .pod ((startedYard.cluster.tbl .pod).put
    (statusObj .pod (startedPod webJob "x7k2p" 3)
      { startedPod webJob "x7k2p" 3 with status := { phase := "Succeeded" } }
      (startedYard.cluster.version + 1)))) startedYard.counted

/-- The Job controller has counted it. -/
def countedYard : Yard :=
  endedYard.next (endedYard.cluster.setTbl .job ((endedYard.cluster.tbl .job).put
    (statusObj .job webJob { webJob with status :=
      { active := 0, startTime := some "2019-02-01T10:00:00Z", conditions := ["Complete"] } }
      (endedYard.cluster.version + 1))))
    (Function.update endedYard.counted (endedYard.cluster.version + 1) [3])

/-- Once the pod has ended and is counted, the reconcile replaces the Job. -/
theorem running_spared_web : SparesActive webRequest (webRun countedYard).trace := by
  have hended : YardStep startedYard endedYard := .progress rfl fun _ => rfl
  have hcounted : YardStep endedYard countedYard := .sync rfl (by
    intro uid huid
    cases List.mem_singleton.mp huid
    exact ⟨_, Table.mem_put.mpr (.inl rfl), rfl, rfl⟩) (by decide)
  have hrun := ((((Run.nil (S := jobSystem insertionSort) counted_webYard).snoc
    (.others step_started)).snoc (.others hended)).snoc (.others hcounted)).snoc
      (work_webRun countedYard)
  refine running_spared hrun (fun t ht => ?_) _
    (List.mem_append_right _ (List.mem_singleton.mpr rfl))
  simp only [List.nil_append, List.cons_append, List.mem_cons, List.not_mem_nil, or_false] at ht
  rcases ht with rfl | rfl | rfl | rfl
  · trivial
  · trivial
  · trivial
  · show CountsAll webRequest (webRun countedYard).trace
    unfold CountsAll
    decide

end ReconcileModule

end Automium
