import Automium.Controller.Service
import Automium.Proofs.ModuleCalls

/-!
# Whose pods a recreated Job takes along

The pods of an old Job are found by the prefix of their names, `<service>-module-job-`. No other
module's pod is hit exactly if neither of the two prefixes starts with the other
(`spares_other_pods_iff`). A name may contain the words that the controllers append, so they can:
`stem_isPrefix_iff` says for which names of services.
-/

namespace Automium

open Data Effect

/-! ## Stems -/

/-- The part of a pod name after the name of the service. -/
def jobTail : List Char := "-module-job-".toList

theorem toList_podStem (s : String) :
    (ReconcileModule.podStem (ReconcileService.moduleName s)).toList = s.toList ++ jobTail := by
  simp only [ReconcileModule.podStem, ReconcileService.moduleName, String.toList_append,
    List.append_assoc]
  rfl

/-- The tail starts with no proper end of itself, but the last dash. -/
theorem jobTail_border {t r : List Char} (h : jobTail = t ++ r) (hr : r <+: jobTail) :
    t = [] ∨ r = [] ∨ r = ['-'] := by
  have hb : ∀ n ≤ 12, jobTail.drop n <+: jobTail → n = 0 ∨ n = 11 ∨ n = 12 := by decide
  have hlen : t.length + r.length = 12 := by
    rw [← List.length_append, ← h]; rfl
  have hd : jobTail.drop t.length = r := by rw [h, List.drop_left]
  rcases hb t.length (by omega) (hd ▸ hr) with h₀ | h₁ | h₂
  · exact .inl (List.length_eq_zero_iff.mp h₀)
  · refine .inr (.inr ?_)
    rw [← hd, h₁]
    rfl
  · exact .inr (.inl (List.length_eq_zero_iff.mp (by omega)))

/-- The name of a service continues the name of the other with the words of its pods. -/
def Continues (s₂ s₁ : String) : Prop :=
  s₂ = s₁ ++ "-module-job" ∨ Go.hasPrefix s₂ (s₁ ++ "-module-job-") = true

instance (s₂ s₁ : String) : Decidable (Continues s₂ s₁) := inferInstanceAs (Decidable (_ ∨ _))

theorem stem_isPrefix_iff {s₁ s₂ : String} (hne : s₁ ≠ s₂) :
    s₁.toList ++ jobTail <+: s₂.toList ++ jobTail ↔ Continues s₂ s₁ := by
  unfold Continues
  rw [Go.hasPrefix_iff, String.toList_append]
  constructor
  · intro h
    rcases Go.append_isPrefix h with h | ⟨t, r, hw, h₂, hr⟩
    · exact .inr h
    · rcases jobTail_border hw hr with rfl | rfl | rfl
      · rw [List.append_nil] at h₂
        exact absurd (String.toList_inj.mp h₂.symm) hne
      · rw [List.append_nil] at hw
        exact .inr ⟨[], by rw [List.append_nil, h₂, ← hw]; rfl⟩
      · refine .inl (String.toList_inj.mp ?_)
        have ht : t = "-module-job".toList := List.append_cancel_right (hw.symm.trans (by decide))
        rw [h₂, ht, String.toList_append]
  · rintro (rfl | h)
    · refine ⟨"module-job-".toList, ?_⟩
      rw [String.toList_append, List.append_assoc, List.append_assoc]
      rfl
    · exact h.trans (List.prefix_append _ _)

/-! ## The deletes of a reconcile -/

namespace ReconcileModule

open ReconcileService (moduleName)

/-- The pod is one of the Job of the module: the Job owns it, and its name is the one of the Job
with a suffix. -/
def PodOf (module : String) (pod : Pod) : Prop :=
  (∃ ref ∈ pod.metadata.ownerReferences, ref.kind = "Job" ∧ ref.name = jobName module) ∧
    ∃ suffix, pod.metadata.name = podStem module ++ suffix

/-- Two Modules of the Service controller are stored in the namespace, and its pods belong to the
Jobs of modules. -/
structure TwoModules (ns s₁ s₂ : String) (c : Cluster) : Prop where
  first : ∃ m : Module, c.find? .module ⟨ns, moduleName s₁⟩ = some m ∧
    serviceNameOf m.metadata = s₁
  second : ∃ m : Module, c.find? .module ⟨ns, moduleName s₂⟩ = some m ∧
    serviceNameOf m.metadata = s₂
  pods : ∀ pod : Pod, pod ∈ c.tbl .pod → pod.metadata.ns = ns → ∃ module, PodOf module pod

/-- The call deletes this pod. -/
def Takes (e : Event Api Cluster) (pod : Pod) : Prop :=
  e.op = .delete .pod pod.key ∧ e.state.find? .pod pod.key = some pod

/-- In any store with the two Modules, whatever fails and whatever others do, a reconcile of the
Module of `s₁` takes no pod of the Job of the Module of `s₂`. -/
def Spares (sort : SliceSort) (ns s₁ s₂ : String) : Prop :=
  ∀ env c tr o c', TwoModules ns s₁ s₂ c →
    Exec (flaky env) (Reconcile sort ⟨ns, moduleName s₁⟩) c tr o c' →
      ∀ e ∈ tr, ∀ pod, Takes e pod → ¬ PodOf (moduleName s₂) pod

/-- What a reconcile of a Module takes has the stem of the Module. -/
theorem takes_stem {env : Cluster → Cluster → Prop} {sort : SliceSort} {request : Key}
    {c c' : Cluster} {tr : List (Event Api Cluster)} {o : Outcome (Except Error Result)}
    (he : Exec (flaky env) (Reconcile sort request) c tr o c') {e : Event Api Cluster}
    (hm : e ∈ tr) {pod : Pod} (ht : Takes e pod) :
    Go.hasPrefix pod.metadata.name (podStem request.name) = true := by
  have hall : ∀ c : Cluster, c.All fun _ _ => True := fun _ _ _ _ => trivial
  have hkeeps : ∀ op : Request, op.Keeps fun _ _ => True := fun op => by
    cases op <;> simp [Request.Keeps]
  obtain ⟨-, hcalls, -⟩ := (hall c).exec (Reconcile_calls sort request) (fun op _ => hkeeps op)
    (fun _ _ _ _ => hall _) he
  obtain ⟨-, hop⟩ := hcalls e hm
  rw [ht.1] at hop
  rcases hop with hop | ⟨inst, -, rfl, pod', -, hkey, hpre⟩
  · cases hop
  · rw [show pod.metadata.name = pod'.metadata.name from congrArg Key.name hkey]
    exact hpre

/-- A Module of no replicas whose Job has another command and no active pod takes the only pod of
the namespace if that has the stem. -/
theorem takes_of_destroy {sort : SliceSort} {request : Key} {c : Cluster} {inst : Module}
    {found : Job} {container : Container} {pod : Pod}
    (hm : c.find? .module request = some inst) (hr : inst.spec.replicas = 0)
    (hj : c.find? .job ⟨inst.metadata.ns, jobName inst.metadata.name⟩ = some found)
    (hc : found.spec.containers = [container])
    (hd : container.command ≠ ["./remove"]) (ha : found.status.active = 0)
    (hl : c.inNamespace .pod inst.metadata.ns = [pod])
    (hf : c.find? .pod pod.key = some pod)
    (hp : Go.hasPrefix pod.metadata.name (podStem inst.metadata.name) = true) :
    ∃ e ∈ (run serve (Reconcile sort request) c).trace, Takes e pod := by
  have hdiff : jobDiffers (provisioner inst ["./remove"]) container = true := by
    simp [jobDiffers, provisioner, Ne.symm hd]
  have hact : ¬ found.status.active ≥ 1 := by rw [ha]; decide
  have hchoose : chooseModuleAction inst = .ret (.ok "Destroy") := if_pos hr
  refine ⟨⟨c, .delete .pod pod.key, (serve c (.delete .pod pod.key)).1⟩, ?_, rfl, hf⟩
  unfold Reconcile
  rw [get_bind, run_call, serve_get hm]
  refine List.mem_cons_of_mem _ ?_
  dsimp only
  rw [hchoose, Prog.ret_bind]
  dsimp only
  rw [show jobCommand "Destroy" = some ["./remove"] by decide]
  dsimp only
  unfold syncJob
  rw [get_bind, run_call, show (desiredJob inst ["./remove"]).key =
    ⟨inst.metadata.ns, jobName inst.metadata.name⟩ from rfl, serve_get hj]
  refine List.mem_cons_of_mem _ ?_
  dsimp only [desiredJob]
  rw [hc]
  dsimp only
  rw [if_pos hdiff]
  unfold recreateJob cleanupPods
  rw [if_neg hact, bind_assoc, list_bind, run_call]
  refine List.mem_cons_of_mem _ ?_
  rw [serve_list, hl]
  dsimp only
  unfold deletePods
  rw [if_pos hp, bind_assoc, delete_bind, run_call]
  exact List.mem_cons_self

/-! ### Two Modules and a pod -/

section Store

variable (ns s₁ s₂ podName : String)

/-- The Module of a Service of no replicas. -/
def idleModule (s : String) : Module :=
  ReconcileService.renderModule Go.asciiUpper ""
    { metadata := { name := s, ns := ns },
      spec := { replicas := 0, flavor := "m1", version := "1" }, status := {} }

/-- A Job that deployed the Module before it was scaled down. -/
def deployJob (s : String) : Job := desiredJob (idleModule ns s) ["./deploy"]

/-- A pod of the Job of a module. -/
def jobPod (s : String) : Pod where
  metadata := { name := podName, ns := ns,
                ownerReferences := [{ kind := "Job", name := jobName (moduleName s), uid := 0,
                                      controller := true }] }
  spec := ()
  status := {}

/-- The Modules of two Services, the old Job of the first and a pod of the second. -/
def twoModules : Cluster :=
  ((Cluster.empty.setTbl .module
    ((Table.empty.put (idleModule ns s₁)).put (idleModule ns s₂))).setTbl .job
    (Table.empty.put (deployJob ns s₁))).setTbl .pod (Table.empty.put (jobPod ns podName s₂))

end Store

section

variable {ns s₁ s₂ podName : String}

theorem twoModules_first (hne : s₁ ≠ s₂) : (twoModules ns s₁ s₂ podName).find? .module
    ⟨ns, moduleName s₁⟩ = some (idleModule ns s₁) := by
  show Table.find? (Table.put (Table.put Table.empty (idleModule ns s₁)) (idleModule ns s₂)) _ = _
  rw [Table.find?_put_ne fun h => hne ((String.append_left_inj _).mp (congrArg Key.name h))]
  exact Table.find?_put_self

theorem twoModules_spec (hne : s₁ ≠ s₂) {suffix : String}
    (hn : podName = podStem (moduleName s₂) ++ suffix) :
    TwoModules ns s₁ s₂ (twoModules ns s₁ s₂ podName) where
  first := ⟨_, twoModules_first hne, ReconcileService.serviceNameOf_renderModule ..⟩
  second := ⟨idleModule ns s₂, Table.find?_put_self,
    ReconcileService.serviceNameOf_renderModule ..⟩
  pods pod hm _ := by
    have hm : pod ∈ (Table.empty : Tbl .pod).put (jobPod ns podName s₂) := hm
    rcases Table.mem_put.mp hm with rfl | ⟨hm, -⟩
    · exact ⟨moduleName s₂, ⟨_, List.mem_singleton_self _, rfl, rfl⟩, suffix, hn⟩
    · exact absurd hm Table.not_mem_empty

/-- The reconcile of the first Module takes the pod if it has the stem. -/
theorem twoModules_takes (hne : s₁ ≠ s₂) (sort : SliceSort)
    (hp : Go.hasPrefix podName (podStem (moduleName s₁)) = true) :
    ∃ e ∈ (run serve (Reconcile sort ⟨ns, moduleName s₁⟩) (twoModules ns s₁ s₂ podName)).trace,
      Takes e (jobPod ns podName s₂) := by
  have hj : (twoModules ns s₁ s₂ podName).find? .job
      ⟨ns, jobName (moduleName s₁)⟩ = some (deployJob ns s₁) := Table.find?_put_self
  have hf : (twoModules ns s₁ s₂ podName).find? .pod (jobPod ns podName s₂).key =
      some (jobPod ns podName s₂) := Table.find?_put_self
  have hl : (twoModules ns s₁ s₂ podName).inNamespace .pod ns = [jobPod ns podName s₂] := by
    show List.filter _ (Table.put Table.empty (jobPod ns podName s₂)).items = _
    rw [Table.items_put_new rfl]
    simp [Table.empty, jobPod]
  have hd : ["./deploy"] ≠ ["./remove"] := by decide
  exact takes_of_destroy (twoModules_first hne) rfl hj rfl hd rfl hl hf hp

end

/-- Which services spare each other: exactly those where neither name continues the other. -/
theorem spares_other_pods_iff {ns s₁ s₂ : String} (hne : s₁ ≠ s₂) (sort : SliceSort) :
    Spares sort ns s₁ s₂ ↔ ¬ Continues s₂ s₁ ∧ ¬ Continues s₁ s₂ := by
  constructor
  · intro h
    have key : ∀ podName suffix, podName = podStem (moduleName s₂) ++ suffix →
        Go.hasPrefix podName (podStem (moduleName s₁)) = true → False := by
      intro podName suffix hn hp
      obtain ⟨e, he, ht⟩ := twoModules_takes hne sort hp
      exact h _ _ _ _ _ (twoModules_spec hne hn)
        (flaky_of_calm (fun _ _ => False) (calm_run _ _)) e he _ ht
        ⟨⟨_, List.mem_singleton_self _, rfl, rfl⟩, suffix, hn⟩
    constructor
    · intro hc
      refine key (podStem (moduleName s₂) ++ "x") "x" rfl ?_
      rw [Go.hasPrefix_iff, String.toList_append, toList_podStem, toList_podStem]
      exact ((stem_isPrefix_iff hne).mpr hc).trans (List.prefix_append _ _)
    · intro hc
      obtain ⟨z, hz⟩ := (stem_isPrefix_iff hne.symm).mpr hc
      refine key (podStem (moduleName s₁)) (String.ofList z) (String.toList_inj.mp ?_) ?_
      · rw [String.toList_append, toList_podStem, toList_podStem, String.toList_ofList, hz]
      · rw [Go.hasPrefix_iff]
  · rintro ⟨h₁, h₂⟩ env c tr o c' - he e hm pod ht ⟨-, suffix, hn⟩
    have hp := takes_stem he hm ht
    rw [hn, Go.hasPrefix_iff, String.toList_append, toList_podStem, toList_podStem] at hp
    rcases List.prefix_or_prefix_of_prefix hp (List.prefix_append _ _) with h | h
    · exact h₁ ((stem_isPrefix_iff hne).mp h)
    · exact h₂ ((stem_isPrefix_iff hne.symm).mp h)

theorem spares_web_db : Spares insertionSort "default" "web" "db" :=
  (spares_other_pods_iff (by decide) insertionSort).mpr (by decide)

/-- The Service `web` takes a pod of the Service `web-module-job-2`. -/
theorem takes_other_pod :
    ¬ ∀ (s₁ s₂ ns : String) (c : Cluster) (tr : List (Event Api Cluster))
      (o : Outcome (Except Error Result)) (c' : Cluster), s₁ ≠ s₂ → TwoModules ns s₁ s₂ c →
        Exec calm (Reconcile insertionSort ⟨ns, moduleName s₁⟩) c tr o c' →
          ∀ e ∈ tr, ∀ pod, Takes e pod → ¬ PodOf (moduleName s₂) pod := by
  intro h
  have hne : "web" ≠ "web-module-job-2" := by decide
  have hp : Go.hasPrefix "web-module-job-2-module-job-x7k2p" (podStem (moduleName "web")) = true := by
    decide
  have hn : "web-module-job-2-module-job-x7k2p" =
      podStem (moduleName "web-module-job-2") ++ "x7k2p" := by decide
  obtain ⟨e, he, ht⟩ := twoModules_takes hne insertionSort hp
  exact h _ _ "default" _ _ _ _ hne (twoModules_spec hne hn) (calm_run _ _) e he _ ht
    ⟨⟨_, List.mem_singleton_self _, rfl, rfl⟩, "x7k2p", hn⟩

end ReconcileModule

end Automium
