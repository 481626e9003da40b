import Automium.Controller.Module

/-!
# The names of the Nodes

The Node of replica `i` of a service has the name `<service>-node-i`, which determines both, and a
hostname `<base>-i`, where the base does not depend on `i` (`specHostname_eq`). The base has the
name of the service in it for the Kubernetes apps only.
-/

namespace Automium

namespace ReconcileModule

theorem nodeName_inj {s t : String} {i j : Nat} (h : nodeName s i = nodeName t j) :
    s = t ∧ i = j := by
  have hdash : "-node-" = "-node" ++ "-" := by decide
  simp only [nodeName, hdash, ← String.append_assoc] at h
  obtain ⟨hs, hi⟩ := Go.dash_inj h
  exact ⟨(String.append_left_inj _).mp hs, hi⟩

/-- The key of the Node of a replica determines its number. -/
theorem nodeKey_injective (svc ns : String) :
    Function.Injective fun i => (⟨ns, nodeName svc i⟩ : Key) := fun _ _ h =>
  (nodeName_inj (Key.mk.inj h).2).2

/-- The hostname without the number of the replica. -/
def hostBase (appName serviceName : String) (env : List EnvVar) : Except Error String :=
  if appName = kubernetesCluster then .ok (clusterNameOf serviceName env ++ "-" ++ serviceName)
  else if appName = kubernetesNodepool then
    if clusterNameOf "" env = "" then
      .error (.new ("requested a Kubernetes nodepool but no cluster_name env variable provided, " ++
        "cannot continue"))
    else .ok (clusterNameOf "" env ++ "-" ++ serviceName)
  else .ok appName

theorem specHostname_eq (appName serviceName : String) (env : List EnvVar) (i : Nat) :
    specHostname appName serviceName env i =
      (hostBase appName serviceName env).map fun base => base ++ "-" ++ toString i := by
  unfold specHostname hostBase
  split
  · rfl
  · split
    · split <;> rfl
    · rfl

/-- Without a `CLUSTER_NAME`, the cluster name is the one to start with; else it is that of the
variable. -/
theorem clusterNameOf_cases (env : List EnvVar) :
    (∀ start, clusterNameOf start env = start) ∨
      ∃ name, ∀ start, clusterNameOf start env = name := by
  induction env using List.reverseRecOn with
  | nil => exact .inl fun _ => rfl
  | append_singleton env v ih =>
    have happ : ∀ start, clusterNameOf start (env ++ [v]) =
        if v.name = "CLUSTER_NAME" then v.value else clusterNameOf start env := fun start => by
      rw [clusterNameOf, List.foldl_append]
      rfl
    by_cases hv : v.name = "CLUSTER_NAME"
    · exact .inr ⟨v.value, fun start => by rw [happ, if_pos hv]⟩
    · simp only [happ, if_neg hv]
      exact ih

/-- The base has no digit if the names in it have none. -/
theorem hostBase_noDigit {appName serviceName base : String} {env : List EnvVar}
    (ha : Go.NoDigit appName) (hs : Go.NoDigit serviceName)
    (hc : Go.NoDigit (clusterNameOf serviceName env))
    (h : hostBase appName serviceName env = .ok base) : Go.NoDigit base := by
  have hdash : Go.NoDigit "-" := by decide
  unfold hostBase at h
  split at h
  · cases h
    exact (hc.append hdash).append hs
  · split at h
    · split at h
      · cases h
      · rename_i hne
        cases h
        rcases clusterNameOf_cases env with hstart | ⟨name, hname⟩
        · exact absurd (hstart "") hne
        · rw [hname] at hc ⊢
          exact (hc.append hdash).append hs
    · cases h
      exact ha

/-! ## The Nodes of a service in a list -/

section

variable {svc ns : String} {c : Cluster} {l : List Node} {node : Node}

theorem mem_listed (hl : l.Perm (c.inNamespace .node ns)) : node ∈ nodesOfService svc l ↔
    node ∈ c.tbl .node ∧ (ns = "" ∨ node.metadata.ns = ns) ∧ serviceNameOf node.metadata = svc := by
  rw [nodesOfService, List.mem_filter, hl.mem_iff, Cluster.inNamespace, List.mem_filter, and_assoc,
    decide_eq_true_iff, decide_eq_true_iff]
  rfl

theorem nodup_listed (hl : l.Perm (c.inNamespace .node ns)) :
    ((nodesOfService svc l).map Object.key).Nodup :=
  ((hl.map Object.key).nodup_iff.mpr ((c.tbl .node).nodup.sublist
    (List.filter_sublist.map _))).sublist (List.filter_sublist.map _)

/-- If all names are those of replicas, there is at most one Node for each. -/
theorem listed_subperm {R : Nat} (hl : l.Perm (c.inNamespace .node ns)) (hns : ns ≠ "")
    (hnamed : ∀ node ∈ nodesOfService svc l, ∃ i < R, node.metadata.name = nodeName svc i) :
    ((nodesOfService svc l).map Object.key).Subperm
      ((List.range R).map fun i => ⟨ns, nodeName svc i⟩) := by
  refine (nodup_listed hl).subperm fun key hkey => ?_
  obtain ⟨node, hm, rfl⟩ := List.mem_map.mp hkey
  obtain ⟨i, hi, hname⟩ := hnamed node hm
  refine List.mem_map.mpr ⟨i, List.mem_range.mpr hi, ?_⟩
  rw [Object.key, hname, ((mem_listed hl).mp hm).2.1.resolve_left hns]

end

end ReconcileModule

end Automium
