import Automium.Proofs.Choice

/-!
# What `manageNodesForModule` does to the action

The next reconcile reads the Nodes that this one has created and marked. The choice of the action
looks at the hostname and the status of the Nodes that exist, and at the number of Nodes that it
counts. A mark changes neither, and a new Node does not exist yet: it only adds to the number, which
does not go beyond that of the replicas when Nodes are created (`own_changes_keep_action`).
-/

namespace Automium

open Data Effect

namespace ReconcileModule

/-! ## What the comparison looks at -/

/-- The hostname and the status of a node that exists. -/
def seen (node : Node) : Option Node :=
  if NodeExists node then
    some { zeroNode with spec := { hostname := node.spec.hostname }, status := node.status }
  else none

section

variable {module : Module} {nodes nodes' : List Node}

theorem seen_of_exists {node : Node} (h : NodeExists node = true) : seen node =
    some { zeroNode with spec := { hostname := node.spec.hostname }, status := node.status } :=
  if_pos h

theorem seen_eq_some {node x : Node} (h : seen node = some x) : NodeExists node = true ∧
    x = { zeroNode with spec := { hostname := node.spec.hostname }, status := node.status } := by
  unfold seen at h
  split at h
  · exact ⟨by assumption, (Option.some.inj h).symm⟩
  · cases h

theorem reference_seen {x : Node} : Reference (nodes.filterMap seen) x ↔
    ∃ a, Reference nodes a ∧ seen a = some x := by
  have hhealthy : (fun node => (seen node).any NodeIsHealthy) = NodeIsHealthy := by
    funext node
    by_cases hexists : NodeExists node = true
    · rw [seen_of_exists hexists]
      rfl
    · have hno : NodeIsHealthy node = false := by
        simp [NodeIsHealthy, hexists]
      rw [hno, seen, if_neg hexists]
      rfl
  unfold Reference
  rw [List.find?_filterMap, hhealthy]
  constructor
  · rintro ⟨hfind, hnode⟩
    obtain ⟨a, ha, hx⟩ := Option.bind_eq_some_iff.mp hfind
    obtain ⟨-, rfl⟩ := seen_eq_some hx
    exact ⟨a, ⟨ha, hnode⟩, hx⟩
  · rintro ⟨a, ⟨ha, hnode⟩, hx⟩
    obtain ⟨-, rfl⟩ := seen_eq_some hx
    exact ⟨by rw [ha]; exact hx, hnode⟩

/-- The comparison of the nodes with each other and with the Module. -/
def Inconsistent (module : Module) (nodes : List Node) : Prop :=
  ∃ a, Reference nodes a ∧ ((∃ node ∈ nodes, mismatches a node = true) ∨
    EqNodeFlavor a module.spec.flavor = false ∨ EqNodeImage a module.spec.image = false)

theorem inconsistent_seen : Inconsistent module (nodes.filterMap seen) ↔
    Inconsistent module nodes := by
  have hmis : ∀ a x : Node, seen a = some x →
      ((∃ y ∈ nodes.filterMap seen, mismatches x y = true) ↔
        ∃ node ∈ nodes, mismatches a node = true) := by
    intro a x hx
    obtain ⟨-, rfl⟩ := seen_eq_some hx
    constructor
    · rintro ⟨y, hy, hm⟩
      obtain ⟨node, hnode, hy⟩ := List.mem_filterMap.mp hy
      obtain ⟨-, rfl⟩ := seen_eq_some hy
      exact ⟨node, hnode, hm⟩
    · rintro ⟨node, hnode, hm⟩
      have hexists : NodeExists node = true := (mismatches_eq_true.mp hm).2.1
      exact ⟨_, List.mem_filterMap.mpr ⟨node, hnode, seen_of_exists hexists⟩, hm⟩
  constructor
  · rintro ⟨x, hx, h⟩
    obtain ⟨a, ha, hax⟩ := reference_seen.mp hx
    refine ⟨a, ha, ?_⟩
    rw [hmis a x hax] at h
    obtain ⟨-, rfl⟩ := seen_eq_some hax
    exact h
  · rintro ⟨a, ha, h⟩
    have hax := seen_of_exists (healthy_spec ha.healthy.2).1
    refine ⟨_, reference_seen.mpr ⟨a, ha, hax⟩, ?_⟩
    rw [hmis a _ hax]
    exact h

/-- The action depends on what is seen, and on whether there are more nodes than replicas. -/
theorem actionFor_eq_of_seen (hseen : nodes'.filterMap seen = nodes.filterMap seen)
    (hcount : GetNodesCount nodes' ≤ module.spec.replicas ↔
      GetNodesCount nodes ≤ module.spec.replicas) :
    actionFor module nodes' = actionFor module nodes := by
  refine actionFor_congr ?_
  rw [upgrade_iff, upgrade_iff, hcount]
  exact and_congr_right fun _ => by
    rw [← Inconsistent, ← Inconsistent, ← inconsistent_seen, hseen, inconsistent_seen]

end

/-! ## What is counted -/

/-- The node is counted. -/
def counted (node : Node) : Option Unit :=
  if node.status.nodeProperties.id ≠ nonExistentMachine then some () else none

theorem GetNodesCount_eq_counted (nodes : List Node) :
    GetNodesCount nodes = (nodes.filterMap counted).length := by
  rw [GetNodesCount, List.length_filterMap_eq_countP, List.countP_eq_length_filter]
  congr 2
  refine List.filter_congr fun node _ => ?_
  unfold counted
  split <;> simp_all

theorem GetNodesCount_le (nodes : List Node) : GetNodesCount nodes ≤ nodes.length :=
  Int.ofNat_le.mpr (List.length_filter_le _ nodes)

/-! ## What happens to the Nodes -/

/-- The Nodes differ in their deletion dates at most. -/
structure SameNode (node node' : Node) : Prop where
  key : node'.key = node.key
  annotations : node'.metadata.annotations = node.metadata.annotations
  hostname : node'.spec.hostname = node.spec.hostname
  status : node'.status = node.status

/-- The Nodes are still there, and the new ones are in `New`. -/
structure Kept (New : Node → Prop) (c c' : Cluster) : Prop where
  old : ∀ node : Node, node ∈ c.tbl .node → ∃ node' : Node, node' ∈ c'.tbl .node ∧
    SameNode node node'
  new : ∀ node' : Node, node' ∈ c'.tbl .node →
    (∃ node : Node, node ∈ c.tbl .node ∧ SameNode node node') ∨ New node'

/-- The call creates a Node in `New`, or it is one to mark a stored Node. -/
def Touches (New : Node → Prop) (c : Cluster) (op : Request) : Prop :=
  (∃ node, op = .create .node node ∧ ∀ v, New (newObj .node node v)) ∨
    MarksOne (c.tbl .node).items op

section

variable {New : Node → Prop} {c c' : Cluster} {inst : Module}

theorem SameNode.refl (node : Node) : SameNode node node := ⟨rfl, rfl, rfl, rfl⟩

theorem SameNode.seen_eq {node node' : Node} (h : SameNode node node') : seen node' = seen node := by
  unfold seen NodeExists
  rw [h.status, h.hostname]

theorem SameNode.counted_eq {node node' : Node} (h : SameNode node node') :
    counted node' = counted node := by
  unfold counted
  rw [h.status]

theorem SameNode.mem_serviceNodes {node node' : Node} (h : SameNode node node')
    (hm : node ∈ c.tbl .node) (hns : inst.metadata.ns = "" ∨ node'.metadata.ns = inst.metadata.ns)
    (hsvc : serviceNameOf node'.metadata = serviceNameOf inst.metadata) :
    node ∈ serviceNodes inst c := by
  refine (mem_listed (.refl _)).mpr ⟨hm, ?_, ?_⟩
  · rwa [← (Key.mk.inj h.key).1]
  · rw [← hsvc, serviceNameOf, serviceNameOf, h.annotations]

theorem Kept.refl (New : Node → Prop) (c : Cluster) : Kept New c c where
  old node hm := ⟨node, hm, .refl node⟩
  new node hm := .inl ⟨node, hm, .refl node⟩

/-- What one call does. -/
theorem Kept.call {c₁ c₂ : Cluster} {op : Request} {r : op.Reply} (h : Kept New c c₁)
    (hop : Touches New c op) (ha : Serves c₁ op r c₂) : Kept New c c₂ := by
  rcases hop with ⟨node, rfl, hnew⟩ | rfl | ⟨item, hitem, date, rfl⟩
  · rcases ha.create_cases with ⟨rfl, -⟩ | ⟨hfree, -, rfl⟩
    · exact h
    have hne : ∀ x : Node, x ∈ c₁.tbl .node → x.key ≠ node.key := Table.find?_eq_none.mp hfree
    constructor
    · intro x hx
      obtain ⟨x', hx', hsame⟩ := h.old x hx
      refine ⟨x', ?_, hsame⟩
      rw [Cluster.setTbl_self]
      exact Table.mem_put.mpr (.inr ⟨hx', hne x' hx'⟩)
    · intro x hx
      rw [Cluster.setTbl_self] at hx
      rcases Table.mem_put.mp hx with rfl | ⟨hx, -⟩
      · exact .inr (hnew _)
      · exact h.new x hx
  · obtain rfl : c₂ = c₁ := ha
    exact h
  · rcases ha.update_cases with ⟨rfl, -⟩ | ⟨old, hold, -, -, rfl⟩
    · exact h
    -- The Node that is stored under the key is a later copy of the item.
    obtain ⟨item', hitem', hsame⟩ := h.old item hitem
    obtain rfl : item' = old :=
      Table.eq_of_key hitem' (find?_mem hold) (hsame.key.trans (find?_key hold).symm)
    have hmarked : SameNode item (updatedObj .node item' (marked item date) (c₁.version + 1)) :=
      ⟨rfl, rfl, rfl, hsame.status⟩
    constructor
    · intro x hx
      obtain ⟨x', hx', hxsame⟩ := h.old x hx
      rw [Cluster.setTbl_self]
      by_cases hkey : x'.key = item.key
      · obtain rfl : x = item := Table.eq_of_key hx hitem (hxsame.key.symm.trans hkey)
        exact ⟨_, Table.mem_put.mpr (.inl rfl), hmarked⟩
      · exact ⟨x', Table.mem_put.mpr (.inr ⟨hx', hkey⟩), hxsame⟩
    · intro x hx
      rw [Cluster.setTbl_self] at hx
      rcases Table.mem_put.mp hx with rfl | ⟨hx, -⟩
      · exact .inl ⟨item, hitem, hmarked⟩
      · exact h.new x hx

theorem Kept.exec {α : Type} {p : Ctl α} {o : Outcome α} {tr : List (Event Api Cluster)}
    (hp : Uses (Touches New c) p) (he : Exec lossy p c tr o c') : Kept New c c' := by
  refine (hp.invariant (W := lossy) (I := Kept New c) (fun _ _ _ h => h.elim) ?_ he (.refl New c)).1
  intro c₁ op r c₂ h hop ha
  refine ⟨trivial, ?_⟩
  rcases ha with ha | ⟨-, rfl⟩
  · exact h.call hop ha
  · exact h

/-! ## What is read afterwards -/

/-- What a function reads of the Nodes stays the same if it does not see the new ones. -/
theorem Kept.filterMap_eq {β : Type} {f : Node → Option β} (h : Kept New c c')
    (hsame : ∀ node node', SameNode node node' → f node' = f node)
    (hnew : ∀ node, New node → f node = none) {l l' : List Node}
    (hl : l.Perm (c.inNamespace .node inst.metadata.ns))
    (hl' : l'.Perm (c'.inNamespace .node inst.metadata.ns))
    (hsub : ((nodesOfService (serviceNameOf inst.metadata) l).map Object.key).Sublist
      ((nodesOfService (serviceNameOf inst.metadata) l').map Object.key)) :
    (nodesOfService (serviceNameOf inst.metadata) l').filterMap f =
      (nodesOfService (serviceNameOf inst.metadata) l).filterMap f := by
  -- Both lists are read off the keys, from their store.
  rw [Table.filterMap_keys fun node hm => ((mem_listed hl).mp hm).1,
    Table.filterMap_keys fun node hm => ((mem_listed hl').mp hm).1,
    filterMap_of_sublist hsub (nodup_listed hl')]
  · refine List.filterMap_congr fun key hkey => ?_
    obtain ⟨node, hm, rfl⟩ := List.mem_map.mp hkey
    have hm := ((mem_listed hl).mp hm).1
    obtain ⟨node', hm', hs⟩ := h.old node hm
    rw [Table.find?_of_mem hm, ← hs.key, Table.find?_of_mem hm', Option.bind_some, Option.bind_some,
      hsame node node' hs]
  · intro key hkey hno
    obtain ⟨node', hm, rfl⟩ := List.mem_map.mp hkey
    obtain ⟨hm', hns, hsvc⟩ := (mem_listed hl').mp hm
    rw [Table.find?_of_mem hm', Option.bind_some]
    rcases h.new node' hm' with ⟨node, hm, hs⟩ | hnew'
    · refine absurd ?_ hno
      rw [hs.key]
      exact List.mem_map_of_mem ((listed_perm hl).mem_iff.mp (hs.mem_serviceNodes hm hns hsvc))
    · exact hnew node' hnew'

/-! ## The function -/

/-- The Node of a replica that was just created. -/
def Created (inst : Module) (node : Node) : Prop :=
  node.status = {} ∧
    ∃ i : ℕ, (i : Int) < inst.spec.replicas ∧
      node.metadata.name = nodeName (serviceNameOf inst.metadata) i

theorem seen_created {node : Node} (h : Created inst node) : seen node = none := by
  unfold seen NodeExists
  rw [h.1]
  rfl

theorem createNodes_touches {l : List ℕ} (hl : ∀ i ∈ l, (i : Int) < inst.spec.replicas) :
    Uses (Touches (Created inst) c)
      (createNodes inst (appNameOf inst.metadata) (serviceNameOf inst.metadata) l) := by
  refine (createNodes_uses ..).mono ?_
  rintro op ⟨i, hi, hostname, -, rfl⟩
  exact .inl ⟨_, rfl, fun v => ⟨rfl, i, hl i hi, rfl⟩⟩

theorem deleteExtraNodes_touches {sort : SliceSort} {appNodes : List Node}
    (hmem : ∀ node ∈ appNodes, node ∈ c.tbl .node) :
    Uses (Touches New c) (deleteExtraNodes sort inst appNodes) :=
  (deleteExtraNodes_uses ..).mono fun _ hop =>
    .inr (hop.imp_right fun ⟨item, hi, hop⟩ => ⟨item, hmem item hi, hop⟩)

/-- A call that succeeds creates Nodes if there are too few, and else it marks at most. -/
theorem manageNodesForModule_keeps {sort : SliceSort} {tr : List (Event Api Cluster)}
    (he : Exec lossy (manageNodesForModule sort inst) c tr (.done (.ok ())) c') :
    (serviceNameOf inst.metadata ≠ "" ∧ inst.metadata.ns ≠ "") ∧
      ((serviceNodes inst c).length < inst.spec.replicas ∧ Kept (Created inst) c c' ∨
        inst.spec.replicas ≤ (serviceNodes inst c).length ∧ Kept (fun _ => False) c c') := by
  by_cases hnames : appNameOf inst.metadata = "" ∨ serviceNameOf inst.metadata = "" ∨
      inst.metadata.ns = ""
  · obtain ⟨e, hret⟩ := manageNodesForModule_error sort hnames
    rw [hret] at he
    cases he.ret_done.1
  obtain ⟨happ, hsvc, hns⟩ : _ ∧ _ ∧ _ := by simpa only [not_or] using hnames
  refine ⟨⟨hsvc, hns⟩, ?_⟩
  obtain ⟨k, hk, herr, hok⟩ := manageNodesForModule_eq sort happ hsvc hns
  rw [hk] at he
  obtain ⟨c₁, r, c₂, tr₁, henv, hlist, he₁, -⟩ := he.call_done
  obtain rfl := lossy_closed.star_eq henv
  cases r with
  | error e =>
    rw [herr] at he₁
    cases he₁.ret_done.1
  | ok l =>
    rw [hok] at he₁
    obtain ⟨⟨l, hl, heq⟩, rfl⟩ := hlist.resolve_right fun h => nomatch h.1
    cases heq
    have hlen := (listed_perm hl).length_eq
    unfold manageListed at he₁
    split at he₁
    · refine .inl ⟨by omega, .exec (createNodes_touches fun i hi => ?_) he₁⟩
      have := List.mem_range.mp hi
      omega
    refine .inr ⟨by omega, ?_⟩
    split at he₁
    · exact .exec (deleteExtraNodes_touches fun node hm => ((mem_listed hl).mp hm).1) he₁
    · exact .exec (p := .ret (Except.ok ())) trivial he₁

/-- After a scale-up there are no more Nodes than replicas. -/
theorem Kept.length_le (h : Kept (Created inst) c c') (hr : 0 ≤ inst.spec.replicas)
    (hns : inst.metadata.ns ≠ "")
    (hnamed : ∀ node ∈ serviceNodes inst c, ∃ i : ℕ, (i : Int) < inst.spec.replicas ∧
      node.metadata.name = nodeName (serviceNameOf inst.metadata) i) {l : List Node}
    (hl : l.Perm (c'.inNamespace .node inst.metadata.ns)) :
    (nodesOfService (serviceNameOf inst.metadata) l).length ≤ inst.spec.replicas := by
  have hnamed' : ∀ node' ∈ nodesOfService (serviceNameOf inst.metadata) l,
      ∃ i < inst.spec.replicas.toNat,
        node'.metadata.name = nodeName (serviceNameOf inst.metadata) i := by
    intro node' hm
    obtain ⟨hm', hin, hsvc⟩ := (mem_listed hl).mp hm
    rcases h.new node' hm' with ⟨node, hm, hs⟩ | ⟨-, i, hi, hname⟩
    · obtain ⟨i, hi, hname⟩ := hnamed node (hs.mem_serviceNodes hm hin hsvc)
      exact ⟨i, by omega, (Key.mk.inj hs.key).2.trans hname⟩
    · exact ⟨i, by omega, hname⟩
  have hlen := (listed_subperm hl hns hnamed').length_le
  simp only [List.length_map, List.length_range] at hlen
  omega

/-- If both lists are read, the second has the Nodes of the first one in the same order. -/
def SameOrder (inst : Module) (tr tr' : List (Event Api Cluster)) : Prop :=
  ∀ s s' l l', (⟨s, .list .node inst.metadata.ns, .ok l⟩ : Event Api Cluster) ∈ tr →
    (⟨s', .list .node inst.metadata.ns, .ok l'⟩ : Event Api Cluster) ∈ tr' →
    ((nodesOfService (serviceNameOf inst.metadata) l).map Object.key).Sublist
      ((nodesOfService (serviceNameOf inst.metadata) l').map Object.key)

/-- What `chooseModuleAction` has read and returned. -/
theorem chooseModuleAction_exec {tr : List (Event Api Cluster)} {r : Except Error String}
    (hr : inst.spec.replicas ≠ 0) (hsvc : serviceNameOf inst.metadata ≠ "")
    (hns : inst.metadata.ns ≠ "")
    (he : Exec calm (chooseModuleAction inst) c tr (.done r) c') :
    ∃ l, l.Perm (c.inNamespace .node inst.metadata.ns) ∧
      (⟨c, .list .node inst.metadata.ns, .ok l⟩ : Event Api Cluster) ∈ tr ∧
      r = .ok (actionFor inst (nodesOfService (serviceNameOf inst.metadata) l)) := by
  obtain ⟨k, hk, -, hok⟩ := chooseModuleAction_eq hr hsvc hns
  rw [hk] at he
  obtain ⟨c₁, reply, c₂, tr₁, henv, hlist, he₁, rfl⟩ := he.call_done
  obtain rfl := calm_closed.star_eq henv
  obtain ⟨⟨l, hl, rfl⟩, rfl⟩ := hlist
  rw [hok] at he₁
  exact ⟨l, hl, List.mem_cons_self, he₁.ret_done.1⟩

/-- The action does not change when `manageNodesForModule` has succeeded (module doc). -/
theorem own_changes_keep_action {sort : SliceSort} {tr tr₁ tr₂ : List (Event Api Cluster)}
    {c₁ c₂ : Cluster} {r r' : Except Error String}
    (hnamed : (serviceNodes inst c).length < inst.spec.replicas →
      ∀ node ∈ serviceNodes inst c, ∃ i : ℕ, (i : Int) < inst.spec.replicas ∧
        node.metadata.name = nodeName (serviceNameOf inst.metadata) i)
    (hmanage : Exec lossy (manageNodesForModule sort inst) c tr (.done (.ok ())) c')
    (hbefore : Exec calm (chooseModuleAction inst) c tr₁ (.done r) c₁)
    (hafter : Exec calm (chooseModuleAction inst) c' tr₂ (.done r') c₂)
    (horder : SameOrder inst tr₁ tr₂) : r' = r := by
  obtain ⟨⟨hsvc, hns⟩, hkept⟩ := manageNodesForModule_keeps hmanage
  by_cases hzero : inst.spec.replicas = 0
  · rw [chooseModuleAction_zero hzero] at hbefore hafter
    rw [hbefore.ret_done.1, hafter.ret_done.1]
  obtain ⟨l, hl, hmem, rfl⟩ := chooseModuleAction_exec hzero hsvc hns hbefore
  obtain ⟨l', hl', hmem', rfl⟩ := chooseModuleAction_exec hzero hsvc hns hafter
  have hsub := horder _ _ _ _ hmem hmem'
  rcases hkept with ⟨hlt, hkept⟩ | ⟨-, hkept⟩
  · refine congrArg Except.ok (actionFor_eq_of_seen ?_ (iff_of_true ?_ ?_))
    · exact hkept.filterMap_eq (fun _ _ h => h.seen_eq) (fun _ => seen_created) hl hl' hsub
    · exact (GetNodesCount_le _).trans (hkept.length_le (by omega) hns (hnamed hlt) hl')
    · have hlen := (listed_perm hl).length_eq
      exact (GetNodesCount_le _).trans (by omega)
  · refine congrArg Except.ok (actionFor_eq_of_seen ?_ ?_)
    · exact hkept.filterMap_eq (fun _ _ h => h.seen_eq) (fun _ => False.elim) hl hl' hsub
    · rw [GetNodesCount_eq_counted, GetNodesCount_eq_counted,
        hkept.filterMap_eq (fun _ _ h => h.counted_eq) (fun _ => False.elim) hl hl' hsub]

end

/-! ### A second replica -/

/-- A store with an outdated machine of the first replica. -/
def outdatedStore : Cluster := Cluster.empty.setTbl .node (Table.empty.put
  { newNode "web" "default" "nginx-0" 0 with
    status := { nodeProperties := { healthyProperties with image := "nginx-0" } } })

/-- The store when the second Node has been created. -/
def managedStore : Cluster :=
  (run serve (manageNodesForModule insertionSort (scaled nginxModule 2)) outdatedStore).final

theorem own_changes_keep_action_nginx : ∃ r r',
    (run serve (chooseModuleAction (scaled nginxModule 2)) outdatedStore).outcome = .done r ∧
      (run serve (chooseModuleAction (scaled nginxModule 2)) managedStore).outcome = .done r' ∧
        r' = r := by
  have hmanage := flaky_of_calm (fun _ _ => False)
    (calm_run (manageNodesForModule insertionSort (scaled nginxModule 2)) outdatedStore)
  have hbefore := calm_run (chooseModuleAction (scaled nginxModule 2)) outdatedStore
  have hafter := calm_run (chooseModuleAction (scaled nginxModule 2)) managedStore
  have horder : SameOrder (scaled nginxModule 2)
      (run serve (chooseModuleAction (scaled nginxModule 2)) outdatedStore).trace
      (run serve (chooseModuleAction (scaled nginxModule 2)) managedStore).trace := by
    intro s s' l l' h h'
    cases List.mem_singleton.mp h
    cases List.mem_singleton.mp h'
    decide
  have hnamed : ∀ node ∈ serviceNodes (scaled nginxModule 2) outdatedStore, ∃ i : ℕ,
      (i : Int) < 2 ∧ node.metadata.name = nodeName "web" i := by
    intro node hm
    refine ⟨0, by decide, ?_⟩
    revert node
    decide
  exact ⟨_, _, rfl, rfl, own_changes_keep_action (fun _ => hnamed) hmanage hbefore hafter horder⟩

end ReconcileModule

end Automium
