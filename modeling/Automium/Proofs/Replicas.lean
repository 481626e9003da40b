import Automium.Data.ReplicaSet
import Automium.Proofs.ModuleCalls
import Automium.Proofs.NodeNames
import Automium.Proofs.Sorting

/-!
# `manageNodesForModule` manages a replica set

The Nodes of a service are the records of a `ReplicaSet` (`Holds`): their numbers are in their
names and hostnames, and the marked ones have a deletion date. When every call succeeds and the
list is current, `manageNodesForModule` does what `ReplicaSet.manage` says (`manageNodes_exec`).
-/

namespace Automium

open Data Effect

namespace ReconcileModule

/-- The number in the hostname of a Node. -/
def nodeIndex (node : Node) : Nat :=
  (Go.firstNumber node.spec.hostname).elim 0 fun ds => (Go.atoi ds).1.toNat

/-- The Node is that of replica `i`. -/
structure Numbered (svc ns base : String) (i : Nat) (node : Node) : Prop where
  name : node.metadata.name = nodeName svc i
  inNs : node.metadata.ns = ns
  service : serviceNameOf node.metadata = svc
  hostname : node.spec.hostname = base ++ "-" ++ toString i
  bound : i ≤ Go.maxInt

/-- The stored Nodes are the records of the replica set. -/
structure Holds (svc ns base : String) (c : Cluster) (rs : ReplicaSet) : Prop where
  numbered : ∀ node : Node, node ∈ c.tbl .node → ∃ i, Numbered svc ns base i node
  live : ∀ i, i ∈ rs.live ↔ ∃ node : Node, node ∈ c.tbl .node ∧ Numbered svc ns base i node ∧
    node.spec.deletionDate = ""
  marked : ∀ i, i ∈ rs.marked ↔ ∃ node : Node, node ∈ c.tbl .node ∧ Numbered svc ns base i node ∧
    node.spec.deletionDate ≠ ""

section

variable {svc ns base : String} {c c' : Cluster} {rs : ReplicaSet} {i j : Nat} {node : Node}

/-! ## Numbered Nodes -/

theorem Numbered.key (h : Numbered svc ns base i node) : node.key = ⟨ns, nodeName svc i⟩ := by
  rw [Object.key, h.name, h.inNs]

theorem Numbered.firstNumber (hd : Go.NoDigit base) (h : Numbered svc ns base i node) :
    Go.firstNumber node.spec.hostname = some (toString i) := by
  rw [h.hostname]
  exact Go.firstNumber_append (hd.append (by decide)) i

theorem Numbered.index (hd : Go.NoDigit base) (h : Numbered svc ns base i node) :
    nodeIndex node = i := by
  rw [nodeIndex, h.firstNumber hd, Option.elim_some, Go.atoi_toString h.bound]
  rfl

theorem Numbered.unique {node' : Node} (h : Numbered svc ns base i node)
    (h' : Numbered svc ns base j node') (hk : node.key = node'.key) : i = j := by
  rw [h.key, h'.key] at hk
  exact (nodeName_inj (Key.mk.inj hk).2).2

theorem Numbered.fits (hd : Go.NoDigit base) (h : Numbered svc ns base i node) : Fits node :=
  ⟨_, h.firstNumber hd, by rw [Go.atoi_toString h.bound]⟩

theorem Numbered.numberOf (hd : Go.NoDigit base) (h : Numbered svc ns base i node) :
    numberOf node = nodeIndex node := by
  rw [h.index hd, Automium.numberOf, h.firstNumber hd, Option.map_some, Go.atoi_toString h.bound]
  rfl

/-- The Nodes are sorted by their numbers. -/
theorem SortNodesByNumber_eq (hd : Go.NoDigit base) (sort : SliceSort) {nodes : List Node}
    (h : ∀ node ∈ nodes, ∃ i, Numbered svc ns base i node) :
    ∃ sorted, SortNodesByNumber sort nodes = .ret (.ok sorted) ∧ sorted.Perm nodes ∧
      sorted.Pairwise fun a b => nodeIndex a ≤ nodeIndex b := by
  have hfits : ∀ node ∈ nodes, Fits node := fun node hm => by
    obtain ⟨i, hi⟩ := h node hm
    exact hi.fits hd
  obtain ⟨sorted, he, hp, hs⟩ := SortNodesByNumber_sorted sort hfits
  have hnumber : ∀ node ∈ sorted, Automium.numberOf node = nodeIndex node := fun node hm => by
    obtain ⟨i, hi⟩ := h node (hp.mem_iff.mp hm)
    exact hi.numberOf hd
  refine ⟨sorted, he, hp, hs.imp_of_mem fun {a b} ha hb hab => ?_⟩
  rw [hnumber a ha, hnumber b hb] at hab
  exact_mod_cast hab

/-! ## The stored Nodes -/

theorem Holds.mem_all (h : Holds svc ns base c rs) :
    i ∈ rs.all ↔ ∃ node : Node, node ∈ c.tbl .node ∧ Numbered svc ns base i node := by
  rw [ReplicaSet.all, Finset.mem_union, h.live, h.marked]
  constructor
  · rintro (⟨node, hm, hi, -⟩ | ⟨node, hm, hi, -⟩) <;> exact ⟨node, hm, hi⟩
  · rintro ⟨node, hm, hi⟩
    by_cases hdate : node.spec.deletionDate = ""
    · exact .inl ⟨node, hm, hi, hdate⟩
    · exact .inr ⟨node, hm, hi, hdate⟩

/-- The Nodes that `retrieveNodesForService` keeps of a list are all of them. -/
theorem Holds.listed (h : Holds svc ns base c rs) {l : List Node}
    (hl : l.Perm (c.inNamespace .node ns)) :
    (nodesOfService svc l).Perm (c.tbl .node).items := by
  have hns : c.inNamespace .node ns = (c.tbl .node).items := by
    refine List.filter_eq_self.mpr fun node hm => ?_
    obtain ⟨i, hi⟩ := h.numbered node hm
    simp [hi.inNs]
  have hsvc : nodesOfService svc (c.tbl .node).items = (c.tbl .node).items := by
    refine List.filter_eq_self.mpr fun node hm => ?_
    obtain ⟨i, hi⟩ := h.numbered node hm
    simp [hi.service]
  rw [hns] at hl
  exact hsvc ▸ hl.filter _

/-- The numbers of the stored Nodes are those of the replica set, each once. -/
theorem Holds.indices (hd : Go.NoDigit base) (h : Holds svc ns base c rs) {l : List Node}
    (hl : l.Perm (c.tbl .node).items) :
    (l.map nodeIndex).Nodup ∧ (l.map nodeIndex).toFinset = rs.all := by
  have hmem : ∀ node ∈ l, node ∈ c.tbl .node := fun node hm => hl.mem_iff.mp hm
  constructor
  · refine List.Nodup.map_on ?_ ?_
    · intro a ha b hb hab
      obtain ⟨i, hi⟩ := h.numbered a (hmem a ha)
      obtain ⟨j, hj⟩ := h.numbered b (hmem b hb)
      rw [hi.index hd, hj.index hd] at hab
      exact Table.eq_of_key (hmem a ha) (hmem b hb) (by rw [hi.key, hj.key, hab])
    · exact hl.nodup_iff.mpr (List.Nodup.of_map _ (c.tbl .node).nodup)
  · ext i
    rw [List.mem_toFinset, List.mem_map, h.mem_all]
    constructor
    · rintro ⟨node, hm, rfl⟩
      obtain ⟨j, hj⟩ := h.numbered node (hmem node hm)
      exact ⟨node, hmem node hm, (hj.index hd).symm ▸ hj⟩
    · rintro ⟨node, hm, hi⟩
      exact ⟨node, hl.mem_iff.mpr hm, hi.index hd⟩

theorem Holds.card (hd : Go.NoDigit base) (h : Holds svc ns base c rs) {l : List Node}
    (hl : l.Perm (c.tbl .node).items) : l.length = rs.all.card := by
  obtain ⟨hnd, hset⟩ := h.indices hd hl
  rw [← hset, List.toFinset_card_of_nodup hnd, List.length_map]

/-! ## One write -/

/-- A Node is written in the place of replica `i`. -/
theorem Holds.put (h : Holds svc ns base c rs) (hi : Numbered svc ns base i node)
    {rs' : ReplicaSet}
    (hlive : ∀ j, j ∈ rs'.live ↔ j = i ∧ node.spec.deletionDate = "" ∨ j ≠ i ∧ j ∈ rs.live)
    (hmarked : ∀ j, j ∈ rs'.marked ↔
      j = i ∧ node.spec.deletionDate ≠ "" ∨ j ≠ i ∧ j ∈ rs.marked) :
    Holds svc ns base (c.setTbl .node ((c.tbl .node).put node)) rs' := by
  have hmem : ∀ x : Node, x ∈ (c.setTbl .node ((c.tbl .node).put node)).tbl .node ↔
      x = node ∨ x ∈ c.tbl .node ∧ x.key ≠ node.key := fun x => by
    rw [Cluster.setTbl_self, Table.mem_put]
  -- A predicate that depends on the date, before and after.
  have hset : ∀ (P : String → Prop) j,
      (∃ x : Node, x ∈ (c.setTbl .node ((c.tbl .node).put node)).tbl .node ∧
        Numbered svc ns base j x ∧ P x.spec.deletionDate) ↔
      j = i ∧ P node.spec.deletionDate ∨
        j ≠ i ∧ ∃ x : Node, x ∈ c.tbl .node ∧ Numbered svc ns base j x ∧
          P x.spec.deletionDate := by
    intro P j
    constructor
    · rintro ⟨x, hx, hj, hP⟩
      rcases (hmem x).mp hx with rfl | ⟨hx, hk⟩
      · exact .inl ⟨hj.unique hi rfl, hP⟩
      · exact .inr ⟨fun e => hk (by rw [hj.key, hi.key, e]), x, hx, hj, hP⟩
    · rintro (⟨rfl, hP⟩ | ⟨hne, x, hx, hj, hP⟩)
      · exact ⟨node, (hmem node).mpr (.inl rfl), hi, hP⟩
      · exact ⟨x, (hmem x).mpr (.inr ⟨hx, fun hk => hne (hj.unique hi hk)⟩), hj, hP⟩
  refine ⟨fun x hx => ?_, fun j => ?_, fun j => ?_⟩
  · rcases (hmem x).mp hx with rfl | ⟨hx, -⟩
    · exact ⟨i, hi⟩
    · exact h.numbered x hx
  · rw [hlive, hset (fun date => date = ""), ← h.live]
  · rw [hmarked, hset (fun date => date ≠ ""), ← h.marked]

/-- Creating the Node of replica `i` adds its number, or finds that it is taken. -/
theorem Holds.create (h : Holds svc ns base c rs) (hi : i ≤ Go.maxInt)
    {r : Except Error Node}
    (ha : Serves c (.create .node (newNode svc ns (base ++ "-" ++ toString i) i)) r c') :
    Holds svc ns base c' (rs.add {i}) ∧ ∀ e, r = .error e → e.isAlreadyExists = true := by
  set new := newNode svc ns (base ++ "-" ++ toString i) i
  have hnum : Numbered svc ns base i (newObj .node new (c.version + 1)) :=
    ⟨rfl, rfl, serviceNameOf_newNode svc ns (base ++ "-" ++ toString i) i, rfl, hi⟩
  cases hf : c.find? .node new.key with
  | some old =>
    cases (serve_create_taken rfl hf).symm.trans ha
    obtain ⟨j, hj⟩ := h.numbered old (find?_mem hf)
    have hji : j = i := hj.unique hnum (find?_key hf)
    have hall : i ∈ rs.all := h.mem_all.mpr ⟨old, find?_mem hf, hji ▸ hj⟩
    rw [ReplicaSet.add_of_mem hall]
    exact ⟨h, fun e he => by cases he; rfl⟩
  | none =>
    cases (serve_create rfl hf).symm.trans ha
    have hall : i ∉ rs.all := fun hm => by
      obtain ⟨node, hm, hn⟩ := h.mem_all.mp hm
      exact Table.find?_eq_none.mp hf node hm (hn.key.trans hnum.key.symm)
    refine ⟨h.put hnum (fun j => ?_) fun j => ?_, fun e he => by cases he⟩
    · rw [ReplicaSet.mem_live_add hall]
      exact or_congr_left (and_iff_left rfl).symm
    · rw [ReplicaSet.mem_marked_add hall]
      exact (or_iff_right fun hj => hj.2 rfl).symm

/-- Marking the Node of a live replica marks its number, and keeps the other Nodes. -/
theorem Holds.mark (h : Holds svc ns base c rs) (hm : node ∈ c.tbl .node)
    (hi : Numbered svc ns base i node) (hdate : node.spec.deletionDate = "") {date : Timestamp}
    {r : Except Error Node} (ha : Serves c (.update .node (ReconcileModule.marked node date)) r c') :
    Holds svc ns base c' (rs.mark {i}) ∧
      ∀ x : Node, x ∈ c.tbl .node → x.key ≠ node.key → x ∈ c'.tbl .node := by
  have hf : c.find? .node (ReconcileModule.marked node date).key = some node := Table.find?_of_mem hm
  cases (serve_update hf rfl).symm.trans ha
  have hlive : i ∈ rs.live := (h.live i).mpr ⟨node, hm, hi, hdate⟩
  have hnum : Numbered svc ns base i
      (updatedObj .node node (ReconcileModule.marked node date) (c.version + 1)) :=
    ⟨hi.name, hi.inNs, hi.service, hi.hostname, hi.bound⟩
  refine ⟨h.put hnum (fun j => ?_) fun j => ?_, fun x hx hk => ?_⟩
  · rw [ReplicaSet.mem_live_mark]
    exact (or_iff_right fun hj => date.2 hj.2).symm
  · rw [ReplicaSet.mem_marked_mark hlive]
    exact or_congr_left (and_iff_left date.2).symm
  · rw [Cluster.setTbl_self]
    exact Table.mem_put.mpr (.inr ⟨hx, hk⟩)

/-- Removing the Node of a marked replica removes its number. -/
theorem Holds.remove (h : Holds svc ns base c rs) (hm : node ∈ c.tbl .node)
    (hi : Numbered svc ns base i node) (hdate : node.spec.deletionDate ≠ "") :
    Holds svc ns base (c.setTbl .node ((c.tbl .node).erase node.key)) (rs.remove i) := by
  have hmarked : i ∈ rs.marked := (h.marked i).mpr ⟨node, hm, hi, hdate⟩
  have hmem : ∀ x : Node, x ∈ (c.setTbl .node ((c.tbl .node).erase node.key)).tbl .node ↔
      x ∈ c.tbl .node ∧ x.key ≠ node.key := fun x => by
    rw [Cluster.setTbl_self, Table.mem_erase]
  refine ⟨fun x hx => h.numbered x ((hmem x).mp hx).1, fun j => ?_, fun j => ?_⟩
  · rw [show (rs.remove i).live = rs.live from rfl, h.live]
    constructor
    · rintro ⟨x, hx, hj, hd⟩
      exact ⟨x, (hmem x).mpr ⟨hx, fun hk => hdate (Table.eq_of_key hx hm hk ▸ hd)⟩, hj, hd⟩
    · rintro ⟨x, hx, hj, hd⟩
      exact ⟨x, ((hmem x).mp hx).1, hj, hd⟩
  · rw [ReplicaSet.remove, Finset.mem_erase, h.marked]
    constructor
    · rintro ⟨hji, x, hx, hj, hd⟩
      exact ⟨x, (hmem x).mpr ⟨hx, fun hk => hji (hj.unique hi hk)⟩, hj, hd⟩
    · rintro ⟨x, hx, hj, hd⟩
      obtain ⟨hx, hk⟩ := (hmem x).mp hx
      exact ⟨fun e => hk (by rw [hj.key, hi.key, e]), x, hx, hj, hd⟩

/-! ## The loops -/

/-- The loop of creations adds the numbers. -/
theorem createNodes_exec {inst : Module} {appName : String} {l : List Nat}
    {tr : List (Event Api Cluster)} {res : Except Error Unit}
    (hb : hostBase appName svc inst.spec.env = .ok base) (hns : inst.metadata.ns = ns)
    (hl : ∀ i ∈ l, i ≤ Go.maxInt) (h : Holds svc ns base c rs)
    (he : Exec calm (createNodes inst appName svc l) c tr (.done res) c') :
    res = .ok () ∧ Holds svc ns base c' (rs.add l.toFinset) := by
  induction l generalizing c rs tr with
  | nil =>
    obtain ⟨rfl, rfl⟩ := calm_ret he
    exact ⟨rfl, by rwa [List.toFinset_nil, ReplicaSet.add_empty]⟩
  | cons i rest ih =>
    unfold createNodes at he
    rw [specHostname_eq, hb] at he
    dsimp only [Except.map] at he
    rw [create_bind, hns] at he
    obtain ⟨r, c₁, tr', ha, hk⟩ := calm_call he
    obtain ⟨h₁, hexists⟩ := h.create (hl i List.mem_cons_self) ha
    have hrest : ∀ {tr'}, Exec calm (createNodes inst appName svc rest) c₁ tr' (.done res) c' →
        res = .ok () ∧ Holds svc ns base c' (rs.add (i :: rest).toFinset) := fun hk => by
      obtain ⟨hres, h₂⟩ := ih (fun j hj => hl j (List.mem_cons_of_mem _ hj)) h₁ hk
      rw [ReplicaSet.add_add, ← Finset.insert_eq, ← List.toFinset_cons] at h₂
      exact ⟨hres, h₂⟩
    cases r with
    | ok node => exact hrest hk
    | error e =>
      dsimp only at hk
      rw [if_pos (hexists e rfl)] at hk
      exact hrest hk

/-- Without a base, the loop fails at its first replica. -/
theorem createNodes_error {inst : Module} {appName : String} {l : List Nat} {e : Error}
    {tr : List (Event Api Cluster)} {res : Except Error Unit}
    (hb : hostBase appName svc inst.spec.env = .error e) (hl : l ≠ [])
    (he : Exec calm (createNodes inst appName svc l) c tr (.done res) c') :
    res = .error e ∧ c' = c := by
  cases l with
  | nil => exact absurd rfl hl
  | cons i rest =>
    unfold createNodes at he
    rw [specHostname_eq, hb] at he
    exact calm_ret he

/-- The loop of marks marks the numbers of the Nodes in it. -/
theorem markForDeletion_exec (hd : Go.NoDigit base) {l : List Node}
    {tr : List (Event Api Cluster)} (hl : ∀ node ∈ l, node ∈ c.tbl .node)
    (hnd : (l.map Object.key).Nodup) (h : Holds svc ns base c rs)
    (he : Exec calm (markForDeletion l) c tr (.done ()) c') :
    Holds svc ns base c' (rs.mark (l.map nodeIndex).toFinset) := by
  induction l generalizing c rs tr with
  | nil =>
    obtain ⟨-, rfl⟩ := calm_ret he
    rwa [List.map_nil, List.toFinset_nil, ReplicaSet.mark_empty]
  | cons item rest ih =>
    have hm := hl item List.mem_cons_self
    have hrest : ∀ node ∈ rest, node ∈ c.tbl .node := fun node hn =>
      hl node (List.mem_cons_of_mem _ hn)
    obtain ⟨i, hi⟩ := h.numbered item hm
    obtain ⟨hnew, hnd⟩ := List.nodup_cons.mp hnd
    rw [List.map_cons, List.toFinset_cons, hi.index hd, Finset.insert_eq]
    unfold markForDeletion at he
    by_cases hdate : item.spec.deletionDate = ""
    · rw [if_pos hdate, now_bind] at he
      obtain ⟨date, c₁, tr₁, rfl, he₁⟩ := calm_call he
      rw [update_bind] at he₁
      obtain ⟨r, c₂, tr₂, ha, he₂⟩ := calm_call he₁
      obtain ⟨h₂, hkeep⟩ := h.mark hm hi hdate ha
      rw [← ReplicaSet.mark_mark]
      refine ih (fun node hn => hkeep node (hrest node hn) fun hk => ?_) hnd h₂ he₂
      exact hnew (hk ▸ List.mem_map_of_mem hn)
    · rw [if_neg hdate] at he
      have hmarked : i ∈ rs.marked := (h.marked i).mpr ⟨item, hm, hi, hdate⟩
      have hlive : i ∉ rs.live := fun hmem =>
        Finset.disjoint_left.mp rs.disjoint hmem hmarked
      rw [← ReplicaSet.mark_mark, ReplicaSet.mark_of_not_live hlive]
      exact ih hrest hnd h he

/-! ## The whole function -/

/-- The base of the hostnames of a Module's Nodes, or nothing if they have none. -/
def baseOf (inst : Module) : String :=
  match hostBase (appNameOf inst.metadata) (serviceNameOf inst.metadata) inst.spec.env with
  | .ok base => base
  | .error _ => ""

/-- The scale-down branch marks all Nodes but the first ones. -/
theorem deleteExtraNodes_exec (hd : Go.NoDigit base) {sort : SliceSort} {inst : Module} {R : Nat}
    {appNodes : List Node} {tr : List (Event Api Cluster)} {res : Except Error Unit}
    (hR : inst.spec.replicas = R) (hl : appNodes.Perm (c.tbl .node).items)
    (h : Holds svc ns base c rs)
    (he : Exec calm (deleteExtraNodes sort inst appNodes) c tr (.done res) c') :
    res = .ok () ∧ Holds svc ns base c' (rs.mark (rs.live.filter fun i => R ≤ rs.rank i)) := by
  have hnum : ∀ node ∈ appNodes, ∃ i, Numbered svc ns base i node := fun node hm =>
    h.numbered node (hl.mem_iff.mp hm)
  obtain ⟨sorted, hs, hp, hle⟩ := SortNodesByNumber_eq hd sort hnum
  have hperm := hp.trans hl
  obtain ⟨hnd, hset⟩ := h.indices hd hperm
  -- The numbers of the sorted Nodes are strictly sorted.
  have hlt : (sorted.map nodeIndex).Pairwise (· < ·) := by
    rw [List.pairwise_map]
    exact (hle.and (List.pairwise_map.mp hnd)).imp fun hab => lt_of_le_of_ne hab.1 hab.2
  have hrank : ∀ i, ((sorted.map nodeIndex).filter fun j => j < i).length = rs.rank i := fun i => by
    have hf : (rs.all.filter fun j => j < i) =
        ((sorted.map nodeIndex).filter fun j => j < i).toFinset := by
      rw [List.toFinset_filter, hset]
      simp
    rw [ReplicaSet.rank, hf, List.toFinset_card_of_nodup (hnd.filter _)]
  rw [deleteExtraNodes_sorted hR hs] at he
  obtain ⟨⟨⟩, c₁, tr₁, tr₂, -, hmark, hret⟩ := Exec.bind_done he
  obtain ⟨rfl, rfl⟩ := calm_ret hret
  refine ⟨rfl, ?_⟩
  have hdrop : ∀ node ∈ sorted.drop R, node ∈ c.tbl .node := fun node hm =>
    hperm.mem_iff.mp (List.mem_of_mem_drop hm)
  have hkeys : ((sorted.drop R).map Object.key).Nodup := by
    have hall : (sorted.map Object.key).Nodup :=
      (hperm.map Object.key).nodup_iff.mpr (c.tbl .node).nodup
    exact hall.sublist ((List.drop_sublist R sorted).map _)
  have hfinal := markForDeletion_exec hd hdrop hkeys h hmark
  -- The dropped numbers that are live are those of the filter.
  have hmark_eq : rs.mark ((sorted.drop R).map nodeIndex).toFinset =
      rs.mark (rs.live.filter fun i => R ≤ rs.rank i) := by
    refine ReplicaSet.mark_congr fun i hi => ?_
    have hmem : i ∈ sorted.map nodeIndex := by
      rw [← List.mem_toFinset, hset]
      exact Finset.mem_union_left _ hi
    rw [List.mem_toFinset, List.map_drop, mem_drop_iff hlt hmem, hrank, Finset.mem_filter]
    exact ⟨fun hle => ⟨hi, hle⟩, fun hle => hle.2⟩
  exact hmark_eq ▸ hfinal

/-- The scale-up branch adds the missing numbers, or fails at once for want of a base. -/
theorem addNodes_exec {inst : Module} {R : Nat} {tr : List (Event Api Cluster)}
    {res : Except Error Unit} (hR : 0 < R) (hmax : R ≤ Go.maxInt)
    (h : Holds (serviceNameOf inst.metadata) inst.metadata.ns (baseOf inst) c rs)
    (he : Exec calm (createNodes inst (appNameOf inst.metadata) (serviceNameOf inst.metadata)
      (List.range R)) c tr (.done res) c') :
    res = .ok () ∧ Holds (serviceNameOf inst.metadata) inst.metadata.ns (baseOf inst) c'
        (rs.add (Finset.range R)) ∨
      (∃ e, res = .error e) ∧ c' = c := by
  cases hb : hostBase (appNameOf inst.metadata) (serviceNameOf inst.metadata) inst.spec.env with
  | error e =>
    have hne : List.range R ≠ [] := by
      rw [ne_eq, List.range_eq_nil]
      omega
    obtain ⟨rfl, rfl⟩ := createNodes_error hb hne he
    exact .inr ⟨⟨_, rfl⟩, rfl⟩
  | ok base =>
    have hbase : baseOf inst = base := by unfold baseOf; rw [hb]
    rw [hbase] at h ⊢
    have hbound : ∀ i ∈ List.range R, i ≤ Go.maxInt := fun i hi =>
      (List.mem_range.mp hi).le.trans hmax
    obtain ⟨hres, h'⟩ := createNodes_exec hb rfl hbound h he
    have hset : (List.range R).toFinset = Finset.range R := by
      ext i
      simp
    rw [hset] at h'
    exact .inl ⟨hres, h'⟩

/-- `manageNodesForModule` manages the replica set, or fails and changes nothing. -/
theorem manageNodes_exec {sort : SliceSort} {inst : Module} {R : Nat}
    {tr : List (Event Api Cluster)} {res : Except Error Unit}
    (hd : Go.NoDigit (baseOf inst)) (hR : inst.spec.replicas = R) (hmax : R ≤ Go.maxInt)
    (h : Holds (serviceNameOf inst.metadata) inst.metadata.ns (baseOf inst) c rs)
    (he : Exec calm (manageNodesForModule sort inst) c tr (.done res) c') :
    res = .ok () ∧
        Holds (serviceNameOf inst.metadata) inst.metadata.ns (baseOf inst) c' (rs.manage R) ∨
      (∃ e, res = .error e) ∧ c' = c := by
  rcases manageNodesForModule_cases sort inst with ⟨e, hret⟩ | ⟨-, k, hk, -, hok⟩
  · rw [hret] at he
    obtain ⟨rfl, rfl⟩ := calm_ret he
    exact .inr ⟨⟨_, rfl⟩, rfl⟩
  rw [hk] at he
  obtain ⟨r, c₁, tr₁, ⟨⟨l, hl, rfl⟩, rfl⟩, he₁⟩ := calm_call he
  have hperm := h.listed hl
  rw [hok, manageListed, hR, h.card hd hperm] at he₁
  unfold ReplicaSet.manage
  split at he₁
  · rename_i hlt
    have hlt' : rs.all.card < R := by exact_mod_cast hlt
    rw [if_pos hlt']
    rw [Int.toNat_natCast] at he₁
    exact addNodes_exec (by omega) hmax h he₁
  · rename_i hge
    rw [if_neg (by exact_mod_cast hge)]
    split at he₁
    · rename_i hgt
      rw [if_pos (by exact_mod_cast hgt)]
      exact .inl (deleteExtraNodes_exec hd hR hperm h he₁)
    · rename_i hle
      rw [if_neg (by exact_mod_cast hle)]
      obtain ⟨rfl, rfl⟩ := calm_ret he₁
      exact .inl ⟨rfl, h⟩

end

end ReconcileModule

end Automium
