import Automium.Proofs.Replicas

/-!
# Which Nodes a scale-down marks

When a service has more Nodes than replicas, the ones to go are those with the highest numbers:
`SortNodesByNumber` is meant to sort by the final number of the name. It reads the first number of
the hostname, and the hostname of replica `i` is `<base>-i`.

* If the base has no digit, the two are the same, and the highest are marked.
* If the base has a digit, all Nodes have one number. Then the order of the list and the sort decide
  which Nodes go, unless all have to go; and a number out of range makes the sort fail.

`scale_down_iff` says exactly when every execution, whatever the order of the list, marks the
highest Nodes.
-/

namespace Automium

open Data Effect

namespace ReconcileModule

/-! ## The marks -/

/-- A Node with a deletion date is stored under the key. -/
def HasMark (c : Cluster) (key : Key) : Prop :=
  ∃ node : Node, c.find? .node key = some node ∧ node.spec.deletionDate ≠ ""

/-- The Nodes of the keys in `keys` were marked, and no others. -/
def Marks (c c' : Cluster) (keys : List Key) : Prop :=
  ∀ key, HasMark c' key ↔ HasMark c key ∨ key ∈ keys

section

variable {c c' c'' : Cluster} {node : Node} {keys keys' : List Key} {sort : SliceSort}
  {inst : Module}

theorem Marks.nil (c : Cluster) : Marks c c [] := fun _ => by simp

theorem Marks.trans (h : Marks c c' keys) (h' : Marks c' c'' keys') :
    Marks c c'' (keys ++ keys') := fun key => by
  rw [h', h, List.mem_append, or_assoc]

/-- The Node of a stored copy is marked. The others are left alone. -/
theorem marks_update {date : Timestamp} {r : Except Error Node} (hm : node ∈ c.tbl .node)
    (ha : Serves c (.update .node (marked node date)) r c') :
    Marks c c' [node.key] ∧
      ∀ x : Node, x ∈ c.tbl .node → x.key ≠ node.key → x ∈ c'.tbl .node := by
  have hf : c.find? .node (marked node date).key = some node := Table.find?_of_mem hm
  cases (serve_update hf rfl).symm.trans ha
  refine ⟨fun key => ?_, fun x hx hk => ?_⟩
  · unfold HasMark
    rw [Cluster.find?_setTbl, Table.find?_put, updatedObj_key, List.mem_singleton]
    split
    · rename_i hk
      exact iff_of_true ⟨_, rfl, date.2⟩ (.inr hk)
    · rename_i hk
      exact (or_iff_left hk).symm
  · rw [Cluster.setTbl_self]
    exact Table.mem_put.mpr (.inr ⟨hx, hk⟩)

/-- A Node that is marked already is as good as marked again. -/
theorem Marks.cons_of_marked (h : Marks c c' keys) (hm : node ∈ c.tbl .node)
    (hdate : node.spec.deletionDate ≠ "") : Marks c c' (node.key :: keys) := fun key => by
  have hmark : HasMark c node.key := ⟨node, Table.find?_of_mem hm, hdate⟩
  rw [h, List.mem_cons, or_left_comm]
  refine (or_iff_right_of_imp ?_).symm
  rintro rfl
  exact .inl hmark

/-- The loop marks the Nodes in it. -/
theorem markForDeletion_yields {l : List Node} (hl : ∀ node ∈ l, node ∈ c.tbl .node)
    (hnd : (l.map Object.key).Nodup) :
    Yields calm c (markForDeletion l) fun _ c' => Marks c c' (l.map Object.key) := by
  induction l generalizing c with
  | nil => exact .ret calm_closed (.nil c)
  | cons item rest ih =>
    obtain ⟨hitem, hrest⟩ := List.forall_mem_cons.mp hl
    obtain ⟨hnew, hnd⟩ := List.nodup_cons.mp hnd
    unfold markForDeletion
    split
    · rw [now_bind]
      refine .call calm_closed fun date c₁ hnow => ?_
      obtain rfl : c₁ = c := hnow
      rw [update_bind]
      refine .call calm_closed fun r c₂ hupdate => ?_
      obtain ⟨hmarks, hkeep⟩ := marks_update hitem hupdate
      refine (ih (fun x hx => hkeep x (hrest x hx) fun hk => ?_) hnd).mono fun _ c' h => hmarks.trans h
      exact hnew (hk ▸ List.mem_map_of_mem hx)
    · rename_i hdate
      exact (ih hrest hnd).mono fun _ c' h => h.cons_of_marked hitem hdate

/-- The scale-down branch, once the Nodes are sorted. -/
theorem deleteExtraNodes_yields {n : ℕ} {appNodes sorted : List Node}
    (hn : inst.spec.replicas = n) (hs : SortNodesByNumber sort appNodes = .ret (.ok sorted))
    (hl : ∀ node ∈ appNodes, node ∈ c.tbl .node) (hnd : (appNodes.map Object.key).Nodup) :
    Yields calm c (deleteExtraNodes sort inst appNodes) fun r c' =>
      r = .ok () ∧ Marks c c' ((sorted.drop n).map Object.key) := by
  have hp := SortNodesByNumber_perm hs
  have hdrop : ∀ node ∈ sorted.drop n, node ∈ c.tbl .node := fun node hm =>
    hl node (hp.mem_iff.mp (List.mem_of_mem_drop hm))
  have hkeys : ((sorted.drop n).map Object.key).Nodup :=
    ((hp.map Object.key).nodup_iff.mpr hnd).sublist ((List.drop_sublist n sorted).map _)
  rw [deleteExtraNodes_sorted hn hs]
  exact (markForDeletion_yields hdrop hkeys).bind fun _ c' h => .ret calm_closed ⟨rfl, h⟩

end

/-! ## Sorting by the first number -/

section

variable {sort : SliceSort} {ds : String} {nodes : List Node}

/-- The `less` closure for two Nodes of one number. -/
theorem lessByNumber_same {a b : Node} (ha : Go.firstNumber a.spec.hostname = some ds)
    (hb : Go.firstNumber b.spec.hostname = some ds) :
    (lessByNumber a b).run none = pure (false, (Go.atoi ds).2.map Error.new) := by
  rw [lessByNumber_eq ha hb, Option.or_self, decide_eq_false (lt_irrefl _)]

/-- If the number is in range, the sort goes through. -/
theorem SortNodesByNumber_same (hds : ∀ node ∈ nodes, Go.firstNumber node.spec.hostname = some ds)
    (hatoi : (Go.atoi ds).2 = none) :
    SortNodesByNumber sort nodes = .ret (.ok (sort.sortBy (fun _ _ => false) nodes)) := by
  have hless : ∀ a ∈ nodes, ∀ b ∈ nodes, (lessByNumber a b).run none = pure (false, none) :=
    fun a ha b hb => by rw [lessByNumber_same (hds a ha) (hds b hb), hatoi]; rfl
  unfold SortNodesByNumber
  rw [sort.sortM_eq nodes hless]
  rfl

end

/-! ## The Nodes of a service -/

/-- The Nodes of the service are those of the first `m` replicas, with the hostnames `<base>-i` that
`createNodes` gives them (`hostBase`), and none is marked. -/
structure Fleet (svc ns base : String) (m : ℕ) (c : Cluster) : Prop where
  numbered : ∀ node : Node, node ∈ c.tbl .node → node.metadata.ns = ns →
    serviceNameOf node.metadata = svc →
      ∃ i < m, Numbered svc ns base i node ∧ node.spec.deletionDate = ""
  all : ∀ i < m, ∃ node : Node, node ∈ c.tbl .node ∧ Numbered svc ns base i node

/-- The Nodes from `n` to `m - 1` were marked, and no others. -/
def MarksHighest (svc ns : String) (n m : ℕ) (c c' : Cluster) : Prop :=
  ∀ key, HasMark c' key ↔ HasMark c key ∨ ∃ i, n ≤ i ∧ i < m ∧ key = ⟨ns, nodeName svc i⟩

section

variable {sort : SliceSort} {inst : Module} {svc ns base : String} {n m : ℕ} {c c' : Cluster}
  {l : List Node}

theorem Fleet.of_listed (h : Fleet svc ns base m c) (hl : l.Perm (c.inNamespace .node ns))
    (hns : ns ≠ "") {node : Node} (hm : node ∈ nodesOfService svc l) :
    node ∈ c.tbl .node ∧ ∃ i < m, Numbered svc ns base i node ∧ node.spec.deletionDate = "" := by
  obtain ⟨hm, hin, hsvc⟩ := (mem_listed hl).mp hm
  exact ⟨hm, h.numbered node hm (hin.resolve_left hns) hsvc⟩

/-- The keys of the Nodes that are listed. -/
theorem Fleet.keys (h : Fleet svc ns base m c) (hl : l.Perm (c.inNamespace .node ns))
    (hns : ns ≠ "") : ((nodesOfService svc l).map Object.key).Perm
      ((List.range m).map fun i => ⟨ns, nodeName svc i⟩) := by
  rw [List.perm_ext_iff_of_nodup (nodup_listed hl) (List.nodup_range.map (nodeKey_injective svc ns))]
  intro key
  rw [List.mem_map, List.mem_map]
  constructor
  · rintro ⟨node, hm, rfl⟩
    obtain ⟨-, i, hi, hnum, -⟩ := h.of_listed hl hns hm
    exact ⟨i, List.mem_range.mpr hi, hnum.key.symm⟩
  · rintro ⟨i, hi, rfl⟩
    obtain ⟨node, hm, hnum⟩ := h.all i (List.mem_range.mp hi)
    exact ⟨node, (mem_listed hl).mpr ⟨hm, .inr hnum.inNs, hnum.service⟩, hnum.key⟩

theorem Fleet.length (h : Fleet svc ns base m c) (hl : l.Perm (c.inNamespace .node ns))
    (hns : ns ≠ "") : (nodesOfService svc l).length = m := by
  simpa using (h.keys hl hns).length_eq

/-- A sorted list marks what comes after its first `n` Nodes. -/
theorem Fleet.deletes (h : Fleet svc ns base m c) (hl : l.Perm (c.inNamespace .node ns))
    (hns : ns ≠ "") (hn : inst.spec.replicas = n) {sorted : List Node}
    (hs : SortNodesByNumber sort (nodesOfService svc l) = .ret (.ok sorted)) :
    Yields calm c (deleteExtraNodes sort inst (nodesOfService svc l)) fun r c' =>
      r = .ok () ∧ Marks c c' ((sorted.drop n).map Object.key) :=
  deleteExtraNodes_yields hn hs (fun _ hm => (h.of_listed hl hns hm).1)
    (nodup_listed hl)

theorem marksHighest_of_keys {keys : List Key} (h : Marks c c' keys)
    (hkeys : keys.Perm (((List.range m).drop n).map fun i => ⟨ns, nodeName svc i⟩)) :
    MarksHighest svc ns n m c c' := by
  intro key
  rw [h, hkeys.mem_iff, List.mem_map]
  refine or_congr_right (exists_congr fun i => ?_)
  rw [List.range_eq_range', List.drop_range', List.mem_range'_1]
  constructor
  · rintro ⟨hi, rfl⟩
    exact ⟨by omega, by omega, rfl⟩
  · rintro ⟨hle, hlt, rfl⟩
    exact ⟨by omega, rfl⟩

/-- Without a digit in the base, the sort is by the number of the replica. -/
theorem Fleet.sorted (h : Fleet svc ns base m c) (hl : l.Perm (c.inNamespace .node ns))
    (hns : ns ≠ "") (hd : Go.NoDigit base) :
    ∃ sorted, SortNodesByNumber sort (nodesOfService svc l) = .ret (.ok sorted) ∧
      sorted.map Object.key = (List.range m).map fun i => ⟨ns, nodeName svc i⟩ := by
  have hnum : ∀ node ∈ nodesOfService svc l, ∃ i, Numbered svc ns base i node := fun node hm => by
    obtain ⟨-, i, -, hi, -⟩ := h.of_listed hl hns hm
    exact ⟨i, hi⟩
  obtain ⟨sorted, hs, hp, hle⟩ := SortNodesByNumber_eq hd sort hnum
  have hkey : sorted.map Object.key =
      (sorted.map nodeIndex).map fun i => ⟨ns, nodeName svc i⟩ := by
    rw [List.map_map]
    refine List.map_congr_left fun node hm => ?_
    obtain ⟨i, hi⟩ := hnum node (hp.mem_iff.mp hm)
    rw [hi.key, Function.comp_apply, hi.index hd]
  have hperm : (sorted.map nodeIndex).Perm (List.range m) := by
    rw [← List.map_perm_map_iff (nodeKey_injective svc ns), ← hkey]
    exact (hp.map Object.key).trans (h.keys hl hns)
  have hrange : sorted.map nodeIndex = List.range m :=
    hperm.eq_of_pairwise (fun _ _ _ _ => le_antisymm) (List.pairwise_map.mpr hle)
      (List.pairwise_lt_range.imp le_of_lt)
  exact ⟨sorted, hs, by rw [hkey, hrange]⟩

/-- The scale-down, for each order of the list. -/
theorem manageNodes_yields_iff (happ : appNameOf inst.metadata ≠ "")
    (hsvc : serviceNameOf inst.metadata ≠ "") (hns : inst.metadata.ns ≠ "")
    (h : Fleet (serviceNameOf inst.metadata) inst.metadata.ns base m c)
    (hn : inst.spec.replicas = n) (hlt : n < m) {Q : Except Error Unit → Cluster → Prop} :
    Yields calm c (manageNodesForModule sort inst) Q ↔
      ∀ l, l.Perm (c.inNamespace .node inst.metadata.ns) → Yields calm c
        (deleteExtraNodes sort inst (nodesOfService (serviceNameOf inst.metadata) l)) Q := by
  obtain ⟨k, hk, -, hok⟩ := manageNodesForModule_eq sort happ hsvc hns
  have hlisted : ∀ l, l.Perm (c.inNamespace .node inst.metadata.ns) →
      k (.ok l) = deleteExtraNodes sort inst (nodesOfService (serviceNameOf inst.metadata) l) := by
    intro l hl
    have hlen := h.length hl hns
    rw [hok, manageListed, if_neg (by omega), if_pos (by omega)]
  rw [hk]
  constructor
  · intro hyields l hl
    rw [← hlisted l hl]
    exact hyields.of_call ⟨⟨l, hl, rfl⟩, rfl⟩
  · refine fun hyields => .call calm_closed fun r c₁ hlist => ?_
    obtain ⟨⟨l, hl, rfl⟩, rfl⟩ := hlist
    rw [hlisted l hl]
    exact hyields l hl

/-! ## When the highest are marked -/

/-- The first number in the base, if there is one, is in the range of an `int`. -/
def FitsInt (base : String) : Prop := ∀ ds, Go.firstNumber base = some ds → (Go.atoi ds).2 = none

/-- The scale-down returns nil and marks the highest Nodes, whatever the order of the list. -/
def ScalesDown (sort : SliceSort) (inst : Module) (n m : ℕ) (c : Cluster) : Prop :=
  Yields calm c (manageNodesForModule sort inst) fun r c' =>
    r = .ok () ∧ MarksHighest (serviceNameOf inst.metadata) inst.metadata.ns n m c c'

/-- With a digit in the base, all Nodes have the number of the base. -/
theorem Fleet.firstNumber (h : Fleet svc ns base m c) (hl : l.Perm (c.inNamespace .node ns))
    (hns : ns ≠ "") (hd : ¬ Go.NoDigit base) :
    ∀ node ∈ nodesOfService svc l,
      Go.firstNumber node.spec.hostname = Go.firstNumber base := fun node hm => by
  obtain ⟨-, i, -, hi, -⟩ := h.of_listed hl hns hm
  rw [hi.hostname]
  exact (Go.firstNumber_dash hd _).1

/-- Nodes of one number are sorted as if no two differed. -/
theorem Fleet.sort_same (h : Fleet svc ns base m c) (hl : l.Perm (c.inNamespace .node ns))
    (hns : ns ≠ "") (hd : ¬ Go.NoDigit base)
    (hsort : FitsInt base ∨ ∃ order, sort.tree m = .done order) :
    SortNodesByNumber sort (nodesOfService svc l) =
      .ret (.ok (sort.sortBy (fun _ _ => false) (nodesOfService svc l))) := by
  rcases hsort with hfits | ⟨order, htree⟩
  · obtain ⟨-, ds, hds⟩ := Go.firstNumber_dash hd ""
    refine SortNodesByNumber_same (fun node hm => ?_) (hfits ds hds)
    rw [h.firstNumber hl hns hd node hm, hds]
  · obtain rfl := h.length hl hns
    exact SortNodesByNumber_silent htree

/-- A list in which the Nodes of the service have any order. -/
theorem exists_listing {nodes ys : List Node} (h : ys.Perm (nodesOfService svc nodes)) :
    ∃ l : List Node, l.Perm nodes ∧ nodesOfService svc l = ys := by
  refine ⟨ys ++ nodes.filter fun node => !decide (serviceNameOf node.metadata = svc), ?_, ?_⟩
  · exact (h.append_right _).trans (List.filter_append_perm _ nodes)
  · unfold nodesOfService
    rw [List.filter_append, List.filter_filter, List.filter_eq_self.mpr, List.filter_eq_nil_iff.mpr,
      List.append_nil]
    · simp
    · exact fun node hm => (List.mem_filter.mp (h.mem_iff.mp hm)).2

section Manage

variable (happ : appNameOf inst.metadata ≠ "") (hsvc : serviceNameOf inst.metadata ≠ "")
  (hns : inst.metadata.ns ≠ "")
  (h : Fleet (serviceNameOf inst.metadata) inst.metadata.ns base m c)
  (hn : inst.spec.replicas = n) (hlt : n < m)

include happ hsvc hns h hn hlt

/-- Without a digit in the base. -/
theorem scalesDown_of_noDigit (hd : Go.NoDigit base) : ScalesDown sort inst n m c := by
  refine (manageNodes_yields_iff happ hsvc hns h hn hlt).mpr fun l hl => ?_
  obtain ⟨sorted, hs, hkeys⟩ := h.sorted hl hns hd
  refine (h.deletes hl hns hn hs).mono fun r c' hr => ⟨hr.1, ?_⟩
  refine marksHighest_of_keys hr.2 ?_
  rw [List.map_drop, hkeys, List.map_drop]

/-- If all have to go, their order does not matter. -/
theorem scalesDown_of_zero (hd : ¬ Go.NoDigit base) (hzero : n = 0)
    (hsort : FitsInt base ∨ ∃ order, sort.tree m = .done order) : ScalesDown sort inst n m c := by
  refine (manageNodes_yields_iff happ hsvc hns h hn hlt).mpr fun l hl => ?_
  have hs := h.sort_same hl hns hd hsort
  refine (h.deletes hl hns hn hs).mono fun r c' hr => ⟨hr.1, ?_⟩
  refine marksHighest_of_keys hr.2 ?_
  rw [hzero, List.drop_zero, List.drop_zero]
  exact ((SortNodesByNumber_perm hs).map Object.key).trans (h.keys hl hns)

/-- A digit in the base, and a Node that stays: for some order of the list the first Node goes. -/
theorem not_scalesDown_of_pos (hd : ¬ Go.NoDigit base) (hpos : 0 < n)
    (hsort : FitsInt base ∨ ∃ order, sort.tree m = .done order) :
    ¬ ScalesDown sort inst n m c := by
  intro hscales
  obtain ⟨node, hm, hnum⟩ := h.all 0 (by omega)
  have hlisted : node ∈ nodesOfService (serviceNameOf inst.metadata)
      (c.inNamespace .node inst.metadata.ns) :=
    (mem_listed (.refl _)).mpr ⟨hm, .inr hnum.inNs, hnum.service⟩
  obtain ⟨ys, hys, hlast⟩ := sort.exists_last hlisted (n := n) (by rw [h.length (.refl _) hns]; exact hlt)
  obtain ⟨l, hl, rfl⟩ := exists_listing hys
  -- What the claimed result and the actual one say of one run.
  obtain ⟨-, -, -, hhighest⟩ :=
    ((manageNodes_yields_iff happ hsvc hns h hn hlt).mp hscales l hl).run serves_serve
  obtain ⟨-, -, -, hmarks⟩ := (h.deletes hl hns hn (h.sort_same hl hns hd hsort)).run serves_serve
  have hmarked := (hmarks node.key).mpr (.inr (List.mem_map_of_mem hlast))
  rcases (hhighest node.key).mp hmarked with ⟨x, hx, hdate⟩ | ⟨i, hni, -, hkey⟩
  · cases (Table.find?_of_mem hm).symm.trans hx
    obtain ⟨-, -, -, hunmarked⟩ := h.numbered node hm hnum.inNs hnum.service
    exact hdate hunmarked
  · have hi : 0 = i := nodeKey_injective _ _ (hnum.key.symm.trans hkey)
    omega

/-- A number out of range: the sort fails. -/
theorem not_scalesDown_of_overflow (hd : ¬ Go.NoDigit base) (hfits : ¬ FitsInt base)
    (hask : ¬ ∃ order, sort.tree m = .done order) : ¬ ScalesDown sort inst n m c := by
  intro hscales
  obtain ⟨ds, hds, hatoi⟩ : ∃ ds, Go.firstNumber base = some ds ∧ (Go.atoi ds).2 ≠ none := by
    simpa [FitsInt] using hfits
  have hl := List.Perm.refl (c.inNamespace .node inst.metadata.ns)
  have hlen := h.length hl hns
  obtain ⟨r, ho, hr, -⟩ :=
    ((manageNodes_yields_iff happ hsvc hns h hn hlt).mp hscales _ hl).run serves_serve
  have hcompares : sort.Compares (nodesOfService (serviceNameOf inst.metadata)
      (c.inNamespace .node inst.metadata.ns)).length := by
    rw [hlen]
    cases htree : sort.tree m with
    | done order => exact absurd ⟨order, htree⟩ hask
    | ask x y k => exact ⟨x, y, k, htree⟩
  obtain ⟨node, hlisted⟩ := List.exists_mem_of_length_pos (by rw [hlen]; omega)
  have hbad : ¬ Fits node := by
    rintro ⟨ds', hds', hfit⟩
    rw [h.firstNumber hl hns hd node hlisted, hds] at hds'
    cases hds'
    exact hatoi hfit
  have hfails := SortNodesByNumber_overflow hcompares hlisted hbad
  rcases deleteExtraNodes_cases sort inst (nodesOfService (serviceNameOf inst.metadata)
    (c.inNamespace .node inst.metadata.ns)) with ⟨msg, heq⟩ | ⟨e, heq⟩ | ⟨sorted, hs, -, -⟩
  · rw [heq] at ho
    cases ho
  · rw [heq] at ho
    cases ho
    cases hr
  · exact hfails sorted hs

/-- Exactly when a scale-down marks the highest Nodes (module doc). -/
theorem scale_down_iff : ScalesDown sort inst n m c ↔
    Go.NoDigit base ∨ n = 0 ∧ (FitsInt base ∨ ∃ order, sort.tree m = .done order) := by
  constructor
  · intro hscales
    by_contra hcond
    obtain ⟨hd, hzero⟩ := not_or.mp hcond
    by_cases hsort : FitsInt base ∨ ∃ order, sort.tree m = .done order
    · have hpos : 0 < n := Nat.pos_of_ne_zero fun h0 => hzero ⟨h0, hsort⟩
      exact not_scalesDown_of_pos happ hsvc hns h hn hlt hd hpos hsort hscales
    · obtain ⟨hfits, hask⟩ := not_or.mp hsort
      exact not_scalesDown_of_overflow happ hsvc hns h hn hlt hd hfits hask hscales
  · intro hcond
    by_cases hd : Go.NoDigit base
    · exact scalesDown_of_noDigit happ hsvc hns h hn hlt hd
    · obtain ⟨hzero, hsort⟩ := hcond.resolve_left hd
      exact scalesDown_of_zero happ hsvc hns h hn hlt hd hzero hsort

end Manage

end

/-! ### From two Nodes to one -/

/-- The Node of replica `i` of the service `web` with this app. -/
def appNode (app : String) (i : ℕ) : Node := newNode "web" "default" (app ++ "-" ++ toString i) i

/-- A store with the Nodes 0 and 1. -/
def pairStore (app : String) : Cluster :=
  Cluster.empty.setTbl .node ((Table.empty.put (appNode app 0)).put (appNode app 1))

/-- The Module of the service, scaled down to one replica. -/
def pairModule (app : String) : Module where
  metadata := { name := "web-module", ns := "default",
                annotations := Finmap.insert serviceNameAnnotation "web"
                  (Finmap.insert appNameAnnotation app ∅) }
  spec := { source := app, image := app ++ "-1", replicas := 1, flavor := "m1" }
  status := {}

theorem appNode_numbered (app : String) {i : ℕ} (hi : i < 2) :
    Numbered "web" "default" app i (appNode app i) where
  name := rfl
  inNs := rfl
  service := serviceNameOf_newNode ..
  hostname := rfl
  bound := by unfold Go.maxInt; omega

theorem fleet_pair (app : String) : Fleet "web" "default" app 2 (pairStore app) := by
  have hmem : ∀ node : Node, node ∈ (pairStore app).tbl .node ↔
      node = appNode app 1 ∨ node = appNode app 0 := by
    intro node
    have hne : (appNode app 0).key ≠ (appNode app 1).key := fun hkey =>
      absurd (nodeKey_injective _ _ hkey) (by decide)
    rw [pairStore, Cluster.setTbl_self, Table.mem_put, Table.mem_put]
    refine or_congr_right ⟨fun h => ?_, ?_⟩
    · exact h.1.resolve_right fun hempty => Table.not_mem_empty hempty.1
    · rintro rfl
      exact ⟨.inl rfl, hne⟩
  refine ⟨fun node hm _ _ => ?_, fun i hi => ?_⟩
  · rcases (hmem node).mp hm with rfl | rfl
    · exact ⟨1, by omega, appNode_numbered app (by omega), rfl⟩
    · exact ⟨0, by omega, appNode_numbered app (by omega), rfl⟩
  · refine ⟨appNode app i, (hmem _).mpr ?_, appNode_numbered app hi⟩
    obtain rfl | rfl : i = 0 ∨ i = 1 := by omega
    · exact .inr rfl
    · exact .inl rfl

theorem scale_down_iff_nginx :
    ScalesDown insertionSort (pairModule "nginx") 1 2 (pairStore "nginx") ↔
      Go.NoDigit "nginx" ∨ 1 = 0 ∧
        (FitsInt "nginx" ∨ ∃ order, insertionSort.tree 2 = .done order) :=
  scale_down_iff (by decide) (by decide) (by decide) (fleet_pair "nginx") rfl (by decide)

/-- With a digit in the name of the app, the Node 0 may go in the place of the Node 1. -/
theorem first_marked :
    ¬ ∀ (sort : SliceSort) (inst : Module) (base : String) (n m : ℕ) (c : Cluster),
      appNameOf inst.metadata ≠ "" → serviceNameOf inst.metadata ≠ "" → inst.metadata.ns ≠ "" →
      hostBase (appNameOf inst.metadata) (serviceNameOf inst.metadata) inst.spec.env = .ok base →
      Fleet (serviceNameOf inst.metadata) inst.metadata.ns base m c →
      inst.spec.replicas = n → n < m → ScalesDown sort inst n m c := by
  intro h
  have hfits : FitsInt "web2" := fun ds hds => by
    cases (show Go.firstNumber "web2" = some "2" by decide).symm.trans hds
    decide
  have hscales : ScalesDown insertionSort (pairModule "web2") 1 2 (pairStore "web2") :=
    h _ _ "web2" 1 2 _ (by decide) (by decide) (by decide) rfl (fleet_pair "web2") rfl (by decide)
  have hfleet : Fleet (serviceNameOf (pairModule "web2").metadata) (pairModule "web2").metadata.ns
      "web2" 2 (pairStore "web2") := fleet_pair "web2"
  exact not_scalesDown_of_pos (by decide) (by decide) (by decide) hfleet rfl (by decide) (by decide)
    (by decide) (.inl hfits) hscales

end ReconcileModule

end Automium
