import Automium.Proofs.ModuleCalls

/-!
# Which surplus Nodes end up marked

`markForDeletion` writes the deletion dates one by one, on the copies of the list, and does not
look at the replies. Between two calls the node controller may write the status of a Node, which
makes the copy stale, or remove a marked Node. So a Node ends up marked exactly if its own update
was accepted, and `manageNodesForModule` returns nil in any case (`surplus_marked_iff`). Where a call
may take effect and its reply be lost, the Nodes are still marked if every update was accepted
(`surplus_marked_of_accepted`).
-/

namespace Automium

open Data Effect

namespace ReconcileModule

/-- A step of the node controller: it writes the status of a Node, or removes a marked one. -/
inductive NodeController (c : Cluster) : Cluster → Prop
  | status {node : Node} (status : NodeStatus) : c.find? .node node.key = some node →
      NodeController c (c.setTbl .node ((c.tbl .node).put
        (statusObj .node node { node with status := status } (c.version + 1))))
  | remove {node : Node} : c.find? .node node.key = some node → node.spec.deletionDate ≠ "" →
      NodeController c (c.setTbl .node ((c.tbl .node).erase node.key))

/-- A Node is stored under the key, without a deletion date. -/
def Unmarked (c : Cluster) (key : Key) : Prop :=
  ∃ node : Node, c.find? .node key = some node ∧ node.spec.deletionDate = ""

/-- The Node of the key is marked, or it is gone. -/
def MarkedOrGone (c : Cluster) (key : Key) : Prop :=
  ∀ node : Node, c.find? .node key = some node → node.spec.deletionDate ≠ ""

/-- If the call is an update, it is accepted. -/
def Accepted : (op : Request) → op.Reply → Prop
  | .update _ _, r => ∃ o, r = .ok o
  | _, _ => True

/-- The Node is one of the surplus ones of the list that the server returned. -/
def Selected (sort : SliceSort) (inst : Module) (tr : List (Event Api Cluster)) (item : Node) :
    Prop :=
  ∃ s l sorted, (⟨s, .list .node inst.metadata.ns, .ok l⟩ : Event Api Cluster) ∈ tr ∧
    SortNodesByNumber sort (nodesOfService (serviceNameOf inst.metadata) l) = .ret (.ok sorted) ∧
    item ∈ sorted.drop inst.spec.replicas.toNat

section

variable {c c' : Cluster} {key : Key} {item : Node} {tr : List (Event Api Cluster)}

theorem markedOrGone_iff : MarkedOrGone c key ↔ ¬ Unmarked c key := by
  simp [MarkedOrGone, Unmarked]

/-- The node controller neither marks a Node nor takes a mark away. -/
theorem NodeController.unmarked_iff (h : NodeController c c') (key : Key) :
    Unmarked c' key ↔ Unmarked c key := by
  unfold Unmarked
  cases h with
  | @status node status hf =>
    rw [Cluster.find?_setTbl, Table.find?_put, statusObj_key]
    split
    · rename_i hk
      subst hk
      rw [hf]
      constructor
      · rintro ⟨x, hx, hd⟩
        cases hx
        exact ⟨node, rfl, hd⟩
      · rintro ⟨x, hx, hd⟩
        cases hx
        exact ⟨_, rfl, hd⟩
    · rfl
  | @remove node hf hd =>
    rw [Cluster.find?_setTbl, Table.find?_erase]
    split
    · rename_i hk
      subst hk
      rw [hf]
      constructor
      · rintro ⟨x, hx, -⟩
        cases hx
      · rintro ⟨x, hx, hd'⟩
        cases hx
        exact absurd hd' hd
    · rfl

theorem unmarked_iff_of_env (h : Relation.ReflTransGen NodeController c c') (key : Key) :
    Unmarked c' key ↔ Unmarked c key := by
  induction h with
  | refl => rfl
  | tail _ hs ih => exact (hs.unmarked_iff key).trans ih

/-- The update of a stored Node is accepted and marks it, or it fails and changes nothing. -/
theorem update_cases {env : Cluster → Cluster → Prop} {date : Timestamp} {r : Except Error Node}
    (h : (flaky env).answer c (.update .node (marked item date)) r c') :
    ((∃ o, r = .ok o) ∧ ∀ key, Unmarked c' key ↔ key ≠ item.key ∧ Unmarked c key) ∨
      (∃ e, r = .error e) ∧ c' = c := by
  rcases h with h | ⟨he, rfl⟩
  · rcases h.update_cases with ⟨rfl, he⟩ | ⟨old, -, -, rfl, rfl⟩
    · exact .inr ⟨he, rfl⟩
    · refine .inl ⟨⟨_, rfl⟩, fun key => ?_⟩
      unfold Unmarked
      rw [Cluster.find?_setTbl, Table.find?_put, updatedObj_key]
      split
      · rename_i hk
        refine iff_of_false ?_ fun h => h.1 hk
        rintro ⟨x, hx, hd⟩
        cases hx
        exact date.2 hd
      · rename_i hk
        exact (and_iff_right hk).symm
  · exact .inr ⟨he, rfl⟩

/-- The loop marks all its Nodes exactly if all its updates are accepted, and no others. -/
theorem markForDeletion_iff {l : List Node} (hnd : (l.map Object.key).Nodup)
    (hl : ∀ item ∈ l, Unmarked c item.key ↔ item.spec.deletionDate = "")
    (he : Exec (flaky NodeController) (markForDeletion l) c tr (.done ()) c') :
    ((∀ item ∈ l, ¬ Unmarked c' item.key) ↔ ∀ e ∈ tr, Accepted e.op e.reply) ∧
      ∀ key, key ∉ l.map Object.key → (Unmarked c' key ↔ Unmarked c key) := by
  induction l generalizing c tr with
  | nil =>
    obtain ⟨-, henv, rfl⟩ := he.ret_done
    exact ⟨by simp, fun key _ => unmarked_iff_of_env henv key⟩
  | cons item rest ih =>
    obtain ⟨hnew, hnd⟩ := List.nodup_cons.mp hnd
    have hl' : ∀ x ∈ rest, Unmarked c x.key ↔ x.spec.deletionDate = "" := fun x hx =>
      hl x (List.mem_cons_of_mem _ hx)
    have hitem := hl item List.mem_cons_self
    unfold markForDeletion at he
    by_cases hd : item.spec.deletionDate = ""
    · rw [if_pos hd, now_bind] at he
      obtain ⟨c₁, date, c₂, tr₁, henv₁, hnow, he₁, rfl⟩ := he.call_done
      have hc₂ : c₂ = c₁ := hnow.elim (fun h => h) fun h => h.1.elim
      subst hc₂
      rw [update_bind] at he₁
      obtain ⟨c₃, r, c₄, tr₂, henv₂, hupd, he₂, rfl⟩ := he₁.call_done
      have henv : ∀ key, Unmarked c₃ key ↔ Unmarked c key := unmarked_iff_of_env (henv₁.trans henv₂)
      have hother : ∀ key, key ≠ item.key → (Unmarked c₄ key ↔ Unmarked c key) := fun key hk => by
        rcases update_cases hupd with ⟨-, h⟩ | ⟨-, rfl⟩
        · rw [h, and_iff_right hk, henv]
        · exact henv key
      obtain ⟨hiff, hframe⟩ := ih hnd (fun x hx => by
        rw [hother x.key fun hk => hnew (hk ▸ List.mem_map_of_mem hx)]
        exact hl' x hx) he₂
      refine ⟨?_, fun key hk => ?_⟩
      · rw [List.forall_mem_cons, List.forall_mem_cons, List.forall_mem_cons, hiff,
          hframe item.key hnew]
        refine Iff.trans (and_congr_left fun _ => ?_) (and_iff_right trivial).symm
        -- The Node itself is marked exactly if its update was accepted.
        rcases update_cases hupd with ⟨hok, h⟩ | ⟨⟨e, rfl⟩, rfl⟩
        · exact iff_of_true (fun hu => ((h item.key).mp hu).1 rfl) hok
        · refine iff_of_false (fun hn => hn ((henv item.key).mpr (hitem.mpr hd))) ?_
          rintro ⟨o, ho⟩
          cases ho
      · rw [List.map_cons, List.mem_cons, not_or] at hk
        rw [hframe key hk.2, hother key hk.1]
    · rw [if_neg hd] at he
      obtain ⟨hiff, hframe⟩ := ih hnd hl' he
      refine ⟨?_, fun key hk => hframe key fun h => hk (List.mem_cons_of_mem _ h)⟩
      rw [List.forall_mem_cons, hiff, hframe item.key hnew, hitem]
      exact and_iff_right hd

/-! ## The whole function -/

/-- The surplus Nodes, if the list of `l` is the only one. -/
theorem selected_iff {sort : SliceSort} {inst : Module} {l : List Node}
    (hno : ∀ e ∈ tr, ∀ k ns, e.op ≠ .list k ns) (item : Node) :
    Selected sort inst (⟨c, .list .node inst.metadata.ns, .ok l⟩ :: tr) item ↔
      ∃ sorted, SortNodesByNumber sort (nodesOfService (serviceNameOf inst.metadata) l) =
        .ret (.ok sorted) ∧ item ∈ sorted.drop inst.spec.replicas.toNat := by
  constructor
  · rintro ⟨s, l', sorted, hm, hs, hi⟩
    rcases List.mem_cons.mp hm with e | hm
    · cases e
      exact ⟨sorted, hs, hi⟩
    · exact absurd rfl (hno _ hm .node inst.metadata.ns)
  · rintro ⟨sorted, hs, hi⟩
    exact ⟨c, l, sorted, List.mem_cons_self, hs, hi⟩

/-- The copies in a list are marked as the stored Nodes are, and they have different keys. -/
theorem listed_spec {env : Cluster → Cluster → Prop} {ns : String} {l : List Node}
    (h : (flaky env).answer c (.list .node ns) (.ok l) c') :
    c' = c ∧ (l.map Object.key).Nodup ∧
      ∀ item ∈ l, Unmarked c item.key ↔ item.spec.deletionDate = "" := by
  obtain ⟨⟨l', hp, e⟩, rfl⟩ := h.resolve_right fun h => nomatch h.1
  cases e
  refine ⟨rfl, ?_, fun item hi => ?_⟩
  · rw [(hp.map Object.key).nodup_iff]
    exact (c'.tbl .node).nodup.sublist (List.filter_sublist.map _)
  · have hm : item ∈ c'.tbl .node := List.mem_of_mem_filter (hp.mem_iff.mp hi)
    have hf : c'.find? .node item.key = some item := Table.find?_of_mem hm
    exact ⟨fun ⟨x, hx, hd⟩ => Option.some.inj (hx.symm.trans hf) ▸ hd, fun hd => ⟨item, hf, hd⟩⟩

/-- The scale-down branch, from a list that was just read. -/
theorem deleteExtraNodes_iff {sort : SliceSort} {inst : Module} {appNodes : List Node}
    (hnd : (appNodes.map Object.key).Nodup)
    (hl : ∀ item ∈ appNodes, Unmarked c item.key ↔ item.spec.deletionDate = "")
    (he : Exec (flaky NodeController) (deleteExtraNodes sort inst appNodes) c tr (.done (.ok ())) c') :
    (∀ e ∈ tr, ∀ k ns, e.op ≠ .list k ns) ∧
      ∃ sorted, SortNodesByNumber sort appNodes = .ret (.ok sorted) ∧
        ((∀ item ∈ sorted.drop inst.spec.replicas.toNat, ¬ Unmarked c' item.key) ↔
          ∀ e ∈ tr, Accepted e.op e.reply) := by
  rcases deleteExtraNodes_cases sort inst appNodes with
    ⟨msg, heq⟩ | ⟨e, heq⟩ | ⟨sorted, hs, hp, heq⟩ <;> rw [heq] at he
  · exact he.crash_done.elim
  · exact nomatch he.ret_done.1
  obtain ⟨⟨⟩, c₁, tr₁, tr₂, rfl, hmark, hret⟩ := he.bind_done
  obtain ⟨-, henv, rfl⟩ := hret.ret_done
  rw [List.append_nil]
  have hmem : ∀ item ∈ sorted.drop inst.spec.replicas.toNat, item ∈ appNodes := fun item hi =>
    hp.mem_iff.mp (List.mem_of_mem_drop hi)
  have hkeys : ((sorted.drop inst.spec.replicas.toNat).map Object.key).Nodup :=
    ((hp.map Object.key).nodup_iff.mpr hnd).sublist ((List.drop_sublist _ _).map _)
  refine ⟨fun e hm k ns heq => ?_, sorted, hs, ?_⟩
  · rcases (markForDeletion_uses _).events hmark e hm with h | ⟨item, -, date, h⟩ <;>
      exact nomatch heq.symm.trans h
  · rw [← (markForDeletion_iff hkeys (fun item hi => hl item (hmem item hi)) hmark).1]
    exact forall₂_congr fun item _ => not_congr (unmarked_iff_of_env henv item.key)

/-- With no surplus Node, nothing is selected, and nothing is updated. -/
theorem surplus_marked_few {sort : SliceSort} {inst : Module} {l : List Node}
    (hcreate : ∀ e ∈ tr, ∃ o, e.op = .create .node o)
    (hle : (nodesOfService (serviceNameOf inst.metadata) l).length ≤ inst.spec.replicas) :
    (∀ item, Selected sort inst (⟨c, .list .node inst.metadata.ns, .ok l⟩ :: tr) item →
        MarkedOrGone c' item.key) ↔
      ∀ e ∈ tr, Accepted e.op e.reply := by
  refine iff_of_true (fun item hsel => ?_) fun e hm => ?_
  · have hno : ∀ e ∈ tr, ∀ k ns, e.op ≠ .list k ns := fun e hm k ns heq => by
      obtain ⟨o, ho⟩ := hcreate e hm
      exact nomatch heq.symm.trans ho
    obtain ⟨sorted, hs, hi⟩ := (selected_iff hno item).mp hsel
    have hlen := (SortNodesByNumber_perm hs).length_eq
    rw [List.drop_eq_nil_of_le (by omega)] at hi
    exact (List.not_mem_nil hi).elim
  · obtain ⟨s, op, r⟩ := e
    obtain ⟨o, rfl⟩ := hcreate _ hm
    trivial

/-- When `manageNodesForModule` returns nil, it has listed the Nodes, and it has created some, or
marked the surplus ones. -/
theorem manage_done {W : World Api Cluster} {sort : SliceSort} {inst : Module}
    (he : Exec W (manageNodesForModule sort inst) c tr (.done (.ok ())) c') :
    ∃ c₁ l c₂ tr₁, W.answer c₁ (.list .node inst.metadata.ns) (.ok l) c₂ ∧
      tr = ⟨c₁, .list .node inst.metadata.ns, .ok l⟩ :: tr₁ ∧
      ((∀ e ∈ tr₁, ∃ o, e.op = .create .node o) ∧
          (nodesOfService (serviceNameOf inst.metadata) l).length ≤ inst.spec.replicas ∨
        Exec W (deleteExtraNodes sort inst (nodesOfService (serviceNameOf inst.metadata) l)) c₂ tr₁
          (.done (.ok ())) c') := by
  rcases manageNodesForModule_cases sort inst with ⟨e, hret⟩ | ⟨-, k, hk, herr, hok⟩
  · rw [hret] at he
    exact nomatch he.ret_done.1
  rw [hk] at he
  obtain ⟨c₁, r, c₂, tr₁, -, hlist, he₁, rfl⟩ := he.call_done
  cases r with
  | error e =>
    rw [herr] at he₁
    exact nomatch he₁.ret_done.1
  | ok l =>
    refine ⟨c₁, l, c₂, tr₁, hlist, rfl, ?_⟩
    rw [hok] at he₁
    unfold manageListed at he₁
    split at he₁
    · rename_i hlt
      refine .inl ⟨fun e hm => ?_, hlt.le⟩
      obtain ⟨i, -, hostname, -, hop⟩ := (createNodes_uses ..).events he₁ e hm
      exact ⟨_, hop⟩
    split at he₁
    · exact .inr he₁
    · rename_i hle
      obtain ⟨-, -, rfl⟩ := he₁.ret_done
      exact .inl ⟨by simp, not_lt.mp hle⟩

/-- The scale-down branch, from the list on. -/
theorem surplus_marked_extra {sort : SliceSort} {inst : Module} {l : List Node} {c₁ c₂ : Cluster}
    (hlist : (flaky NodeController).answer c₁ (.list .node inst.metadata.ns) (.ok l) c₂)
    (he : Exec (flaky NodeController)
      (deleteExtraNodes sort inst (nodesOfService (serviceNameOf inst.metadata) l)) c₂ tr
      (.done (.ok ())) c') :
    (∀ item, Selected sort inst (⟨c₁, .list .node inst.metadata.ns, .ok l⟩ :: tr) item →
        MarkedOrGone c' item.key) ↔
      ∀ e ∈ tr, Accepted e.op e.reply := by
  obtain ⟨rfl, hnd, hl⟩ := listed_spec hlist
  have hkeys : ((nodesOfService (serviceNameOf inst.metadata) l).map Object.key).Nodup :=
    hnd.sublist (List.filter_sublist.map _)
  obtain ⟨hno, sorted, hs, hiff⟩ := deleteExtraNodes_iff hkeys
    (fun item hi => hl item (List.mem_of_mem_filter hi)) he
  rw [← hiff]
  constructor
  · intro h item hi
    rw [← markedOrGone_iff]
    exact h item ((selected_iff hno item).mpr ⟨sorted, hs, hi⟩)
  · intro h item hsel
    obtain ⟨sorted', hs', hi⟩ := (selected_iff hno item).mp hsel
    cases hs.symm.trans hs'
    exact markedOrGone_iff.mpr (h item hi)

/-- The surplus Nodes are marked if every update was accepted, even if replies of other calls are
lost. -/
theorem surplus_marked_of_accepted {sort : SliceSort} {inst : Module}
    (he : Exec (lostReplies NodeController) (manageNodesForModule sort inst) c tr
      (.done (.ok ())) c')
    (haccepted : ∀ e ∈ tr, Accepted e.op e.reply) :
    ∀ item, Selected sort inst tr item → MarkedOrGone c' item.key := by
  obtain ⟨c₁, l, c₂, tr₁, hlist, rfl, ⟨hcreate, hle⟩ | hextra⟩ := manage_done he
  · exact (surplus_marked_few hcreate hle).mpr (List.forall_mem_cons.mp haccepted).2
  · have hserved : ∀ e ∈ tr₁, ¬ e.op.Failed e.reply := by
      rintro ⟨s, op, r⟩ hm
      have hok := haccepted _ (List.mem_cons_of_mem _ hm)
      rcases (deleteExtraNodes_uses ..).events hextra _ hm with rfl | ⟨item, -, date, rfl⟩
      · exact id
      · obtain ⟨o, rfl⟩ := hok
        rintro ⟨e, ⟨⟩⟩
    have hlist' : (flaky NodeController).answer c₁ (.list .node inst.metadata.ns) (.ok l) c₂ := by
      rcases hlist with ⟨r, hserves, rfl | ⟨e, ⟨⟩⟩⟩ | ⟨⟨e, ⟨⟩⟩, -⟩
      exact .inl hserves
    exact (surplus_marked_extra hlist' (flaky_of_lostReplies hextra hserved)).mpr
      (List.forall_mem_cons.mp haccepted).2

/-- The surplus Nodes that `manageNodesForModule` selects are all marked when it returns nil exactly
if every update was accepted. -/
theorem surplus_marked_iff {sort : SliceSort} {inst : Module}
    (he : Exec (flaky NodeController) (manageNodesForModule sort inst) c tr (.done (.ok ())) c') :
    (∀ item, Selected sort inst tr item → MarkedOrGone c' item.key) ↔
      ∀ e ∈ tr, Accepted e.op e.reply := by
  refine ⟨fun h => ?_, surplus_marked_of_accepted (lostReplies_of_flaky he)⟩
  obtain ⟨c₁, l, c₂, tr₁, hlist, rfl, ⟨hcreate, hle⟩ | hextra⟩ := manage_done he
  · exact List.forall_mem_cons.mpr ⟨trivial, (surplus_marked_few hcreate hle).mp h⟩
  · exact List.forall_mem_cons.mpr ⟨trivial, (surplus_marked_extra hlist hextra).mp h⟩

end

/-! ### A refused mark -/

/-- A Module that was scaled down to nothing. -/
def emptiedModule : Module where
  metadata := { name := "web-module", ns := "default",
                annotations := Finmap.insert serviceNameAnnotation "web"
                  (Finmap.insert appNameAnnotation "nginx" ∅) }
  spec := { source := "nginx", image := "nginx-1", replicas := 0, flavor := "m1" }
  status := {}

/-- Its last Node. -/
def lastNode : Node := newNode "web" "default" "nginx-0" 0

/-- A store with `lastNode`. -/
def lastNodeStore : Cluster := Cluster.empty.setTbl .node (Table.empty.put lastNode)

/-- A server that refuses updates: the copy is always stale. -/
def refusing (c : Cluster) : (op : Request) → op.Reply × Cluster
  | .update k o => (.error (.newConflict k o.metadata.name), c)
  | op => serve c op

theorem refusing_flaky {env : Cluster → Cluster → Prop} (c : Cluster) (op : Request) :
    (flaky env).answer c op (refusing c op).1 (refusing c op).2 := by
  cases op with
  | update k o => exact .inr ⟨⟨_, rfl⟩, rfl⟩
  | _ => exact .inl (serves_serve c _)

theorem surplus_marked_idle :
    (run serve (manageNodesForModule insertionSort emptiedModule) lastNodeStore).outcome =
        .done (.ok ()) ∧
      ∀ item, Selected insertionSort emptiedModule
          (run serve (manageNodesForModule insertionSort emptiedModule) lastNodeStore).trace item →
        MarkedOrGone
          (run serve (manageNodesForModule insertionSort emptiedModule) lastNodeStore).final
          item.key := by
  have hexec := flaky_of_calm NodeController
    (calm_run (manageNodesForModule insertionSort emptiedModule) lastNodeStore)
  refine ⟨rfl, (surplus_marked_iff hexec).mpr fun e he => ?_⟩
  have htr : (run serve (manageNodesForModule insertionSort emptiedModule) lastNodeStore).trace =
      [⟨lastNodeStore, .list .node "default", .ok [lastNode]⟩,
        ⟨lastNodeStore, .now, lastNodeStore.time⟩,
        ⟨lastNodeStore, .update .node (marked lastNode lastNodeStore.time),
          .ok (updatedObj .node lastNode (marked lastNode lastNodeStore.time) 2)⟩] := rfl
  rw [htr] at he
  rcases List.mem_cons.mp he with rfl | he
  · trivial
  rcases List.mem_cons.mp he with rfl | he
  · trivial
  · cases List.mem_singleton.mp he
    exact ⟨_, rfl⟩

/-- A refused mark is not noticed. -/
theorem refused_mark_unnoticed :
    ¬ ∀ (sort : SliceSort) (inst : Module) (c c' : Cluster) (tr : List (Event Api Cluster)),
      inst.spec.replicas ≥ 0 →
      Exec (flaky NodeController) (manageNodesForModule sort inst) c tr (.done (.ok ())) c' →
      ∀ item, Selected sort inst tr item → MarkedOrGone c' item.key := by
  intro h
  have hexec := Exec.of_run (W := flaky NodeController) refusing_flaky
    (manageNodesForModule insertionSort emptiedModule) lastNodeStore
  have hsel : Selected insertionSort emptiedModule
      (run refusing (manageNodesForModule insertionSort emptiedModule) lastNodeStore).trace lastNode :=
    ⟨lastNodeStore, [lastNode], [lastNode], List.mem_cons_self, rfl, List.mem_cons_self⟩
  exact h _ _ _ _ _ (by decide) hexec lastNode hsel lastNode rfl rfl

end ReconcileModule

end Automium
