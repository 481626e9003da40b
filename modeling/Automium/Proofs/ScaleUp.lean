import Automium.Effect.Triple
import Automium.Proofs.ReplicaRuns
import Mathlib.Data.Set.Insert

/-!
# A scale-up that is interrupted

`manageNodesForModule` creates the missing Nodes one after the other and may stop at any of them.
The next call starts from a list that may be older than the Nodes created since (`Timeline` keeps
the stores of the past). Meanwhile the statuses of the Nodes change, other services get Nodes, and
no Node is removed.

The names say which replicas are there, so the number of Nodes in a list, however old it is, is
that of the replicas only if all were there (`Named.listed`), and a creation that finds the name
taken has found the replica. `scale_up_survives`: a call that returns nil leaves one Node for each
replica, and no call changes a Node.
-/

namespace Automium

open Data Effect

namespace ReconcileModule

/-! ## The sequence of calls -/

/-- The store, all stores since the beginning, and the stores before and after each call. -/
structure Timeline where
  cluster : Cluster
  past : Set Cluster
  calls : List (Cluster × Cluster)

namespace Timeline

/-- A call has left this store. -/
def called (b : Timeline) (c : Cluster) : Timeline where
  cluster := c
  past := insert c b.past
  calls := b.calls ++ [(b.cluster, c)]

/-- A list that was the current one at some time. -/
def Stale (b : Timeline) : (op : Request) → op.Reply → Prop
  | .list k ns, r => ∃ c ∈ b.past, ∃ l, l.Perm (c.inNamespace k ns) ∧ r = .ok l
  | _, _ => False

/-- The call fails, with any error. The server says `AlreadyExists` only of an object that is there
afterwards. -/
def Fails (c : Cluster) : (op : Request) → op.Reply → Prop
  | .create k o, r => ∃ e, r = .error e ∧ (e.isAlreadyExists = true → c.find? k o.key ≠ none)
  | op, r => op.Failed r

/-- The answers: a call is served, and its reply may be lost, or it fails, or the list is old. -/
inductive Answer (b : Timeline) (op : Request) (r : op.Reply) : Timeline → Prop
  | served {r' : op.Reply} {c : Cluster} : Serves b.cluster op r' c → r = r' ∨ Fails c op r →
      Answer b op r (b.called c)
  | unserved : Fails b.cluster op r ∨ b.Stale op r → Answer b op r (b.called b.cluster)

end Timeline

/-- The key of the Node of replica `i`. -/
def replicaKey (inst : Module) (i : ℕ) : Key :=
  ⟨inst.metadata.ns, nodeName (serviceNameOf inst.metadata) i⟩

/-- A Node of another service, that has not the name of a replica. -/
def Foreign (inst : Module) (R : ℕ) (node : Node) : Prop :=
  serviceNameOf node.metadata ≠ serviceNameOf inst.metadata ∧ ∀ i < R, node.key ≠ replicaKey inst i

/-- The Node is a later version of the other one: its status may have changed. -/
structure Later (node node' : Node) : Prop where
  key : node'.key = node.key
  annotations : node'.metadata.annotations = node.metadata.annotations
  spec : node'.spec = node.spec

/-- The Nodes are still there, and the new ones are in `New`. -/
structure Extends (New : Node → Prop) (c c' : Cluster) : Prop where
  keeps : ∀ node : Node, node ∈ c.tbl .node → ∃ node' : Node, node' ∈ c'.tbl .node ∧ Later node node'
  adds : ∀ node' : Node, node' ∈ c'.tbl .node →
    (∃ node : Node, node ∈ c.tbl .node ∧ Later node node') ∨ New node'

/-- The world of the calls for one Module: the others write statuses, and create Nodes of other
services. -/
def growWorld (inst : Module) (R : ℕ) : World Api Timeline where
  env b b' := Extends (Foreign inst R) b.cluster b'.cluster ∧
    b' = { b with cluster := b'.cluster, past := insert b'.cluster b.past }
  answer := Timeline.Answer

/-- What happens: something else, or a call of `manageNodesForModule` with this outcome. -/
inductive GrowStep where
  | others
  | manage (o : Outcome (Except Error Unit))

/-- The sequences of calls that start from the store `c₀`. -/
def growSys (sort : SliceSort) (inst : Module) (R : ℕ) (c₀ : Cluster) : Sys Timeline GrowStep where
  init b := b = ⟨c₀, {c₀}, []⟩
  step b l b' := match l with
    | .others => (growWorld inst R).env b b'
    | .manage o => ∃ tr, Exec (growWorld inst R) (manageNodesForModule sort inst) b tr o b'

/-! ## What is claimed -/

/-- The Nodes of the service have the names of replicas, and no other Node has one of these. -/
structure Named (inst : Module) (R : ℕ) (c : Cluster) : Prop where
  named : ∀ node ∈ serviceNodes inst c, ∃ i < R,
    node.metadata.name = nodeName (serviceNameOf inst.metadata) i
  owned : ∀ node : Node, node ∈ c.tbl .node → ∀ i < R, node.key = replicaKey inst i →
    serviceNameOf node.metadata = serviceNameOf inst.metadata

/-- The Node is that of a replica, with its hostname and without a mark. -/
def Fresh (inst : Module) (R : ℕ) (node : Node) : Prop :=
  ∃ i < R, node.key = replicaKey inst i ∧
    specHostname (appNameOf inst.metadata) (serviceNameOf inst.metadata) inst.spec.env i =
      .ok node.spec.hostname ∧ node.spec.deletionDate = ""

/-- There is one Node for each replica, and those that were not there at the start are fresh. -/
structure Complete (inst : Module) (R : ℕ) (c₀ c : Cluster) : Prop where
  names : ((serviceNodes inst c).map fun node => node.metadata.name).Perm
    ((List.range R).map (nodeName (serviceNameOf inst.metadata)))
  fresh : ∀ node ∈ serviceNodes inst c, c₀.find? .node node.key = none → Fresh inst R node

/-- Every Node is unchanged. -/
def Unchanged (c c' : Cluster) : Prop :=
  ∀ key (node : Node), c.find? .node key = some node → c'.find? .node key = some node

/-! ## The invariant -/

section

variable {inst : Module} {R : ℕ} {c₀ c c' : Cluster} {b b' : Timeline} {sort : SliceSort}

/-- The new Nodes of a call. -/
def Grown (inst : Module) (R : ℕ) (node : Node) : Prop :=
  (serviceNameOf node.metadata = serviceNameOf inst.metadata ∧ Fresh inst R node) ∨
    Foreign inst R node

theorem mem_serviceNodes {node : Node} : node ∈ serviceNodes inst c ↔
    node ∈ c.tbl .node ∧ (inst.metadata.ns = "" ∨ node.metadata.ns = inst.metadata.ns) ∧
      serviceNameOf node.metadata = serviceNameOf inst.metadata :=
  mem_listed (.refl _)

theorem Later.serviceNameOf_eq {node node' : Node} (h : Later node node') :
    serviceNameOf node'.metadata = serviceNameOf node.metadata := by
  rw [serviceNameOf, serviceNameOf, h.annotations]

theorem Later.mem_serviceNodes {node node' : Node} (h : Later node node') (hm : node ∈ c.tbl .node)
    (hm' : node' ∈ serviceNodes inst c') : node ∈ serviceNodes inst c := by
  obtain ⟨-, hns, hsvc⟩ := ReconcileModule.mem_serviceNodes.mp hm'
  refine ReconcileModule.mem_serviceNodes.mpr ⟨hm, ?_, h.serviceNameOf_eq.symm.trans hsvc⟩
  rwa [← (Key.mk.inj h.key).1]

theorem Fresh.later {node node' : Node} (h : Fresh inst R node) (hl : Later node node') :
    Fresh inst R node' := by
  obtain ⟨i, hi, hkey, hspec⟩ := h
  exact ⟨i, hi, hl.key.trans hkey, hl.spec ▸ hspec⟩

theorem Named.extends (h : Named inst R c) (hc : Extends (Grown inst R) c c') : Named inst R c' where
  named node' hm' := by
    rcases hc.adds node' (mem_serviceNodes.mp hm').1 with
      ⟨node, hm, hlater⟩ | ⟨-, i, hi, hkey, -⟩ | ⟨hne, -⟩
    · obtain ⟨i, hi, hname⟩ := h.named node (hlater.mem_serviceNodes hm hm')
      exact ⟨i, hi, (Key.mk.inj hlater.key).2.trans hname⟩
    · exact ⟨i, hi, (Key.mk.inj hkey).2⟩
    · exact absurd (mem_serviceNodes.mp hm').2.2 hne
  owned node' hm' i hi hkey := by
    rcases hc.adds node' hm' with ⟨node, hm, hlater⟩ | ⟨hsvc, -⟩ | ⟨-, hne⟩
    · exact hlater.serviceNameOf_eq.trans (h.owned node hm i hi (hlater.key.symm.trans hkey))
    · exact hsvc
    · exact absurd hkey (hne i hi)

/-- The Node of replica `i` is there. -/
def Has (inst : Module) (c : Cluster) (i : ℕ) : Prop :=
  ∃ node : Node, node ∈ c.tbl .node ∧ node.key = replicaKey inst i

theorem Has.extends {New : Node → Prop} {i : ℕ} (h : Has inst c i) (hc : Extends New c c') :
    Has inst c' i := by
  obtain ⟨node, hm, hkey⟩ := h
  obtain ⟨node', hm', hlater⟩ := hc.keeps node hm
  exact ⟨node', hm', hlater.key.trans hkey⟩

theorem Named.key_eq (h : Named inst R c) (hns : inst.metadata.ns ≠ "") {node : Node}
    (hm : node ∈ serviceNodes inst c) : ∃ i < R, node.key = replicaKey inst i := by
  obtain ⟨i, hi, hname⟩ := h.named node hm
  refine ⟨i, hi, ?_⟩
  rw [Object.key, hname, (mem_serviceNodes.mp hm).2.1.resolve_left hns, replicaKey]

/-- A list of the Nodes is not longer than there are replicas, and as long only if all are there. -/
theorem Named.listed (h : Named inst R c) (hns : inst.metadata.ns ≠ "") {l : List Node}
    (hl : l.Perm (c.inNamespace .node inst.metadata.ns)) :
    (nodesOfService (serviceNameOf inst.metadata) l).length ≤ R ∧
      ((nodesOfService (serviceNameOf inst.metadata) l).length = R → ∀ i < R, Has inst c i) := by
  have hsub : ((nodesOfService (serviceNameOf inst.metadata) l).map Object.key).Subperm
      ((List.range R).map (replicaKey inst)) :=
    listed_subperm hl hns fun node hm => h.named node (mem_serviceNodes.mpr ((mem_listed hl).mp hm))
  constructor
  · simpa using hsub.length_le
  · intro hlen i hi
    have hperm := hsub.perm_of_length_le (by simp [hlen])
    have hmem : replicaKey inst i ∈ (nodesOfService (serviceNameOf inst.metadata) l).map Object.key :=
      hperm.mem_iff.mpr (List.mem_map_of_mem (List.mem_range.mpr hi))
    obtain ⟨node, hm, hkey⟩ := List.mem_map.mp hmem
    exact ⟨node, ((mem_listed hl).mp hm).1, hkey⟩

/-- What holds between any two calls. -/
structure Timeline.Sound (inst : Module) (R : ℕ) (c₀ : Cluster) (b : Timeline) : Prop where
  named : ∀ c ∈ b.past, Named inst R c
  grows : ∀ c ∈ b.past, ∀ i, Has inst c i → Has inst b.cluster i
  current : b.cluster ∈ b.past
  fresh : ∀ node ∈ serviceNodes inst b.cluster, c₀.find? .node node.key = none → Fresh inst R node
  calls : ∀ call ∈ b.calls, Unchanged call.1 call.2

theorem Timeline.Sound.init (h₀ : Named inst R c₀) : Timeline.Sound inst R c₀ ⟨c₀, {c₀}, []⟩ where
  named c hc := by rw [Set.mem_singleton_iff.mp hc]; exact h₀
  grows c hc i hi := by rwa [← Set.mem_singleton_iff.mp hc]
  current := rfl
  fresh node hm hnone := by
    have hf : c₀.find? .node node.key = some node := Table.find?_of_mem (mem_serviceNodes.mp hm).1
    rw [hf] at hnone
    cases hnone
  calls _ hc := (List.not_mem_nil hc).elim

/-- The store has grown. -/
theorem Timeline.Sound.extends (h : b.Sound inst R c₀) (hc : Extends (Grown inst R) b.cluster c)
    {calls : List (Cluster × Cluster)} (hcalls : ∀ call ∈ calls, Unchanged call.1 call.2) :
    Timeline.Sound inst R c₀ ⟨c, insert c b.past, calls⟩ where
  named := by
    rintro c' (rfl | hc')
    · exact (h.named _ h.current).extends hc
    · exact h.named c' hc'
  grows := by
    rintro c' (rfl | hc') i hi
    · exact hi
    · exact (h.grows c' hc' i hi).extends hc
  current := .inl rfl
  fresh node' hm' hnone := by
    rcases hc.adds node' (mem_serviceNodes.mp hm').1 with
      ⟨node, hm, hlater⟩ | ⟨-, hfresh⟩ | ⟨hne, -⟩
    · exact (h.fresh node (hlater.mem_serviceNodes hm hm') (hlater.key ▸ hnone)).later hlater
    · exact hfresh
    · exact absurd (mem_serviceNodes.mp hm').2.2 hne
  calls := hcalls

theorem Timeline.Sound.called (h : b.Sound inst R c₀)
    (hc : Extends (Grown inst R) b.cluster c) (hu : Unchanged b.cluster c) :
    (b.called c).Sound inst R c₀ :=
  h.extends hc (List.forall_mem_append.mpr ⟨h.calls, List.forall_mem_singleton.mpr hu⟩)

theorem Later.refl (node : Node) : Later node node := ⟨rfl, rfl, rfl⟩

theorem Extends.refl {New : Node → Prop} (c : Cluster) : Extends New c c where
  keeps node hm := ⟨node, hm, .refl node⟩
  adds node hm := .inl ⟨node, hm, .refl node⟩

theorem Extends.mono {New New' : Node → Prop} (h : Extends New c c')
    (hnew : ∀ node, New node → New' node) : Extends New' c c' where
  keeps := h.keeps
  adds node hm := (h.adds node hm).imp_right (hnew node)

theorem Timeline.Sound.env (h : b.Sound inst R c₀) (he : (growWorld inst R).env b b') :
    b'.Sound inst R c₀ := by
  obtain ⟨hc, hb⟩ := he
  rw [hb]
  exact h.extends (hc.mono fun _ => .inr) h.calls

/-! ## The calls -/

/-- A Node that is not there is created. -/
theorem extends_put {node : Node} (hnew : c.find? .node node.key = none)
    (hgrown : Grown inst R node) :
    Extends (Grown inst R) c (c.setTbl .node ((c.tbl .node).put node)) ∧
      Unchanged c (c.setTbl .node ((c.tbl .node).put node)) := by
  have hmem : ∀ x : Node, x ∈ (c.setTbl .node ((c.tbl .node).put node)).tbl .node ↔
      x = node ∨ x ∈ c.tbl .node ∧ x.key ≠ node.key := fun x => by
    rw [Cluster.setTbl_self, Table.mem_put]
  have hne : ∀ x : Node, x ∈ c.tbl .node → x.key ≠ node.key := Table.find?_eq_none.mp hnew
  refine ⟨⟨fun x hx => ⟨x, (hmem x).mpr (.inr ⟨hx, hne x hx⟩), .refl x⟩, fun x hx => ?_⟩, ?_⟩
  · rcases (hmem x).mp hx with rfl | ⟨hx, -⟩
    · exact .inr hgrown
    · exact .inl ⟨x, hx, .refl x⟩
  · intro key x hx
    rw [Cluster.find?_setTbl, Table.find?_put_ne]
    · exact hx
    · exact fun hkey => hne x (find?_mem hx) ((find?_key hx).trans hkey)

theorem Unchanged.refl (c : Cluster) : Unchanged c c := fun _ _ h => h

/-- The call of a list: the store stays, and the list is that of a store of the past. -/
theorem Timeline.Sound.list (h : b.Sound inst R c₀) {ns : String} {r : Except Error (List Node)}
    (ha : Timeline.Answer b (.list .node ns) r b') :
    b'.Sound inst R c₀ ∧ ∀ l, r = .ok l → ∃ c ∈ b'.past, l.Perm (c.inNamespace .node ns) := by
  rcases ha with @⟨r', c, hserve, hr⟩ | hr
  · obtain ⟨⟨l, hl, rfl⟩, rfl⟩ := hserve
    refine ⟨h.called (.refl _) (.refl _), ?_⟩
    rintro l' rfl
    rcases hr with hr | ⟨e, he⟩
    · cases hr
      exact ⟨_, .inl rfl, hl⟩
    · cases he
  · refine ⟨h.called (.refl _) (.refl _), ?_⟩
    rintro l' rfl
    rcases hr with ⟨e, he⟩ | ⟨c, hc, l, hl, he⟩
    · cases he
    · cases he
      exact ⟨c, .inr hc, hl⟩

/-- The creation of the Node of a replica: if it succeeds or finds the name taken, the Node is
there. -/
theorem Timeline.Sound.create (h : b.Sound inst R c₀) {i : ℕ} {hostname : String} (hi : i < R)
    (hhost : specHostname (appNameOf inst.metadata) (serviceNameOf inst.metadata) inst.spec.env i =
      .ok hostname) {r : Except Error Node}
    (ha : Timeline.Answer b (.create .node (newNode (serviceNameOf inst.metadata) inst.metadata.ns
      hostname i)) r b') :
    b'.Sound inst R c₀ ∧ (∀ j, Has inst b.cluster j → Has inst b'.cluster j) ∧
      ((∀ e, r = .error e → e.isAlreadyExists = true) → Has inst b'.cluster i) := by
  set new := newNode (serviceNameOf inst.metadata) inst.metadata.ns hostname i
  have htaken : b.cluster.find? .node new.key ≠ none → Has inst b.cluster i := fun hf => by
    obtain ⟨old, hold⟩ := Option.ne_none_iff_exists'.mp hf
    exact ⟨old, find?_mem hold, find?_key hold⟩
  rcases ha with @⟨r', c, hserve, -⟩ | hr
  · cases hf : b.cluster.find? .node new.key with
    | some old =>
      cases (serve_create_taken rfl hf).symm.trans hserve
      exact ⟨h.called (.refl _) (.refl _), fun _ hj => hj, fun _ => htaken (by simp [hf])⟩
    | none =>
      cases (serve_create rfl hf).symm.trans hserve
      let node : Node := newObj .node new (b.cluster.version + 1)
      have hfree : b.cluster.find? .node node.key = none := hf
      have hgrown : Grown inst R node :=
        .inl ⟨serviceNameOf_newNode _ inst.metadata.ns hostname i, i, hi, rfl, hhost, rfl⟩
      obtain ⟨hext, hunchanged⟩ := extends_put hfree hgrown
      refine ⟨h.called hext hunchanged, fun _ hj => hj.extends hext, fun _ => ⟨node, ?_, rfl⟩⟩
      show node ∈ (Cluster.setTbl _ _ _).tbl .node
      rw [Cluster.setTbl_self]
      exact Table.mem_put.mpr (.inl rfl)
  · refine ⟨h.called (.refl _) (.refl _), fun _ hj => hj, fun hok => ?_⟩
    rcases hr with ⟨e, rfl, he⟩ | hr
    · exact htaken (he (hok e rfl))
    · exact hr.elim

/-! ## The program -/

/-- The state is sound at the end, and if nil is returned, all replicas are there. -/
def Grows (inst : Module) (R : ℕ) (c₀ : Cluster) (o : Outcome (Except Error Unit)) (b : Timeline) :
    Prop :=
  b.Sound inst R c₀ ∧ (o = .done (.ok ()) → inst.metadata.ns ≠ "" ∧ ∀ i < R, Has inst b.cluster i)

theorem stable_sound_timeline : Stable (growWorld inst R) fun b => b.Sound inst R c₀ :=
  fun _ _ h he => h.env he

theorem ret_error (e : Error) :
    Triple (growWorld inst R) (fun b => b.Sound inst R c₀) (.ret (.error e)) (Grows inst R c₀) :=
  .ret stable_sound_timeline fun _ h => ⟨⟨h, nofun⟩, h, nofun⟩

/-- All replicas but those in `l` are there. -/
def AllBut (inst : Module) (R : ℕ) (c₀ : Cluster) (l : List ℕ) (b : Timeline) : Prop :=
  b.Sound inst R c₀ ∧ ∀ i < R, i ∈ l ∨ Has inst b.cluster i

theorem stable_allBut (l : List ℕ) : Stable (growWorld inst R) (AllBut inst R c₀ l) :=
  fun _ _ h he => ⟨h.1.env he, fun i hi => (h.2 i hi).imp_right fun hi => hi.extends he.1⟩

/-- There is nothing left to do. -/
theorem ret_ok (hns : inst.metadata.ns ≠ "") :
    Triple (growWorld inst R) (AllBut inst R c₀ []) (.ret (.ok ())) (Grows inst R c₀) :=
  .ret (stable_allBut []) fun _ h =>
    ⟨⟨h.1, fun _ => ⟨hns, fun i hi => (h.2 i hi).resolve_left List.not_mem_nil⟩⟩, h.1, nofun⟩

/-- The loop, when the replicas that are not in `l` are there. -/
theorem createNodes_grows (hns : inst.metadata.ns ≠ "") {l : List ℕ} (hl : ∀ i ∈ l, i < R) :
    Triple (growWorld inst R) (AllBut inst R c₀ l)
      (createNodes inst (appNameOf inst.metadata) (serviceNameOf inst.metadata) l)
      (Grows inst R c₀) := by
  induction l with
  | nil => exact ret_ok hns
  | cons i rest ih =>
    have hi := hl i List.mem_cons_self
    have hrest := ih fun j hj => hl j (List.mem_cons_of_mem _ hj)
    unfold createNodes
    split
    · exact (ret_error _).mono (fun _ h => h.1) fun _ _ h => h
    · rename_i hostname hhost
      rw [create_bind]
      refine .call (stable_allBut _) (fun b h => ⟨h.1, nofun⟩) (R := fun r b => b.Sound inst R c₀ ∧
        ((∀ e, r = .error e → e.isAlreadyExists = true) → AllBut inst R c₀ rest b)) ?_ fun r => ?_
      · intro b r b' h ha
        obtain ⟨hs, hkeep, hhas⟩ := h.1.create hi hhost ha
        refine ⟨hs, fun hr => ⟨hs, fun j hj => ?_⟩⟩
        rcases h.2 j hj with hmem | hj
        · rcases List.mem_cons.mp hmem with rfl | hmem
          · exact .inr (hhas hr)
          · exact .inl hmem
        · exact .inr (hkeep j hj)
      · cases r with
        | ok node => exact hrest.mono (fun b h => h.2 nofun) fun _ _ h => h
        | error e =>
          dsimp only
          split
          · rename_i he
            exact hrest.mono (fun b h => h.2 fun e' h => by cases h; exact he) fun _ _ h => h
          · exact (ret_error e).mono (fun _ h => h.1) fun _ _ h => h

/-- The function after it has read a list, which may be old. -/
theorem manageListed_grows (hR : inst.spec.replicas = R) (hns : inst.metadata.ns ≠ "")
    {l : List Node} (hl : l.Perm (c.inNamespace .node inst.metadata.ns)) :
    Triple (growWorld inst R) (fun b => b.Sound inst R c₀ ∧ c ∈ b.past)
      (manageListed sort inst (nodesOfService (serviceNameOf inst.metadata) l))
      (Grows inst R c₀) := by
  intro b tr o b' h he
  obtain ⟨hle, hall⟩ := (h.1.named c h.2).listed hns hl
  unfold manageListed at he
  rw [hR, Int.toNat_natCast] at he
  split at he
  · exact createNodes_grows hns (fun _ => List.mem_range.mp)
      ⟨h.1, fun i hi => .inl (List.mem_range.mpr hi)⟩ he
  rw [if_neg (by omega)] at he
  exact ret_ok hns ⟨h.1, fun i hi => .inr (h.1.grows c h.2 i (hall (by omega) i hi))⟩ he

/-- The whole function. -/
theorem manageNodesForModule_grows (hR : inst.spec.replicas = R) :
    Triple (growWorld inst R) (fun b => b.Sound inst R c₀) (manageNodesForModule sort inst)
      (Grows inst R c₀) := by
  by_cases hnames : appNameOf inst.metadata = "" ∨ serviceNameOf inst.metadata = "" ∨
      inst.metadata.ns = ""
  · obtain ⟨e, he⟩ := manageNodesForModule_error sort hnames
    rw [he]
    exact ret_error e
  obtain ⟨happ, hsvc, hns⟩ : _ ∧ _ ∧ _ := by simpa only [not_or] using hnames
  obtain ⟨k, hk, herr, hok⟩ := manageNodesForModule_eq sort happ hsvc hns
  rw [hk]
  refine .call stable_sound_timeline (fun b h => ⟨h, nofun⟩) (fun b r b' h ha => h.list ha) fun r => ?_
  cases r with
  | error e =>
    rw [herr]
    exact (ret_error e).mono (fun _ h => h.1) fun _ _ h => h
  | ok l =>
    rw [hok]
    intro b tr o b' h he
    obtain ⟨c, hc, hl⟩ := h.2 l rfl
    exact manageListed_grows hR hns hl ⟨h.1, hc⟩ he

/-- All replicas are there: the Nodes of the service are complete. -/
theorem Timeline.Sound.complete (h : b.Sound inst R c₀) (hns : inst.metadata.ns ≠ "")
    (hall : ∀ i < R, Has inst b.cluster i) : Complete inst R c₀ b.cluster := by
  have hnamed := h.named _ h.current
  have hkeys : ((serviceNodes inst b.cluster).map Object.key).Perm
      ((List.range R).map (replicaKey inst)) := by
    have hnd : ((serviceNodes inst b.cluster).map Object.key).Nodup := nodup_listed (.refl _)
    refine (List.perm_ext_iff_of_nodup hnd
      (List.nodup_range.map (nodeKey_injective _ _))).mpr fun key => ?_
    rw [List.mem_map, List.mem_map]
    constructor
    · rintro ⟨node, hm, rfl⟩
      obtain ⟨i, hi, hkey⟩ := hnamed.key_eq hns hm
      exact ⟨i, List.mem_range.mpr hi, hkey.symm⟩
    · rintro ⟨i, hi, rfl⟩
      have hi := List.mem_range.mp hi
      obtain ⟨node, hm, hkey⟩ := hall i hi
      exact ⟨node, mem_serviceNodes.mpr ⟨hm, .inr (Key.mk.inj hkey).1,
        hnamed.owned node hm i hi hkey⟩, hkey⟩
  refine ⟨?_, h.fresh⟩
  have hnames := hkeys.map Key.name
  rwa [List.map_map, List.map_map] at hnames

/-- A scale-up gets through, whatever fails and however old its lists are (module doc). -/
theorem scale_up_survives (hR : inst.spec.replicas = R) (h₀ : Named inst R c₀)
    {ts : List (Trans Timeline GrowStep)} (h : Run (growSys sort inst R c₀) ts b) :
    (∀ t ∈ ts, t.lbl = .manage (.done (.ok ())) → Complete inst R c₀ t.post.cluster) ∧
      ∀ call ∈ b.calls, Unchanged call.1 call.2 := by
  have hgrows : ∀ t : Trans Timeline GrowStep, (growSys sort inst R c₀).step t.pre t.lbl t.post →
      t.pre.Sound inst R c₀ → t.post.Sound inst R c₀ ∧ (t.lbl = .manage (.done (.ok ())) →
        inst.metadata.ns ≠ "" ∧ ∀ i < R, Has inst t.post.cluster i) := by
    rintro ⟨b, l, b'⟩ hstep hs
    cases l with
    | others => exact ⟨hs.env hstep, nofun⟩
    | manage o =>
      obtain ⟨tr, he⟩ := hstep
      obtain ⟨hs', hall⟩ := manageNodesForModule_grows hR hs he
      exact ⟨hs', fun ho => hall (GrowStep.manage.inj ho)⟩
  have hinit : ∀ b, (growSys sort inst R c₀).init b → b.Sound inst R c₀ := by
    rintro b rfl
    exact .init h₀
  obtain ⟨hs, hts⟩ := h.invariant' hinit fun t ht hpre => (hgrows t ht hpre).1
  refine ⟨fun t ht hl => ?_, hs.calls⟩
  obtain ⟨hstep, hpre, hpost⟩ := hts t ht
  obtain ⟨hns, hall⟩ := (hgrows t hstep hpre).2 hl
  exact hpost.complete hns hall

end

/-! ### A creation that fails -/

/-- The Node of replica 1 cannot be created while `broken`. -/
def serveBroken (broken : Bool) (b : Timeline) : (op : Request) → op.Reply × Timeline
  | .create .node o =>
    if broken ∧ o.metadata.name = "web-node-1" then (.error (.new "timeout"), b.called b.cluster)
    else ((serve b.cluster (.create .node o)).1, b.called (serve b.cluster (.create .node o)).2)
  | op => ((serve b.cluster op).1, b.called (serve b.cluster op).2)

theorem serveBroken_answers (broken : Bool) (b : Timeline) (op : Request) :
    Timeline.Answer b op (serveBroken broken b op).1 (serveBroken broken b op).2 := by
  have hserve : ∀ op, Timeline.Answer b op (serve b.cluster op).1 (b.called (serve b.cluster op).2) :=
    fun op => .served (serves_serve b.cluster op) (.inl rfl)
  unfold serveBroken
  split
  · split
    · exact .unserved (.inl ⟨_, rfl, nofun⟩)
    · exact hserve _
  · exact hserve _

/-- A call for two replicas. -/
def growRun (broken : Bool) (b : Timeline) : Ran Api Timeline (Except Error Unit) :=
  run (serveBroken broken) (manageNodesForModule insertionSort (scaled nginxModule 2)) b

def emptyTimeline : Timeline := ⟨Cluster.empty, {Cluster.empty}, []⟩

/-- The first call fails after it has created one Node, and the second one returns nil. -/
theorem scale_up_survives_nginx :
    (growRun true emptyTimeline).outcome = .done (.error (.new "timeout")) ∧
      Complete (scaled nginxModule 2) 2 Cluster.empty
        (growRun false (growRun true emptyTimeline).final).final.cluster := by
  have hstep : ∀ broken b, (growSys insertionSort (scaled nginxModule 2) 2 Cluster.empty).step b
      (.manage (growRun broken b).outcome) (growRun broken b).final :=
    fun broken b => ⟨_, Exec.of_run (serveBroken_answers broken) _ b⟩
  have hnamed : Named (scaled nginxModule 2) 2 Cluster.empty :=
    ⟨fun _ hm => (List.not_mem_nil hm).elim, fun _ hm => (Table.not_mem_empty hm).elim⟩
  have hrun := ((Run.nil (S := growSys insertionSort (scaled nginxModule 2) 2 Cluster.empty)
    (s := emptyTimeline) rfl).snoc (hstep true _)).snoc (hstep false _)
  refine ⟨by decide, (scale_up_survives rfl hnamed hrun).1 _
    (List.mem_append_right _ (List.mem_singleton.mpr rfl)) ?_⟩
  exact congrArg GrowStep.manage (by decide)

end ReconcileModule

end Automium
