import Automium.Api.World
import Automium.Controller.Node
import Mathlib.Data.Set.Basic

/-!
# Deleted Nodes that come back

While a reconcile of a Node is under way, somebody else may delete the Node. If Consul has a
machine for it, the reconcile ends in `updateOrCreate`, which takes any error of the update for a
Node that was never stored, and creates it again.

`othersDelete` is the world of the reconcile: the other actors may do anything but create the
Node, calls fail, a read may return an old copy, and Consul answers with `ConsulView`.
`stays_deleted_iff`: for the copy of the Node that the reconcile reads, the Node stays deleted in
every interleaving exactly if the answers of Consul keep the reconcile from its end.
-/

namespace Automium

open Data Effect

/-- The answers of Consul. -/
structure ConsulView where
  client : Except Error Unit
  catalog : String → Except Error (Option CatalogNode)
  health : String → Except Error (List HealthCheck)

/-- A read of an old copy. -/
def CachedGet (cached : Set Node) : (op : Request) → op.Reply → Prop
  | .get .node key, r => ∃ node ∈ cached, node.key = key ∧ r = .ok node
  | _, _ => False

/-- What the services answer. -/
def ConsulView.Answer (view : ConsulView) (cached : Set Node) (c : Cluster) :
    (op : NodeApi.Op) → NodeApi.Reply op → Cluster → Prop
  | .inl op, r, c' => Serves c op r c' ∨ (op.Failed r ∨ CachedGet cached op r) ∧ c' = c
  | .inr (.newClient _ _), r, c' => r = view.client ∧ c' = c
  | .inr (.catalogNode hostname), r, c' => r = view.catalog hostname ∧ c' = c
  | .inr (.healthNode hostname), r, c' => r = view.health hostname ∧ c' = c

/-- The world of a reconcile (module doc). -/
def othersDelete (view : ConsulView) (cached : Set Node) (request : Key) :
    World NodeApi Cluster where
  env c c' := c.find? .node request = none → c'.find? .node request = none
  answer := view.Answer cached

namespace ReconcileNode

/-- The first call of a reconcile reads this copy of the Node. -/
def Reads (request : Key) (tr : List (Event NodeApi Cluster)) (inst : Node) : Prop :=
  ∃ c rest, tr = ⟨c, .inl (.get .node request), .ok inst⟩ :: rest

/-- The Node is absent when `UpdateNodeStatusIfNeeded` reads it or writes its status. -/
def GoneInUpdate (request : Key) (tr : List (Event NodeApi Cluster)) : Prop :=
  ∃ e ∈ tr.tail, (e.op = .inl (.get .node request) ∨ ∃ o, e.op = .inl (.updateStatus .node o)) ∧
    e.state.find? .node request = none

/-- The reconcile does not bring the Node back. -/
def StaysDeleted (request : Key) (tr : List (Event NodeApi Cluster)) (c' : Cluster) : Prop :=
  GoneInUpdate request tr → c'.find? .node request = none

/-- The first read may return this copy: it is stored, or a cache has it. -/
def Readable (c : Cluster) (cached : Set Node) (request : Key) (inst : Node) : Prop :=
  c.find? .node request = some inst ∨ inst ∈ cached ∧ inst.key = request

/-- The Node is not deleted by the reconcile itself, and Consul can be asked and has a machine for
it. -/
def HasMachine (view : ConsulView) (inst : Node) : Prop :=
  deletable inst = false ∧ (∃ u, view.client = .ok u) ∧
    ∃ machine nodeHC nodeFIP, view.catalog inst.spec.hostname = .ok (some ⟨some machine⟩) ∧
      view.health inst.spec.hostname = .ok nodeHC ∧
      nodeFIPOf (view.catalog ("external" ++ inst.spec.hostname)) = .ok nodeFIP

section

variable {view : ConsulView} {cached : Set Node} {request : Key} {inst : Node} {c c' : Cluster}
  {tr : List (Event NodeApi Cluster)} {res : Except Error Result}

/-! ## Without a machine -/

/-- The replies of Consul. -/
def Views (view : ConsulView) : (op : NodeApi.Op) → NodeApi.Reply op → Prop
  | .inl _, _ => True
  | .inr (.newClient _ _), r => r = view.client
  | .inr (.catalogNode hostname), r => r = view.catalog hostname
  | .inr (.healthNode hostname), r => r = view.health hostname

/-- Calls that create no Node. -/
def CreatesNone : Request → Prop
  | .create .node _ => False
  | _ => True

def CreatesNone' : NodeApi.Op → Prop
  | .inl op => CreatesNone op
  | .inr _ => True

/-- An absent Node stays absent if it is not created. -/
theorem absent_of_createsNone {op : Request} {r : op.Reply} (h : Serves c op r c')
    (hop : CreatesNone op) (hn : c.find? .node request = none) :
    c'.find? .node request = none := by
  rcases h.find?_cases .node request with hsame | ⟨-, hnone⟩ | ⟨o, rfl, -⟩ | ⟨hsome, -⟩
  · exact hsame.trans hn
  · exact hnone
  · exact hop.elim
  · exact absurd hn hsome

/-- The calls of a program that creates no Node, whatever Consul answers. -/
abbrev Quiet (view : ConsulView) (p : NodeCtl (Except Error Result)) : Prop :=
  Obeys (S := NodeApi) (Views view) CreatesNone' p fun _ => True

theorem saveStatus_quiet (status : LocalStatus) :
    Quiet view (saveStatus inst status request).inl := by
  have h : Uses (S := Api) CreatesNone (saveStatus inst status request) :=
    saveStatus_uses trivial trivial
  exact Obeys.inl h

/-- Without a machine, the reconcile ends before the Node is created. -/
theorem askConsul_quiet (hd : deletable inst = false) (h : ¬ HasMachine view inst) :
    Quiet view (askConsul inst request) := by
  unfold askConsul
  rw [getenv_inl_bind]
  refine ⟨trivial, fun value _ => ?_⟩
  dsimp only
  rw [newClient_bind]
  refine ⟨trivial, fun client hclient => ?_⟩
  cases client with
  | error e => exact saveStatus_quiet _
  | ok u =>
    dsimp only
    rw [catalogNode_bind]
    refine ⟨trivial, fun info hinfo => ?_⟩
    match info, hinfo with
    | .error e, _ => trivial
    | .ok none, _ => exact saveStatus_quiet _
    | .ok (some ⟨node⟩), hinfo =>
      dsimp only
      unfold recordMachine
      rw [healthNode_bind]
      refine ⟨trivial, fun health hhealth => ?_⟩
      cases health with
      | error e => trivial
      | ok nodeHC =>
        dsimp only
        rw [catalogNode_bind]
        refine ⟨trivial, fun fip hfip => ?_⟩
        dsimp only
        split
        · trivial
        · trivial
        · rename_i nodeFIP machine hf
          refine absurd ⟨hd, ⟨u, hclient.symm⟩, machine, nodeHC, nodeFIP, hinfo.symm, hhealth.symm,
            ?_⟩ h
          rw [← hfip]
          exact hf

/-- `Reconcile` reads the Node, and goes on by the copy that it gets. -/
theorem Reconcile_get (request : Key) :
    ∃ k, Reconcile request = .call (.inl (.get .node request)) k ∧
      (∀ view inst, ¬ HasMachine view inst → Quiet view (k (.ok inst))) ∧
      ∀ inst, deletable inst = false → k (.ok inst) = askConsul inst request := by
  unfold Reconcile
  rw [get_inl_bind]
  refine ⟨_, rfl, fun view inst h => ?_, fun inst hd => ?_⟩
  · dsimp only
    split
    · rw [delete_inl_bind]
      refine ⟨trivial, fun r _ => ?_⟩
      cases r <;> trivial
    · rename_i hd
      exact askConsul_quiet (by simpa using hd) h
  · dsimp only
    rw [hd]
    rfl

/-- The calls of such a program leave an absent Node absent. -/
theorem answer_absent {op : NodeApi.Op} {r : NodeApi.Reply op} (hop : CreatesNone' op)
    (h : view.Answer cached c op r c') :
    Views view op r ∧ (c.find? .node request = none → c'.find? .node request = none) := by
  match op, r, h with
  | .inl op, r, .inl hs => exact ⟨trivial, absent_of_createsNone hs hop⟩
  | .inl op, r, .inr ⟨_, he⟩ => exact ⟨trivial, fun hn => he ▸ hn⟩
  | .inr (.newClient _ _), r, ⟨hr, he⟩ => exact ⟨hr, fun hn => he ▸ hn⟩
  | .inr (.catalogNode _), r, ⟨hr, he⟩ => exact ⟨hr, fun hn => he ▸ hn⟩
  | .inr (.healthNode _), r, ⟨hr, he⟩ => exact ⟨hr, fun hn => he ▸ hn⟩

/-- The reconcile of a copy without a machine. -/
theorem stays_deleted (h : ¬ HasMachine view inst)
    (he : Exec (othersDelete view cached request) (Reconcile request) c tr (.done res) c')
    (hr : Reads request tr inst) : StaysDeleted request tr c' := by
  obtain ⟨k, hk, hquiet, -⟩ := Reconcile_get request
  rw [hk] at he
  obtain ⟨c₁, r, c₂, rest, -, -, hrest, rfl⟩ := he.call_done
  obtain ⟨c₀, rest', e⟩ := hr
  cases e
  rintro ⟨e, hm, -, hn⟩
  have hpersist := Obeys.persists (W := othersDelete view cached request)
    (I := fun c => c.find? .node request = none) (hquiet view inst h) (fun _ _ hn he => he hn)
    (fun _ _ _ _ hop ha => answer_absent hop ha) hrest
  exact hpersist.2 e hm hn

/-! ## With a machine -/

/-- The Node is deleted before the status is updated: it is created again. -/
theorem updateOrCreate_creates {inst : LocalNode} (hkey : inst.key = request)
    (hn : c.find? .node request = none) :
    let created := newObj .node (unversioned (sentNode inst)) (c.version + 1)
    Exec (othersDelete view cached request) (updateOrCreate inst request).inl c
      [⟨c, .inl (.get .node request), .error (.newNotFound .node request.name)⟩,
       ⟨c, .inl (.get .node request), .error (.newNotFound .node request.name)⟩,
       ⟨c, .inl (.create .node (unversioned (sentNode inst))), .ok created⟩]
      (.done (.ok refreshReconcilier)) (c.setTbl .node ((c.tbl .node).put created)) := by
  intro created
  have hget := serve_get_none hn
  have hcreate := serve_create (k := .node) (o := unversioned (sentNode inst)) rfl (hkey ▸ hn)
  exact .call (.inl hget) (.call (.inl hget) (.call (.inl hcreate) (.ret _ _)))

/-- With a machine, the reconcile gets to its end, and the Node may be deleted before. -/
theorem askConsul_ends {machine : ConsulNode} {nodeHC : List HealthCheck} {nodeFIP : String}
    {c₀ : Cluster} {o : Outcome (Except Error Result)} (hclient : ∃ u, view.client = .ok u)
    (hcat : view.catalog inst.spec.hostname = .ok (some ⟨some machine⟩))
    (hhealth : view.health inst.spec.hostname = .ok nodeHC)
    (hfip : nodeFIPOf (view.catalog ("external" ++ inst.spec.hostname)) = .ok nodeFIP)
    (henv : (othersDelete view cached request).env c c₀)
    (hend : Exec (othersDelete view cached request) (updateOrCreate
      { inst with status := machineStatus inst.status machine nodeFIP nodeHC } request).inl
      c₀ tr o c') :
    ∃ asked, Exec (othersDelete view cached request) (askConsul inst request) c (asked ++ tr) o c' := by
  obtain ⟨u, hclient⟩ := hclient
  have hrecord : Exec (othersDelete view cached request)
      (recordMachine inst ⟨some machine⟩ request) c
      (⟨c, .inr (.healthNode inst.spec.hostname), .ok nodeHC⟩ ::
        ⟨c, .inr (.catalogNode ("external" ++ inst.spec.hostname)),
          view.catalog ("external" ++ inst.spec.hostname)⟩ :: tr) o c' := by
    unfold recordMachine
    rw [healthNode_bind]
    refine .call ⟨hhealth.symm, rfl⟩ ?_
    dsimp only
    rw [catalogNode_bind]
    refine .call ⟨rfl, rfl⟩ ?_
    rw [hfip]
    exact .env henv hend
  refine ⟨[⟨c, .inl (.getenv "CONSUL_ADDRESS"), c.env "CONSUL_ADDRESS"⟩,
    ⟨c, .inr (.newClient (consulAddressOf (c.env "CONSUL_ADDRESS")) "automium"), .ok u⟩,
    ⟨c, .inr (.catalogNode inst.spec.hostname), .ok (some ⟨some machine⟩)⟩,
    ⟨c, .inr (.healthNode inst.spec.hostname), .ok nodeHC⟩,
    ⟨c, .inr (.catalogNode ("external" ++ inst.spec.hostname)),
      view.catalog ("external" ++ inst.spec.hostname)⟩], ?_⟩
  unfold askConsul
  rw [getenv_inl_bind]
  refine .call (.inl rfl) ?_
  dsimp only
  rw [newClient_bind]
  refine .call ⟨hclient.symm, rfl⟩ ?_
  dsimp only
  rw [catalogNode_bind]
  exact .call ⟨hcat.symm, rfl⟩ hrecord

/-- Somebody deletes the Node after Consul has been asked, and it comes back. -/
theorem recreated (hread : Readable c cached request inst) (h : HasMachine view inst) :
    ∃ tr res c', Exec (othersDelete view cached request) (Reconcile request) c tr (.done res) c' ∧
      Reads request tr inst ∧ ¬ StaysDeleted request tr c' := by
  obtain ⟨hd, hclient, machine, nodeHC, nodeFIP, hcat, hhealth, hfip⟩ := h
  have hkey : inst.key = request := hread.elim find?_key fun h => h.2
  let c₀ := c.setTbl .node ((c.tbl .node).erase request)
  have hgone : c₀.find? .node request = none := by
    rw [Cluster.find?_setTbl, Table.find?_erase, if_pos rfl]
  have hget : view.Answer cached c (.inl (.get .node request)) (.ok inst) c := by
    rcases hread with hf | hc
    · exact .inl (serve_get hf)
    · exact .inr ⟨.inr ⟨inst, hc.1, hc.2, rfl⟩, rfl⟩
  let inst' : LocalNode := { inst with status := machineStatus inst.status machine nodeFIP nodeHC }
  have hkey' : inst'.key = request := hkey
  have hend := @updateOrCreate_creates view cached request c₀ inst' hkey' hgone
  obtain ⟨asked, hask⟩ := askConsul_ends hclient hcat hhealth hfip (fun _ => hgone) hend
  obtain ⟨k, hk, -, heq⟩ := Reconcile_get request
  rw [hk]
  rw [← heq inst hd] at hask
  refine ⟨_, _, _, .call hget hask, ⟨c, _, rfl⟩, fun hstays => ?_⟩
  have hlast := hstays ⟨_, List.mem_append_right asked List.mem_cons_self, .inl rfl, hgone⟩
  rw [Cluster.find?_setTbl, Table.find?_put] at hlast
  split at hlast
  · cases hlast
  · rename_i hne
    exact hne hkey.symm

/-- A Node that is deleted during its reconcile stays deleted, however the deletion falls, exactly if
the copy that was read is to be deleted anyway or Consul has no machine for it. -/
theorem stays_deleted_iff (hread : Readable c cached request inst) :
    (∀ tr res c', Exec (othersDelete view cached request) (Reconcile request) c tr (.done res) c' →
      Reads request tr inst → StaysDeleted request tr c') ↔ ¬ HasMachine view inst := by
  constructor
  · intro hstays h
    obtain ⟨tr, res, c', he, hr, hn⟩ := recreated hread h
    exact hn (hstays tr res c' he hr)
  · exact fun h _ _ _ he hr => stays_deleted h he hr

end

/-! ### A Node that comes back -/

/-- A Node with a machine. -/
def webNode : Node where
  metadata := { name := "web-node-0", ns := "default", uid := 1, resourceVersion := 1 }
  spec := { hostname := "nginx-0" }
  status := {}

def webNodeStore : Cluster := Cluster.empty.setTbl .node (Table.empty.put webNode)

/-- Consul with the machine. -/
def webView : ConsulView where
  client := .ok ()
  catalog hostname := .ok (if hostname = "nginx-0" then
    some ⟨some { id := "a1", node := "nginx-0", address := "10.0.0.7" }⟩ else none)
  health _ := .ok []

/-- Consul without it. -/
def emptyView : ConsulView := { webView with catalog := fun _ => .ok none }

theorem webNode_readable : Readable webNodeStore ∅ webNode.key webNode :=
  .inl (by decide)

theorem stays_deleted_empty :
    deletable webNode = false ∧ ∀ tr res c',
      Exec (othersDelete emptyView ∅ webNode.key) (Reconcile webNode.key) webNodeStore tr
        (.done res) c' →
      Reads webNode.key tr webNode → StaysDeleted webNode.key tr c' := by
  refine ⟨rfl, (stays_deleted_iff webNode_readable).mpr ?_⟩
  rintro ⟨-, -, machine, nodeHC, nodeFIP, hcat, -⟩
  cases hcat

/-- The Node is deleted while Consul is asked about its machine, and created again. -/
theorem deleted_node_returns :
    ¬ ∀ view cached request c tr res c',
      Exec (othersDelete view cached request) (Reconcile request) c tr (.done res) c' →
      StaysDeleted request tr c' := by
  intro h
  have hmachine : HasMachine webView webNode := ⟨rfl, ⟨(), rfl⟩, _, _, _, rfl, rfl, rfl⟩
  obtain ⟨tr, res, c', he, -, hn⟩ := recreated webNode_readable hmachine
  exact hn (h _ _ _ _ _ _ _ he)

end ReconcileNode

end Automium
