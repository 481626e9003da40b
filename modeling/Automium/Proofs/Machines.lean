import Automium.Api.Versions
import Automium.Controller.Node
import Automium.Effect.Pool
import Automium.Proofs.ModuleCalls
import Mathlib.Data.Set.Basic
import Mathlib.Order.Defs.PartialOrder

/-!
# Nodes are deleted after their machines

A Node may be deleted only while Consul has no machine under its hostname. The Node controller
decides by the status that an earlier reconcile recorded, so a machine that registers after that
reconcile asked Consul is not seen.

`Plant` is the state of a plant: the stored objects, Consul's catalog, and a journal of the machines
that registered and of the hostnames that Consul had no machine for. Any number of reconciles of the
Node controller and of the Module controller run in it at the same time (`plantSys`), machines come
and go between any two calls, calls fail, and a read may return an old copy.

* `Plant.know` is what the programs may have read and what Consul has answered. A status without a
  machine is written only after Consul said so (`Reconcile_calls`).
* `deleted_absent`: a run deletes no Node that has a machine, if before each deletion no machine has
  registered under the hostname after Consul last said that it has none, and no Node of the same name
  with another hostname was marked and recorded without a machine.
-/

namespace Automium

open Data Effect

/-! ## The plant -/

/-- What is written down in the journal. -/
inductive PlantEvent where
  /-- A machine registered under the hostname. -/
  | registered (hostname : String)
  /-- Consul answered that the hostname has no machine. -/
  | absent (hostname : String)
  deriving DecidableEq

/-- The state (module doc). -/
structure Plant where
  cluster : Cluster
  /-- The machine that is registered under a hostname. -/
  catalog : String → Option ConsulNode
  journal : List PlantEvent
  /-- The Nodes that were stored at some time, which a cache may still return. -/
  past : Set Node

/-- What may be known: the Nodes that were stored, and the hostnames that Consul had no machine
for. -/
structure Knowledge where
  nodes : Set Node
  absent : Set String

/-- More is known. -/
instance : Preorder Knowledge where
  le K K' := (∀ node ∈ K.nodes, node ∈ K'.nodes) ∧ ∀ hostname ∈ K.absent, hostname ∈ K'.absent
  le_refl _ := ⟨fun _ h => h, fun _ h => h⟩
  le_trans _ _ _ h h' := ⟨fun x hx => h'.1 x (h.1 x hx), fun x hx => h'.2 x (h.2 x hx)⟩

namespace Plant

/-- `p` with other objects stored. -/
def store (p : Plant) (c : Cluster) : Plant :=
  { p with cluster := c, past := p.past ∪ {node | node ∈ c.tbl .node} }

/-- What Consul answers for a hostname. -/
def lookup (p : Plant) (hostname : String) : Option CatalogNode :=
  (p.catalog hostname).map fun machine => ⟨some machine⟩

/-- `p` after that answer. -/
def looked (p : Plant) (hostname : String) : Plant :=
  match p.catalog hostname with
  | none => { p with journal := p.journal ++ [.absent hostname] }
  | some _ => p

/-- What the machines, the users and the other controllers do. They leave the Nodes alone, or remove
some. -/
inductive Env (p : Plant) : Plant → Prop
  | register (hostname : String) {machine : ConsulNode} : machine.id ≠ nonExistentMachine →
      Env p { p with
        catalog := Function.update p.catalog hostname (some machine),
        journal := p.journal ++ [.registered hostname] }
  | deregister (hostname : String) :
      Env p { p with catalog := Function.update p.catalog hostname none }
  | others {c : Cluster} : Renews p.cluster c → (∀ node ∈ c.tbl .node, node ∈ p.cluster.tbl .node) →
      Env p (p.store c)

/-- A read from a cache. -/
def Stale (p : Plant) : (op : Request) → op.Reply → Prop
  | .get .node key, r => ∃ node ∈ p.past, node.key = key ∧ r = .ok node
  | _, _ => False

/-- The answers of the API server and of Consul. -/
def Answer (p : Plant) : (op : NodeApi.Op) → NodeApi.Reply op → Plant → Prop
  | .inl op, r, p' =>
    (∃ c, Serves p.cluster op r c ∧ p' = p.store c) ∨ (op.Failed r ∨ p.Stale op r) ∧ p' = p
  | .inr (.catalogNode hostname), r, p' =>
    r = .ok (p.lookup hostname) ∧ p' = p.looked hostname ∨ (∃ e, r = .error e) ∧ p' = p
  | .inr _, _, p' => p' = p

/-- The plant at the start: nothing was asked yet, so no Node is recorded without a machine. -/
structure Init (p : Plant) : Prop where
  bounded : p.cluster.Bounded
  past : p.past = {node | node ∈ p.cluster.tbl .node}
  unrecorded : ∀ node ∈ p.past, node.status.nodeProperties.id ≠ nonExistentMachine
  journal : p.journal = []
  ids : ∀ hostname machine, p.catalog hostname = some machine → machine.id ≠ nonExistentMachine

/-- What is known of a plant. -/
def know (p : Plant) : Knowledge :=
  ⟨p.past, {hostname | .absent hostname ∈ p.journal}⟩

/-- The invariant. -/
structure Inv (p : Plant) : Prop where
  bounded : p.cluster.Bounded
  stored : ∀ node ∈ p.cluster.tbl .node, node ∈ p.past
  known : ∀ node ∈ p.past, Known (k := .node) p.cluster node
  /-- A status without a machine rests on an answer of Consul. -/
  recorded : ∀ node ∈ p.past, node.status.nodeProperties.id = nonExistentMachine →
    node.spec.hostname ∈ p.know.absent
  /-- A machine that is there registered after the last answer that there is none. -/
  later : ∀ hostname, p.catalog hostname ≠ none → .absent hostname ∈ p.journal →
    ∃ before after, p.journal = before ++ .registered hostname :: after ∧
      .absent hostname ∈ before ∧ .absent hostname ∉ after
  ids : ∀ hostname machine, p.catalog hostname = some machine → machine.id ≠ nonExistentMachine

end Plant

/-- The world of the controllers. -/
def plantWorld : World NodeApi Plant where
  env := Plant.Env
  answer := Plant.Answer

/-- The programs that run: reconciles of Nodes, and reconciles of Modules, which add Nodes and mark
the surplus ones. -/
def plantStarts (p : NodeCtl (Except Error Result)) : Prop :=
  (∃ request, p = ReconcileNode.Reconcile request) ∨
    ∃ sort request, p = (ReconcileModule.Reconcile sort request).inl

/-- The plant with its controllers. -/
abbrev plantSys : Sys (Pool NodeApi Plant (Except Error Result)) Pool.Move :=
  Pool.sys plantWorld plantStarts Plant.Init

namespace ReconcileNode

/-! ## The calls of the two controllers -/

/-- The Nodes are among `past`. -/
def OldNode (past : Set Node) : (k : Kind) → k.Obj → Prop
  | .node, node => node ∈ past
  | _, _ => True

/-- The replies, given what is known afterwards. -/
def Heard (K : Knowledge) : (op : NodeApi.Op) → NodeApi.Reply op → Prop
  | .inl op, r => op.Returns (OldNode K.nodes) r
  | .inr (.catalogNode hostname), r => (r = .ok none → hostname ∈ K.absent) ∧
    ∀ machine, r = .ok (some ⟨some machine⟩) → machine.id ≠ nonExistentMachine
  | .inr _, _ => True

/-- The calls of a reconcile of a Node: it deletes a Node that is marked and recorded without a
machine, and it records that only if Consul said so. -/
def NodeCall (K : Knowledge) : Request → Prop
  | .get .node _ | .create .node _ | .getenv _ => True
  | .delete .node key => ∃ node ∈ K.nodes, node.key = key ∧ deletable node = true
  | .updateStatus .node o => ∃ node ∈ K.nodes, ∃ status : NodeStatus, o = { node with status := status } ∧
    (status.nodeProperties.id = nonExistentMachine → node.spec.hostname ∈ K.absent)
  | _ => False

/-- The calls of a reconcile of a Module. -/
def ModuleCall (past : Set Node) (op : Request) : Prop :=
  (∃ request, op = .get .module request) ∨ ∃ inst, ReconcileModule.MayCall (OldNode past) inst op

/-- The calls of the two controllers. -/
def PlantCall (K : Knowledge) : NodeApi.Op → Prop
  | .inl op => NodeCall K op ∨ ModuleCall K.nodes op
  | .inr _ => True

section

variable {K K' : Knowledge} {inst : Node} {status : LocalStatus} {request : Key}

theorem Heard.mono (h : K ≤ K') {op : NodeApi.Op} {r : NodeApi.Reply op} (hr : Heard K op r) :
    Heard K' op r := by
  match op, r, hr with
  | .inl op, r, hr =>
    refine Request.Returns.mono (fun k o ho => ?_) hr
    cases k with
    | node => exact h.1 _ ho
    | service | module | job | pod | addon | application => trivial
  | .inr (.catalogNode hostname), r, hr => exact ⟨fun e => h.2 _ (hr.1 e), hr.2⟩
  | .inr (.newClient _ _), _, _ | .inr (.healthNode _), _, _ => trivial

/-- The programs that make only the calls of a reconcile of a Node. -/
abbrev NodeDoes (K : Knowledge) {α : Type} (p : Ctl α) : Prop :=
  Obeys (S := Api) (Request.Returns (OldNode K.nodes)) (NodeCall K) p fun _ => True

theorem NodeDoes.of_uses {α : Type} {p : Ctl α} (h : Uses (S := Api) (NodeCall K) p) :
    NodeDoes K p :=
  Obeys.mono h (fun _ _ _ => trivial) (fun _ hop => hop) fun _ h => h

theorem saveStatus_calls (hin : inst ∈ K.nodes)
    (hid : status.nodeProperties.id = nonExistentMachine → inst.spec.hostname ∈ K.absent) :
    NodeDoes K (saveStatus inst status request) :=
  .of_uses (saveStatus_uses trivial ⟨inst, hin, sent status, rfl, hid⟩)

theorem updateOrCreate_calls (hin : inst ∈ K.nodes)
    (hid : status.nodeProperties.id = nonExistentMachine → inst.spec.hostname ∈ K.absent) :
    NodeDoes K (updateOrCreate { inst with status := status } request) :=
  .of_uses (updateOrCreate_uses trivial ⟨inst, hin, sent status, rfl, hid⟩ trivial)

/-- Both controllers' view of a program. -/
theorem NodeDoes.plantCalls {α : Type} {p : Ctl α} (h : NodeDoes K p) :
    Obeys (S := NodeApi) (Heard K) (PlantCall K) p.inl fun _ => True :=
  Obeys.inl (h.mono (fun _ _ hr => hr) (fun _ hop => .inl hop) fun _ h => h)

theorem recordMachine_calls (hin : inst ∈ K.nodes) {nodeInfo : CatalogNode}
    (hid : ∀ machine, nodeInfo.node = some machine → machine.id ≠ nonExistentMachine) :
    Obeys (S := NodeApi) (Heard K) (PlantCall K) (recordMachine inst nodeInfo request)
      fun _ => True := by
  unfold recordMachine
  rw [healthNode_bind]
  refine ⟨trivial, fun r _ => ?_⟩
  cases r with
  | error e => trivial
  | ok nodeHC =>
    dsimp only
    rw [catalogNode_bind]
    refine ⟨trivial, fun fip _ => ?_⟩
    dsimp only
    split
    · trivial
    · trivial
    · rename_i machine _ hm
      exact (updateOrCreate_calls hin fun e => absurd e (hid machine hm)).plantCalls

theorem askConsul_calls (hin : inst ∈ K.nodes) :
    Obeys (S := NodeApi) (Heard K) (PlantCall K) (askConsul inst request) fun _ => True := by
  unfold askConsul
  rw [getenv_inl_bind]
  refine ⟨.inl trivial, fun value _ => ?_⟩
  dsimp only
  rw [newClient_bind]
  refine ⟨trivial, fun r _ => ?_⟩
  cases r with
  | error e =>
    refine (saveStatus_calls hin fun h => ?_).plantCalls
    exact absurd h (by decide : consulConnectionError ≠ nonExistentMachine)
  | ok =>
    dsimp only
    rw [catalogNode_bind]
    refine ⟨trivial, fun r hr => ?_⟩
    match r, hr with
    | .error e, _ => trivial
    | .ok none, hr => exact (saveStatus_calls hin fun _ => hr.1 rfl).plantCalls
    | .ok (some ⟨node⟩), hr =>
      refine recordMachine_calls hin fun machine hm => ?_
      cases hm
      exact hr.2 machine rfl

/-- The calls of `Reconcile`. -/
theorem Reconcile_calls (K : Knowledge) (request : Key) :
    Obeys (S := NodeApi) (Heard K) (PlantCall K) (Reconcile request) fun _ => True := by
  unfold Reconcile
  rw [get_inl_bind]
  refine ⟨.inl trivial, fun r hr => ?_⟩
  cases r with
  | error e =>
    dsimp only
    split <;> trivial
  | ok inst =>
    have hin : inst ∈ K.nodes := (hr inst rfl).1
    dsimp only
    split
    · rename_i hd
      rw [delete_inl_bind]
      refine ⟨.inl ⟨inst, hin, rfl, hd⟩, fun r _ => ?_⟩
      cases r <;> trivial
    · exact askConsul_calls hin

/-- The programs of the plant, whatever is known. -/
theorem calls_of_starts {p : NodeCtl (Except Error Result)} (h : plantStarts p)
    (K : Knowledge) : Obeys (S := NodeApi) (Heard K) (PlantCall K) p fun _ => True := by
  obtain ⟨request, rfl⟩ | ⟨sort, request, rfl⟩ := h
  · exact Reconcile_calls K request
  · refine Obeys.inl ((ReconcileModule.Reconcile_calls (P := OldNode K.nodes) sort request).mono
      (fun _ _ hr => hr) (fun op hop => ?_) fun _ h => h)
    rcases hop with rfl | ⟨inst, -, -, hop⟩
    · exact .inr (.inl ⟨request, rfl⟩)
    · exact .inr (.inr ⟨inst, hop⟩)

end

/-! ## The invariant -/

section

variable {p p' : Plant} {c : Cluster} {op : Request} {r : op.Reply}

/-- A Node that the controllers write is recorded without a machine only if Consul said so. -/
theorem recorded_of_call (hp : p.Inv) (hop : PlantCall p.know (.inl op)) (h : Serves p.cluster op r c) :
    ∀ node ∈ c.tbl .node, node ∈ p.past ∨
      (node.status.nodeProperties.id = nonExistentMachine → node.spec.hostname ∈ p.know.absent) := by
  rcases h.cases with rfl | ⟨k, o, o', hw, rfl, hcase⟩ | ⟨k, key, -, rfl⟩
  · exact fun node hn => .inl (hp.stored node hn)
  · by_cases hk : k = .node
    · subst hk
      rw [Cluster.setTbl_self]
      intro node hn
      rcases Table.mem_put.mp hn with rfl | ⟨hn, -⟩
      · refine .inr fun hid => ?_
        rcases hcase with ⟨rfl, -, rfl⟩ | ⟨old, rfl, hf, hv, rfl⟩ | ⟨old, rfl, hf, hv, rfl⟩
        · exact absurd hid (by decide : ("" : String) ≠ nonExistentMachine)
        · -- Only a Module's reconcile updates a Node: it marks the copy that is stored.
          obtain hn | ⟨request, he⟩ | ⟨inst, item, date, hitem, rfl⟩ := hop
          · exact hn.elim
          · cases he
          · obtain rfl := (hp.known item hitem).eq hf hv
            exact hp.recorded old hitem hid
        · obtain ⟨copy, hcopy, status, rfl, hst⟩ | ⟨request, he⟩ | ⟨inst, hm⟩ := hop
          · obtain rfl := (hp.known copy hcopy).eq hf hv
            exact hst hid
          · cases he
          · exact hm.elim
      · exact .inl (hp.stored node hn)
    · rw [Cluster.setTbl_ne _ _ fun e => hk e.symm]
      exact fun node hn => .inl (hp.stored node hn)
  · exact fun node hn => .inl (hp.stored node (mem_of_erase hn))

/-- Objects are stored: what was known stays known. -/
theorem inv_store (hp : p.Inv) (hc : Renews p.cluster c)
    (hnew : ∀ node ∈ c.tbl .node, node ∈ p.past ∨
      (node.status.nodeProperties.id = nonExistentMachine → node.spec.hostname ∈ p.know.absent)) :
    (p.store c).Inv where
  bounded := hc.bounded hp.bounded
  stored node hn := .inr hn
  known node hn := by
    rcases hn with hn | hn
    · exact (hp.known node hn).renews hc
    · exact known_of_find? (hc.bounded hp.bounded) (Table.find?_of_mem hn)
  recorded node hn hid := by
    rcases hn with hn | hn
    · exact hp.recorded node hn hid
    · rcases hnew node hn with hn | hn
      · exact hp.recorded node hn hid
      · exact hn hid
  later := hp.later
  ids := hp.ids

theorem know_store (p : Plant) (c : Cluster) : p.know ≤ (p.store c).know :=
  ⟨fun _ h => .inl h, fun _ h => h⟩

theorem know_looked (p : Plant) (hostname : String) : p.know ≤ (p.looked hostname).know := by
  unfold Plant.looked
  split
  · exact ⟨fun _ h => h, fun _ h => List.mem_append_left _ h⟩
  · exact le_rfl

/-- The journal grows by an entry about another hostname. -/
theorem later_append {journal : List PlantEvent} {hostname : String} {e : PlantEvent}
    (h : ∃ before after, journal = before ++ .registered hostname :: after ∧
      .absent hostname ∈ before ∧ .absent hostname ∉ after) (he : .absent hostname ≠ e) :
    ∃ before after, journal ++ [e] = before ++ .registered hostname :: after ∧
      .absent hostname ∈ before ∧ .absent hostname ∉ after := by
  obtain ⟨before, after, rfl, hbefore, hafter⟩ := h
  refine ⟨before, after ++ [e], by simp, hbefore, fun hmem => ?_⟩
  rcases List.mem_append.mp hmem with hmem | hmem
  · exact hafter hmem
  · exact he (List.mem_singleton.mp hmem)

/-- Consul answers, and what is known about the hostnames grows. -/
theorem inv_looked (hp : p.Inv) (hostname : String) : (p.looked hostname).Inv := by
  have hle := know_looked p hostname
  unfold Plant.looked at hle ⊢
  split
  · rename_i hnone
    rw [hnone] at hle
    refine ⟨hp.bounded, hp.stored, hp.known, fun node hn hid => hle.2 _ (hp.recorded node hn hid),
      fun h hcat hmem => ?_, hp.ids⟩
    have hne : PlantEvent.absent h ≠ .absent hostname := by
      rintro ⟨⟩
      exact hcat hnone
    have hbefore := (List.mem_append.mp hmem).resolve_right fun hm => hne (List.mem_singleton.mp hm)
    exact later_append (hp.later h hcat hbefore) hne
  · exact hp

theorem inv_env (hp : p.Inv) (h : p.Env p') : p'.Inv ∧ p.know ≤ p'.know := by
  cases h with
  | @register hostname machine hid =>
    have hmem : ∀ h, .absent h ∈ p.journal ++ [.registered hostname] → .absent h ∈ p.journal := by
      simp
    refine ⟨⟨hp.bounded, hp.stored, hp.known,
      fun node hn hn' => List.mem_append_left _ (hp.recorded node hn hn'), fun h hcat habsent => ?_,
      fun h m hs => ?_⟩, ⟨fun _ h => h, fun _ h => List.mem_append_left _ h⟩⟩
    · rcases eq_or_ne h hostname with rfl | hne
      · exact ⟨p.journal, [], rfl, hmem _ habsent, List.not_mem_nil⟩
      · dsimp only at hcat
        rw [Function.update_of_ne hne] at hcat
        exact later_append (hp.later h hcat (hmem _ habsent)) nofun
    · dsimp only at hs
      rw [Function.update_apply] at hs
      split at hs
      · cases hs
        exact hid
      · exact hp.ids h m hs
  | deregister hostname =>
    have hsub : ∀ h machine, Function.update p.catalog hostname none h = some machine →
        p.catalog h = some machine := by
      intro h machine he
      rw [Function.update_apply] at he
      split at he
      · cases he
      · exact he
    refine ⟨⟨hp.bounded, hp.stored, hp.known, hp.recorded, fun h hcat => ?_,
      fun h m hs => hp.ids h m (hsub h _ hs)⟩, le_rfl⟩
    obtain ⟨machine, hm⟩ := Option.ne_none_iff_exists'.mp hcat
    exact hp.later h (by rw [hsub h machine hm]; simp)
  | @others c hc hn =>
    exact ⟨inv_store hp hc fun node hm => .inl (hp.stored node (hn node hm)), know_store p c⟩

/-- A stale read returns a Node that was stored. -/
theorem stale_returns (h : p.Stale op r) : op.Returns (OldNode p.past) r := by
  cases op with
  | get k key =>
    cases k with
    | node =>
      obtain ⟨node, hn, hkey, rfl⟩ := h
      intro o e
      cases e
      exact ⟨hn, hkey⟩
    | service | module | job | pod | addon | application => exact h.elim
  | list | create | update | updateStatus | delete | now | getenv | slack => exact h.elim

/-- Each answer keeps the invariant, and is covered by what is known after it. -/
theorem inv_answer (hp : p.Inv) {op : NodeApi.Op} {r : NodeApi.Reply op} (hop : PlantCall p.know op)
    (h : p.Answer op r p') : p'.Inv ∧ p.know ≤ p'.know ∧ Heard p'.know op r := by
  match op, r, hop, h with
  | .inl op, r, hop, .inl ⟨c, hs, he⟩ =>
    subst he
    refine ⟨inv_store hp hs.renews (recorded_of_call hp hop hs), know_store p c, ?_⟩
    refine Request.Returns.mono (P := OldNode p.past) (fun k o ho => ?_) (hs.returns fun k o ho => ?_)
    · cases k with
      | node => exact .inl ho
      | service | module | job | pod | addon | application => trivial
    · cases k with
      | node => exact hp.stored o ho
      | service | module | job | pod | addon | application => trivial
  | .inl op, r, hop, .inr ⟨.inl hf, he⟩ =>
    subst he
    exact ⟨hp, le_rfl, hf.returns⟩
  | .inl op, r, hop, .inr ⟨.inr hst, he⟩ =>
    subst he
    exact ⟨hp, le_rfl, stale_returns hst⟩
  | .inr (.catalogNode hostname), r, _, .inl ⟨hr, he⟩ =>
    subst he hr
    refine ⟨inv_looked hp hostname, know_looked p hostname, fun hnone => ?_, fun machine hm => ?_⟩
    · have hcat : p.catalog hostname = none := by
        simpa [Plant.lookup] using hnone
      unfold Plant.looked
      rw [hcat]
      exact List.mem_append_right _ List.mem_cons_self
    · simp only [Plant.lookup, Except.ok.injEq, Option.map_eq_some_iff] at hm
      obtain ⟨_, hcat, hm⟩ := hm
      cases hm
      exact hp.ids hostname _ hcat
  | .inr (.catalogNode hostname), r, _, .inr ⟨⟨e, hr⟩, he⟩ =>
    subst he hr
    exact ⟨hp, le_rfl, nofun, nofun⟩
  | .inr (.newClient _ _), r, _, he =>
    cases he
    exact ⟨hp, le_rfl, trivial⟩
  | .inr (.healthNode _), r, _, he =>
    cases he
    exact ⟨hp, le_rfl, trivial⟩

theorem inv_init (h : p.Init) : p.Inv where
  bounded := h.bounded
  stored node hn := by rw [h.past]; exact hn
  known node hn := by
    rw [h.past] at hn
    exact known_of_find? h.bounded (Table.find?_of_mem hn)
  recorded node hn hid := absurd hid (h.unrecorded node hn)
  later hostname _ habsent := by
    rw [h.journal] at habsent
    cases habsent
  ids := h.ids

end

/-! ## Deletions -/

/-- A step of the plant. -/
abbrev PlantTrans := Trans (Pool NodeApi Plant (Except Error Result)) Pool.Move

/-- A controller's call deletes the Node. -/
def Deletes (t : PlantTrans) (node : Node) : Prop :=
  t.lbl = .call ∧ t.pre.state.cluster.find? .node node.key = some node ∧
    t.post.state.cluster.find? .node node.key = none

/-- A Node is deleted only while its hostname has no machine. -/
def DeletesAbsent (t : PlantTrans) : Prop :=
  ∀ node, Deletes t node → t.pre.state.catalog node.spec.hostname = none

/-- A machine registers after Consul has answered that the hostname has none, only if Consul answers
so again later. -/
def Answered (journal : List PlantEvent) (hostname : String) : Prop :=
  ∀ before after, journal = before ++ .registered hostname :: after →
    .absent hostname ∈ before → .absent hostname ∈ after

/-- Before a Node is deleted, Consul has answered again after each registration under the hostname,
and no other Node of the name was marked and recorded without a machine. -/
def AsksAgain (t : PlantTrans) : Prop :=
  ∀ node, Deletes t node → Answered t.pre.state.journal node.spec.hostname ∧
    ∀ copy ∈ t.pre.state.past, copy.key = node.key → deletable copy = true →
      copy.spec.hostname = node.spec.hostname

/-- Every pool of a run has the invariant. -/
abbrev PlantHolds : Pool NodeApi Plant (Except Error Result) → Prop :=
  Pool.Holds Plant.Inv (Pool.Learns Plant.know Heard PlantCall)

section

variable {t : PlantTrans} {node : Node} {ts : List PlantTrans}
  {p : Pool NodeApi Plant (Except Error Result)}

theorem holds_step (h : plantSys.step t.pre t.lbl t.post) (hp : PlantHolds t.pre) :
    PlantHolds t.post :=
  Pool.Step.learns (fun _ _ _ _ hK hr => hr.mono hK) (fun _ hq K => calls_of_starts hq K)
    (fun _ _ _ _ hs hop ha => inv_answer hs hop ha) (fun _ _ hs he => inv_env hs he) h hp

/-- A call that removes a stored object is its deletion. -/
theorem delete_of_removed {c c' : Cluster} {op : Request} {r : op.Reply} (h : Serves c op r c')
    (hf : c.find? .node node.key = some node) (hn : c'.find? .node node.key = none) :
    op = .delete .node node.key := by
  rcases h.find?_cases .node node.key with hsame | ⟨hop, -⟩ | ⟨o, rfl, hkey⟩ | ⟨-, hsome⟩
  · exact nomatch hf.symm.trans (hsame.symm.trans hn)
  · exact hop
  · rcases h.create_cases with ⟨rfl, -⟩ | ⟨hnone, -⟩
    · exact nomatch hf.symm.trans hn
    · rw [hkey] at hnone
      exact nomatch hf.symm.trans hnone
  · exact absurd hn hsome

/-- A Node is deleted for a copy that was marked and recorded without a machine. -/
theorem deletes_spec (h : plantSys.step t.pre t.lbl t.post) (hp : PlantHolds t.pre)
    (hd : Deletes t node) :
    ∃ copy ∈ t.pre.state.past, copy.key = node.key ∧ deletable copy = true := by
  obtain ⟨pre, lbl, post⟩ := t
  obtain ⟨rfl, hf, hn⟩ := hd
  cases h with
  | @call s s' ps qs op k r hans =>
    have hcall : PlantCall s.know op := by
      have hq := hp.2 (.call op k) (List.mem_append_right _ List.mem_cons_self)
      exact (hq _ le_rfl).1
    match op, r, hans with
    | .inl op, r, .inl ⟨c, hs, he⟩ =>
      subst he
      obtain rfl := delete_of_removed hs hf hn
      obtain ⟨copy, hc, hkey, hdel⟩ | ⟨request, he⟩ | ⟨inst, hm⟩ := hcall
      · exact ⟨copy, hc, hkey, hdel⟩
      · cases he
      · exact hm.elim
    | .inl op, r, .inr ⟨_, he⟩ =>
      subst he
      exact nomatch hf.symm.trans hn
    | .inr (.catalogNode hostname), r, .inl ⟨_, he⟩ =>
      have hsame : (s.looked hostname).cluster = s.cluster := by
        unfold Plant.looked
        split <;> rfl
      subst he
      dsimp only at hn hf
      rw [hsame] at hn
      exact nomatch hf.symm.trans hn
    | .inr (.catalogNode hostname), r, .inr ⟨_, he⟩ =>
      subst he
      exact nomatch hf.symm.trans hn
    | .inr (.newClient _ _), r, he | .inr (.healthNode _), r, he =>
      cases he
      exact nomatch hf.symm.trans hn

theorem deletesAbsent_of_asksAgain (h : plantSys.step t.pre t.lbl t.post) (hp : PlantHolds t.pre)
    (ht : AsksAgain t) : DeletesAbsent t := by
  intro node hd
  obtain ⟨hanswered, hhost⟩ := ht node hd
  obtain ⟨copy, hc, hkey, hdel⟩ := deletes_spec h hp hd
  have hid : copy.status.nodeProperties.id = nonExistentMachine := by
    simp only [deletable, Bool.and_eq_true, decide_eq_true_eq] at hdel
    exact hdel.2
  -- The copy was recorded after Consul had answered for the hostname.
  have habsent : .absent node.spec.hostname ∈ t.pre.state.journal := by
    rw [← hhost copy hc hkey hdel]
    exact hp.1.recorded copy hc hid
  by_contra hcat
  obtain ⟨before, after, hj, hbefore, hafter⟩ := hp.1.later _ hcat habsent
  exact hafter (hanswered before after hj hbefore)

/-- Nodes are deleted after their machines (module doc). -/
theorem deleted_absent (h : Run plantSys ts p) : ∀ t ∈ ts, AsksAgain t → DeletesAbsent t := by
  have hinit : ∀ p, plantSys.init p → PlantHolds p := fun p hp =>
    ⟨inv_init hp.1, by rw [hp.2]; nofun⟩
  intro t ht hasks
  obtain ⟨hstep, hpre, -⟩ := (h.invariant' hinit fun t ht hp => holds_step ht hp).2 t ht
  exact deletesAbsent_of_asksAgain hstep hpre hasks

end

/-! ### A machine that boots late -/

/-- The plant when nothing fails and every read is current. -/
def plantServe (p : Plant) : (op : NodeApi.Op) → NodeApi.Reply op × Plant
  | .inl op => ((serve p.cluster op).1, p.store (serve p.cluster op).2)
  | .inr (.newClient _ _) => (.ok (), p)
  | .inr (.catalogNode hostname) => (.ok (p.lookup hostname), p.looked hostname)
  | .inr (.healthNode _) => (.ok [], p)

theorem plantServe_answer (p : Plant) (op : NodeApi.Op) :
    plantWorld.answer p op (plantServe p op).1 (plantServe p op).2 := by
  match op with
  | .inl op => exact .inl ⟨_, serves_serve p.cluster op, rfl⟩
  | .inr (.catalogNode _) => exact .inl ⟨rfl, rfl⟩
  | .inr (.newClient _ _) | .inr (.healthNode _) => rfl

/-- The same, but the API server refuses status updates. -/
def plantRefuse (p : Plant) : (op : NodeApi.Op) → NodeApi.Reply op × Plant
  | .inl (.updateStatus _ _) => (.error (.new "refused"), p)
  | op => plantServe p op

theorem plantRefuse_answer (p : Plant) (op : NodeApi.Op) :
    plantWorld.answer p op (plantRefuse p op).1 (plantRefuse p op).2 := by
  match op with
  | .inl (.updateStatus _ _) => exact .inr ⟨.inl ⟨_, rfl⟩, rfl⟩
  | .inl (.get _ _) | .inl (.list _ _) | .inl (.create _ _) | .inl (.update _ _) | .inl (.delete _ _)
  | .inl .now | .inl (.getenv _) | .inl (.slack _) | .inr _ => exact plantServe_answer p _

/-- A Node that was marked before its machine has registered. -/
def bootingNode : Node :=
  ReconcileModule.marked (ReconcileModule.newNode "web" "default" "nginx-0" 0)
    Cluster.empty.time

/-- A plant with this Node. -/
def bootingPlant : Plant where
  cluster := Cluster.empty.setTbl .node (Table.empty.put bootingNode)
  catalog _ := none
  journal := []
  past := {bootingNode}

theorem bootingPlant_mem {node : Node} :
    node ∈ bootingPlant.cluster.tbl .node ↔ node = bootingNode := by
  show node ∈ (Cluster.empty.setTbl .node (Table.empty.put bootingNode)).tbl .node ↔ _
  rw [Cluster.setTbl_self, Table.mem_put]
  exact or_iff_left fun h => Table.not_mem_empty h.1

theorem bootingPlant_init : bootingPlant.Init where
  bounded := bounded_empty.put (Nat.zero_le _)
  past := Set.ext fun _ => bootingPlant_mem.symm
  unrecorded node hn := by
    cases hn
    decide
  journal := rfl
  ids _ _ h := nomatch h

theorem starts_booting : plantStarts (Reconcile bootingNode.key) := .inl ⟨_, rfl⟩

/-- Its machine. -/
def bootedMachine : ConsulNode := { id := "a1", node := "nginx-0", address := "10.0.0.7" }

/-- The machine registers. -/
def booted (p : Plant) : Plant where
  cluster := p.cluster
  catalog := Function.update p.catalog "nginx-0" (some bootedMachine)
  journal := p.journal ++ [.registered "nginx-0"]
  past := p.past

theorem booted_env (p : Plant) : p.Env (booted p) :=
  @Plant.Env.register p "nginx-0" bootedMachine (by decide)

/-- The machine is gone. -/
def shutDown (p : Plant) : Plant where
  cluster := p.cluster
  catalog := Function.update p.catalog "nginx-0" none
  journal := p.journal
  past := p.past

theorem shutDown_env (p : Plant) : p.Env (shutDown p) := .deregister "nginx-0"

/-- The plant after a reconcile of the Node. -/
def reconciled (p : Plant) : Plant := (run plantServe (Reconcile bootingNode.key) p).final

/-- Consul was asked before the machine had registered, but its answer was not recorded. -/
def askedPlant : Plant := (run plantRefuse (Reconcile bootingNode.key) bootingPlant).final

/-- Then the machine was found, and later it was gone. -/
def gonePlant : Plant := reconciled (shutDown (reconciled (booted askedPlant)))

/-- The Node as it is recorded. -/
def recordedNode (version : Nat) : Node :=
  statusObj .node bootingNode
    { bootingNode with status := placeholder nonExistentMachine nonExistentMachine } version

theorem gonePlant_find? : gonePlant.cluster.find? .node bootingNode.key = some (recordedNode 3) :=
  rfl

theorem gonePlant_journal : gonePlant.journal = [.absent "nginx-0", .registered "nginx-0",
    .absent "externalnginx-0", .absent "nginx-0"] := rfl

/-- A Node is remembered when it is stored. -/
theorem past_of_answer {p p' : Plant} {op : NodeApi.Op} {r : NodeApi.Reply op}
    (h : p.Answer op r p') : p'.past ⊆ p.past ∪ {node | node ∈ p'.cluster.tbl .node} := by
  match op, r, h with
  | .inl op, r, .inl ⟨c, _, he⟩ =>
    subst he
    exact subset_rfl
  | .inr (.catalogNode hostname), r, .inl ⟨_, he⟩ =>
    have hsame : (p.looked hostname).past = p.past := by
      unfold Plant.looked
      split <;> rfl
    subst he
    exact fun node hn => .inl (hsame ▸ hn)
  | .inl op, r, .inr ⟨_, he⟩ | .inr (.catalogNode _), r, .inr ⟨_, he⟩ | .inr (.newClient _ _), r, he
  | .inr (.healthNode _), r, he =>
    subst he
    exact Set.subset_union_left

/-- What holds of the Nodes that a run stores, and of those before. -/
theorem past_of_run {h : Plant → (op : NodeApi.Op) → NodeApi.Reply op × Plant}
    (hW : ∀ p op, plantWorld.answer p op (h p op).1 (h p op).2) {P : Node → Prop}
    {prog : NodeCtl (Except Error Result)} {p : Plant} (hp : ∀ node ∈ p.past, P node)
    (htrace : ∀ e ∈ (run h prog p).trace, ∀ node ∈ ((h e.state e.op).2.cluster.tbl .node).items,
      P node) : ∀ node ∈ (run h prog p).final.past, P node := by
  induction prog generalizing p with
  | ret | crash => exact hp
  | call op k ih =>
    obtain ⟨hop, hrest⟩ := List.forall_mem_cons.mp htrace
    refine ih _ (fun node hn => ?_) hrest
    rcases past_of_answer (hW p op) hn with hn | hn
    · exact hp node hn
    · exact hop node hn

/-- The plant after the next reconcile has read the Node. -/
def readPlant : Plant := (plantServe gonePlant (.inl (.get .node bootingNode.key))).2

/-- All copies of the Node have its hostname. -/
theorem readPlant_past : ∀ node ∈ readPlant.past, node.spec.hostname = "nginx-0" := by
  have hasked : ∀ node ∈ askedPlant.past, node.spec.hostname = "nginx-0" := by
    refine past_of_run plantRefuse_answer (fun node hn => ?_) (by decide)
    cases hn
    rfl
  have hbooted : ∀ node ∈ (reconciled (booted askedPlant)).past, node.spec.hostname = "nginx-0" :=
    past_of_run plantServe_answer hasked (by decide)
  have hgone : ∀ node ∈ gonePlant.past, node.spec.hostname = "nginx-0" :=
    past_of_run plantServe_answer hbooted (by decide)
  have hstored : ∀ node ∈ (gonePlant.cluster.tbl .node).items, node.spec.hostname = "nginx-0" := by
    decide
  rintro node (hn | hn)
  · exact hgone node hn
  · exact hstored node hn

/-- Consul has answered again after the machine had registered. -/
theorem gonePlant_answered : Answered gonePlant.journal "nginx-0" := by
  rw [gonePlant_journal]
  intro before after hj hbefore
  match before with
  | [_] =>
    simp only [List.cons_append, List.nil_append, List.cons.injEq] at hj
    simp [← hj.2.2]
  | _ :: _ :: before =>
    -- The machine registered once.
    simp only [List.cons_append, List.cons.injEq] at hj
    have honce : PlantEvent.registered "nginx-0" ∈
        [.absent "externalnginx-0", .absent "nginx-0"] := by
      rw [hj.2.2]
      exact List.mem_append_right _ List.mem_cons_self
    exact absurd honce (by decide)

theorem asksAgain_of_readPlant {t : PlantTrans} (ht : t.pre.state = readPlant) : AsksAgain t := by
  rintro node ⟨-, hf, -⟩
  rw [ht] at hf ⊢
  have hhost : node.spec.hostname = "nginx-0" := readPlant_past node (.inr (find?_mem hf))
  rw [hhost]
  exact ⟨gonePlant_answered, fun copy hc _ _ => readPlant_past copy hc⟩

/-- The machine registered after Consul was first asked, and Consul was asked again before the Node
was deleted. -/
theorem deleted_absent_boot :
    ∃ ts p, ∃ t ∈ ts, Run plantSys ts p ∧ Deletes t (recordedNode 3) ∧
      .registered "nginx-0" ∈ t.pre.state.journal ∧ AsksAgain t ∧ DeletesAbsent t := by
  have hnil : Run plantSys [] ⟨bootingPlant, []⟩ := .nil ⟨bootingPlant_init, rfl⟩
  obtain ⟨ts₁, hr₁⟩ := Pool.run_last plantRefuse_answer _ (hnil.snoc (.start starts_booting))
  obtain ⟨ts₂, hr₂⟩ := Pool.run_last plantServe_answer _
    ((hr₁.snoc (.other (booted_env _))).snoc (.start starts_booting))
  obtain ⟨ts₃, hr₃⟩ := Pool.run_last plantServe_answer _
    ((hr₂.snoc (.other (shutDown_env _))).snoc (.start starts_booting))
  have hr₄ := (hr₃.snoc (.start starts_booting)).snoc (Pool.call_last (plantServe_answer _ _))
  have hr₅ := hr₄.snoc
    (Pool.call_last (plantServe_answer _ (.inl (.delete .node bootingNode.key))))
  refine ⟨_, _, _, List.mem_concat_self, hr₅, ⟨rfl, gonePlant_find?, rfl⟩,
    List.mem_cons_of_mem _ List.mem_cons_self, asksAgain_of_readPlant rfl, ?_⟩
  exact deleted_absent hr₅ _ List.mem_concat_self (asksAgain_of_readPlant rfl)

/-- The machine registers after Consul was asked, and the Node is deleted all the same. -/
theorem deleted_while_running :
    ¬ ∀ ts p, Run plantSys ts p → ∀ t ∈ ts, DeletesAbsent t := by
  intro h
  have hnil : Run plantSys [] ⟨bootingPlant, []⟩ := .nil ⟨bootingPlant_init, rfl⟩
  obtain ⟨ts, hr⟩ := Pool.run_last plantServe_answer _ (hnil.snoc (.start starts_booting))
  have hr₂ := (hr.snoc (.other (booted_env _))).snoc (.start starts_booting)
  have hr₃ := hr₂.snoc (Pool.call_last (plantServe_answer _ _))
  have hr₄ := hr₃.snoc (Pool.call_last (plantServe_answer _ (.inl (.delete .node bootingNode.key))))
  have hgone := h _ _ hr₄ _ List.mem_concat_self (recordedNode 2)
    ⟨rfl, rfl, rfl⟩
  exact nomatch hgone

end ReconcileNode

end Automium
