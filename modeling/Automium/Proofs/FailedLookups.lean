import Automium.Effect.Triple
import Automium.Proofs.NodeWrites

/-!
# Lookups of Consul that fail

A reconcile of a Node makes three lookups: the catalog has the machine, its health checks come from
another query, and the public address is the one of a second record in the catalog. If one of them
fails, what it would have provided is to stay as it is stored (`Keeps`).

The first two lookups end the reconcile when they fail. The third one is only logged, and the
status is written with an empty address (`failed_lookup_keeps_iff`).
-/

namespace Automium

open Data Effect

namespace ReconcileNode

/-- Calls may fail, but nobody else acts. -/
def lossyConsul (view : ConsulView) : World NodeApi Cluster where
  env _ _ := False
  answer := view.Answer ∅

theorem lossyConsul_closed (view : ConsulView) : (lossyConsul view).Closed := fun _ _ h => h

/-- A lookup that was made in the catalog, and failed. -/
def CatalogFailed (tr : List (Event NodeApi Cluster)) (hostname : String) : Prop :=
  ∃ c e, (⟨c, .inr (.catalogNode hostname), .error e⟩ : Event NodeApi Cluster) ∈ tr

/-- A lookup of health checks that was made, and failed. -/
def HealthFailed (tr : List (Event NodeApi Cluster)) (hostname : String) : Prop :=
  ∃ c e, (⟨c, .inr (.healthNode hostname), .error e⟩ : Event NodeApi Cluster) ∈ tr

/-- The part of the properties that the catalog has under the hostname. -/
def ownProperties (p : NodeProperties) : NodeProperties := { p with publicAddress := "" }

/-- After a lookup that failed, what it would have provided is stored as before. -/
structure Keeps (inst : Node) (tr : List (Event NodeApi Cluster)) (after : Option Node) : Prop where
  catalog : CatalogFailed tr inst.spec.hostname → ∃ node, after = some node ∧
    ownProperties node.status.nodeProperties = ownProperties inst.status.nodeProperties
  health : HealthFailed tr inst.spec.hostname → ∃ node, after = some node ∧
    node.status.nodeHealthChecks = inst.status.nodeHealthChecks
  external : CatalogFailed tr ("external" ++ inst.spec.hostname) → ∃ node, after = some node ∧
    node.status.nodeProperties.publicAddress = inst.status.nodeProperties.publicAddress

/-- Consul has a machine for the Node, but the lookup of its public address fails, and the Node has
one. -/
def ExternalLost (view : ConsulView) (inst : Node) : Prop :=
  deletable inst = false ∧ (∃ machine nodeFIP nodeHC, Found view inst machine nodeFIP nodeHC) ∧
    (∃ e, view.catalog ("external" ++ inst.spec.hostname) = .error e) ∧
    inst.status.nodeProperties.publicAddress ≠ ""

/-- The event is a lookup that failed. -/
def FailedLookup (e : Event NodeApi Cluster) : Prop :=
  (∃ c hostname err, e = ⟨c, .inr (.catalogNode hostname), .error err⟩) ∨
    ∃ c hostname err, e = ⟨c, .inr (.healthNode hostname), .error err⟩

section

variable {view : ConsulView} {request : Key} {inst : Node} {c c' : Cluster}
  {tr : List (Event NodeApi Cluster)} {after : Option Node} {e : Event NodeApi Cluster}

/-! ## Traces -/

theorem api_event {op : Request} {r : op.Reply} : ¬ FailedLookup ⟨c, .inl op, r⟩ := by
  rintro (⟨_, _, _, ⟨⟩⟩ | ⟨_, _, _, ⟨⟩⟩)

theorem client_event {address datacenter : String} {r : Except Error Unit} :
    ¬ FailedLookup ⟨c, .inr (.newClient address datacenter), r⟩ := by
  rintro (⟨_, _, _, ⟨⟩⟩ | ⟨_, _, _, ⟨⟩⟩)

theorem catalog_event {hostname : String} {info : Option CatalogNode} :
    ¬ FailedLookup ⟨c, .inr (.catalogNode hostname), .ok info⟩ := by
  rintro (⟨_, _, _, ⟨⟩⟩ | ⟨_, _, _, ⟨⟩⟩)

theorem health_event {hostname : String} {nodeHC : List HealthCheck} :
    ¬ FailedLookup ⟨c, .inr (.healthNode hostname), .ok nodeHC⟩ := by
  rintro (⟨_, _, _, ⟨⟩⟩ | ⟨_, _, _, ⟨⟩⟩)

theorem external_ne (hostname : String) : "external" ++ hostname ≠ hostname := by
  intro h
  have hlen := congrArg String.length h
  have hext : "external".length = 8 := by decide
  rw [String.length_append] at hlen
  omega

theorem Keeps.same (h : after = some inst) : Keeps inst tr after :=
  ⟨fun _ => ⟨inst, h, rfl⟩, fun _ => ⟨inst, h, rfl⟩, fun _ => ⟨inst, h, rfl⟩⟩

theorem Keeps.noneFailed (h : ∀ e ∈ tr, ¬ FailedLookup e) : Keeps inst tr after where
  catalog := fun ⟨c, err, hm⟩ => (h _ hm (.inl ⟨c, _, err, rfl⟩)).elim
  health := fun ⟨c, err, hm⟩ => (h _ hm (.inr ⟨c, _, err, rfl⟩)).elim
  external := fun ⟨c, err, hm⟩ => (h _ hm (.inl ⟨c, _, err, rfl⟩)).elim

/-- Only the lookup of the public address failed. -/
theorem Keeps.externalFailed
    (h : ∀ e ∈ tr, FailedLookup e →
      ∃ c err, e = ⟨c, .inr (.catalogNode ("external" ++ inst.spec.hostname)), .error err⟩)
    (hafter : ∃ node, after = some node ∧
      node.status.nodeProperties.publicAddress = inst.status.nodeProperties.publicAddress) :
    Keeps inst tr after where
  catalog := by
    rintro ⟨c, err, hm⟩
    obtain ⟨c', err', he⟩ := h _ hm (.inl ⟨c, _, err, rfl⟩)
    have hop : (Sum.inr (.catalogNode inst.spec.hostname) : NodeApi.Op) = .inr _ :=
      congrArg Event.op he
    exact (external_ne _ (ConsulRequest.catalogNode.inj (Sum.inr.inj hop)).symm).elim
  health := by
    rintro ⟨c, err, hm⟩
    obtain ⟨c', err', he⟩ := h _ hm (.inr ⟨c, _, err, rfl⟩)
    cases he
  external := fun _ => hafter

/-- After an event that is no lookup that failed. -/
theorem Keeps.cons (he : ¬ FailedLookup e) (h : Keeps inst tr after) : Keeps inst (e :: tr) after where
  catalog := by
    rintro ⟨c, err, hm⟩
    rcases List.mem_cons.mp hm with rfl | hm
    · exact (he (.inl ⟨_, _, _, rfl⟩)).elim
    · exact h.catalog ⟨c, err, hm⟩
  health := by
    rintro ⟨c, err, hm⟩
    rcases List.mem_cons.mp hm with rfl | hm
    · exact (he (.inr ⟨_, _, _, rfl⟩)).elim
    · exact h.health ⟨c, err, hm⟩
  external := by
    rintro ⟨c, err, hm⟩
    rcases List.mem_cons.mp hm with rfl | hm
    · exact (he (.inl ⟨_, _, _, rfl⟩)).elim
    · exact h.external ⟨c, err, hm⟩

/-- A program that does not ask Consul. -/
theorem not_failedLookup_inl {q : Ctl (Except Error Result)} {o : Outcome (Except Error Result)}
    (he : Exec (lossyConsul view) q.inl c tr o c') : ∀ e ∈ tr, ¬ FailedLookup e := by
  intro e hm hfailed
  obtain ⟨op, hop⟩ := (uses_inl q).events he e hm
  rcases hfailed with ⟨_, _, _, rfl⟩ | ⟨_, _, _, rfl⟩
  · cases hop
  · cases hop

/-! ## The public address after a failed lookup -/

/-- The call writes no public address. -/
def WritesNoAddress : Request → Prop
  | .get _ _ | .create _ _ => True
  | .updateStatus .node o => o.status.nodeProperties.publicAddress = ""
  | _ => False

def WritesNoAddress' : NodeApi.Op → Prop
  | .inl op => WritesNoAddress op
  | .inr _ => True

/-- The Node is stored without a public address. -/
def NoAddress (request : Key) (c : Cluster) : Prop :=
  ∃ node, c.find? .node request = some node ∧ node.status.nodeProperties.publicAddress = ""

theorem noAddress_serves {op : Request} {r : op.Reply} (h : Serves c op r c')
    (hop : WritesNoAddress op) (hn : NoAddress request c) : NoAddress request c' := by
  obtain ⟨node, hf, haddress⟩ := hn
  rcases h.cases with rfl | ⟨k, o, o', -, rfl, hcase⟩ | ⟨k, key, rfl, -⟩
  · exact ⟨node, hf, haddress⟩
  · by_cases hk : Kind.node = k
    · subst hk
      unfold NoAddress
      rw [Cluster.find?_setTbl, Table.find?_put]
      split
      · rename_i hkey
        refine ⟨o', rfl, ?_⟩
        rcases hcase with ⟨-, hnone, rfl⟩ | ⟨old, rfl, -⟩ | ⟨old, rfl, -, -, rfl⟩
        · rw [hkey] at hf
          cases hf.symm.trans hnone
        · exact hop.elim
        · exact hop
      · exact ⟨node, hf, haddress⟩
    · exact ⟨node, by rw [Cluster.find?, Cluster.setTbl_ne _ _ hk]; exact hf, haddress⟩
  · exact hop.elim

/-- If the Node is stored without an address, it is left without one. -/
theorem updateOrCreate_keeps {newNode : LocalNode}
    (h : newNode.status.nodeProperties.publicAddress = "") (hn : NoAddress request c)
    {o : Outcome (Except Error Result)}
    (he : Exec (lossyConsul view) (updateOrCreate newNode request).inl c tr o c') :
    NoAddress request c' := by
  have hu : Uses (S := NodeApi) WritesNoAddress' (updateOrCreate newNode request).inl :=
    Obeys.inl (updateOrCreate_uses trivial h trivial)
  have hcalm : Stable (lossyConsul view) (NoAddress request) := fun _ _ _ henv => henv.elim
  have hstep : ∀ c₁ op r c₂, NoAddress request c₁ → WritesNoAddress' op →
      (lossyConsul view).answer c₁ op r c₂ → True ∧ NoAddress request c₂ := by
    intro c₁ op r c₂ hc hop ha
    refine ⟨trivial, ?_⟩
    match op, r, ha with
    | .inl op, r, .inl hs => exact noAddress_serves hs hop hc
    | .inl op, r, .inr ⟨_, heq⟩ => exact heq ▸ hc
    | .inr (.newClient _ _), r, ⟨_, heq⟩ | .inr (.catalogNode _), r, ⟨_, heq⟩
    | .inr (.healthNode _), r, ⟨_, heq⟩ => exact heq ▸ hc
  exact (hu.invariant hcalm hstep he hn).1

/-! ## All lookups -/

/-- A machine is recorded, and no public address is lost. -/
theorem recordMachine_keeps {nodeInfo : CatalogNode} (hf : c.find? .node request = some inst)
    (hd : deletable inst = false) (hlost : ¬ ExternalLost view inst)
    (hclient : ∃ u, view.client = .ok u)
    (hinfo : view.catalog inst.spec.hostname = .ok (some nodeInfo))
    {o : Outcome (Except Error Result)}
    (he : Exec (lossyConsul view) (recordMachine inst nodeInfo request) c tr o c') :
    Keeps inst tr (c'.find? .node request) := by
  have hW := lossyConsul_closed view
  unfold recordMachine at he
  rw [healthNode_bind] at he
  rcases hW.call_cases he with ⟨-, rfl⟩ | ⟨health, c₁, tr₁, ⟨hhealth, rfl⟩, he₁, rfl⟩
  · exact .same hf
  cases health with
  | error e => exact .same ((hW.ret_cases he₁).2 ▸ hf)
  | ok nodeHC =>
    refine .cons health_event ?_
    dsimp only at he₁
    rw [catalogNode_bind] at he₁
    rcases hW.call_cases he₁ with ⟨-, rfl⟩ | ⟨fip, c₂, tr₂, ⟨hfip, rfl⟩, he₂, rfl⟩
    · exact .same hf
    cases fip with
    | ok fipInfo =>
      refine .cons catalog_event (.noneFailed ?_)
      cases hip : nodeFIPOf (.ok fipInfo) with
      | error msg =>
        rw [hip] at he₂
        rw [(hW.crash_cases he₂).1]
        exact List.forall_mem_nil _
      | ok nodeFIP =>
        rw [hip] at he₂
        cases hm : nodeInfo.node with
        | none =>
          rw [hm] at he₂
          rw [(hW.crash_cases he₂).1]
          exact List.forall_mem_nil _
        | some machine =>
          rw [hm] at he₂
          exact not_failedLookup_inl he₂
    | error err =>
      have hip : nodeFIPOf (.error err) = .ok "" := rfl
      rw [hip] at he₂
      obtain ⟨node⟩ := nodeInfo
      cases node with
      | none => exact .same ((hW.crash_cases he₂).2 ▸ hf)
      | some machine =>
        have hfound : Found view inst machine "" nodeHC :=
          ⟨hclient, hinfo, hhealth.symm, by rw [← hfip, hip]⟩
        have haddress : inst.status.nodeProperties.publicAddress = "" := by
          by_contra haddress
          exact hlost ⟨hd, ⟨_, _, _, hfound⟩, ⟨err, hfip.symm⟩, haddress⟩
        obtain ⟨node, hnode, hnone⟩ := updateOrCreate_keeps rfl ⟨inst, hf, haddress⟩ he₂
        refine .externalFailed (List.forall_mem_cons.mpr ⟨fun _ => ⟨_, err, rfl⟩, ?_⟩)
          ⟨node, hnode, hnone.trans haddress.symm⟩
        exact fun e he hfailed => (not_failedLookup_inl he₂ e he hfailed).elim

/-- The reconcile of a Node that loses no public address. -/
theorem askConsul_keeps (hf : c.find? .node request = some inst) (hd : deletable inst = false)
    (hlost : ¬ ExternalLost view inst) {o : Outcome (Except Error Result)}
    (he : Exec (lossyConsul view) (askConsul inst request) c tr o c') :
    Keeps inst tr (c'.find? .node request) := by
  have hW := lossyConsul_closed view
  unfold askConsul at he
  rw [getenv_inl_bind] at he
  rcases hW.call_cases he with ⟨-, rfl⟩ | ⟨value, c₁, tr₁, ha, he₁, rfl⟩
  · exact .same hf
  obtain rfl : c₁ = c := by
    rcases ha with hs | ⟨hs | hs, -⟩
    · exact (Prod.mk.inj hs).2.symm
    · exact hs.elim
    · exact hs.elim
  refine .cons api_event ?_
  rw [newClient_bind] at he₁
  rcases hW.call_cases he₁ with ⟨-, rfl⟩ | ⟨client, c₂, tr₂, ⟨hclient, rfl⟩, he₂, rfl⟩
  · exact .same hf
  refine .cons client_event ?_
  cases client with
  | error e => exact .noneFailed (not_failedLookup_inl he₂)
  | ok u =>
    dsimp only at he₂
    rw [catalogNode_bind] at he₂
    rcases hW.call_cases he₂ with ⟨-, rfl⟩ | ⟨info, c₃, tr₃, ⟨hinfo, rfl⟩, he₃, rfl⟩
    · exact .same hf
    rcases info with e | _ | nodeInfo
    · exact .same ((hW.ret_cases he₃).2 ▸ hf)
    · exact .cons catalog_event (.noneFailed (not_failedLookup_inl he₃))
    exact .cons catalog_event (recordMachine_keeps hf hd hlost ⟨u, hclient.symm⟩ hinfo.symm he₃)

theorem reconcile_keeps (hf : c.find? .node request = some inst) (hlost : ¬ ExternalLost view inst)
    {o : Outcome (Except Error Result)}
    (he : Exec (lossyConsul view) (Reconcile request) c tr o c') :
    Keeps inst tr (c'.find? .node request) := by
  have hW := lossyConsul_closed view
  unfold Reconcile at he
  rw [get_inl_bind] at he
  rcases hW.call_cases he with ⟨-, rfl⟩ | ⟨r, c₁, tr₁, ha, he₁, rfl⟩
  · exact .same hf
  refine .cons api_event ?_
  cases r with
  | error e =>
    refine .noneFailed ?_
    dsimp only at he₁
    split at he₁
    · rw [(hW.ret_cases he₁).1]
      exact List.forall_mem_nil _
    · rw [(hW.ret_cases he₁).1]
      exact List.forall_mem_nil _
  | ok found =>
    obtain ⟨rfl, hfound⟩ : c₁ = c ∧ found = inst := by
      rcases ha with hs | ⟨⟨_, hs⟩ | ⟨_, hs, -⟩, -⟩
      · obtain ⟨hc, hstored⟩ := Serves.get_ok hs
        exact ⟨hc, Option.some.inj ((hstored found rfl).symm.trans hf)⟩
      · cases hs
      · exact hs.elim
    subst hfound
    dsimp only at he₁
    split at he₁
    · rw [delete_inl_bind] at he₁
      rcases hW.call_cases he₁ with ⟨-, rfl⟩ | ⟨r, c₂, tr₂, -, he₂, rfl⟩
      · exact .same hf
      refine .cons api_event (.noneFailed ?_)
      cases r with
      | error e => rw [(hW.ret_cases he₂).1]; exact List.forall_mem_nil _
      | ok => rw [(hW.ret_cases he₂).1]; exact List.forall_mem_nil _
    · rename_i hd
      exact askConsul_keeps hf ((Bool.not_eq_true _).mp hd) hlost he₁

theorem lossyConsul_serve (view : ConsulView) (c : Cluster) (op : NodeApi.Op) :
    (lossyConsul view).answer c op (view.serve c op).1 (view.serve c op).2 := by
  match op with
  | .inl op => exact .inl (serves_serve c op)
  | .inr (.newClient _ _) | .inr (.catalogNode _) | .inr (.healthNode _) => exact ⟨rfl, rfl⟩

/-- An event of the rest of a run. -/
theorem mem_run_call {op : NodeApi.Op} {k : NodeApi.Reply op → NodeCtl (Except Error Result)}
    {r : NodeApi.Reply op} (hr : view.serve c op = (r, c))
    (he : e ∈ (run view.serve (k r) c).trace) : e ∈ (run view.serve (.call op k) c).trace := by
  rw [run_call, hr]
  exact List.mem_cons_of_mem _ he

/-- With a machine, the public address is looked up. -/
theorem external_asked (hf : c.find? .node request = some inst) (hd : deletable inst = false)
    {machine : ConsulNode} {nodeFIP : String} {nodeHC : List HealthCheck}
    (h : Found view inst machine nodeFIP nodeHC) :
    ⟨c, .inr (.catalogNode ("external" ++ inst.spec.hostname)),
        view.catalog ("external" ++ inst.spec.hostname)⟩ ∈
      (run view.serve (Reconcile request) c).trace := by
  obtain ⟨u, hclient⟩ := h.client
  obtain ⟨k, hk, -, hask⟩ := Reconcile_get request
  rw [hk]
  refine mem_run_call (serve_get hf) ?_
  rw [hask inst hd]
  unfold askConsul
  rw [getenv_inl_bind]
  refine mem_run_call rfl ?_
  rw [newClient_bind]
  refine mem_run_call (congrArg (·, c) hclient) ?_
  dsimp only
  rw [catalogNode_bind]
  refine mem_run_call (congrArg (·, c) h.catalog) ?_
  dsimp only
  unfold recordMachine
  rw [healthNode_bind]
  refine mem_run_call (congrArg (·, c) h.health) ?_
  dsimp only
  rw [catalogNode_bind, run_call]
  exact List.mem_cons_self

/-- The public address is overwritten. -/
theorem address_overwritten (hf : c.find? .node request = some inst) (h : ExternalLost view inst) :
    ∃ tr o c', Exec (lossyConsul view) (Reconcile request) c tr o c' ∧
      ¬ Keeps inst tr (c'.find? .node request) := by
  obtain ⟨hd, ⟨machine, nodeFIP, nodeHC, hfound⟩, ⟨err, hfip⟩, haddress⟩ := h
  have hip := hfound.external
  rw [hfip] at hip
  cases hip
  refine ⟨_, _, _, Exec.of_run (lossyConsul_serve view) (Reconcile request) c, fun hkeeps => ?_⟩
  have hasked := external_asked hf hd hfound
  rw [hfip] at hasked
  obtain ⟨node, hnode, hsame⟩ := hkeeps.external ⟨c, err, hasked⟩
  have hstored := stored_status hf hd hfound.statusOf
  rw [hnode] at hstored
  have hstatus : node.status = sent (machineStatus inst.status machine "" nodeHC) :=
    Option.some.inj hstored
  rw [hstatus] at hsame
  exact haddress hsame.symm

/-- What a lookup that fails would have provided stays as it is stored, whichever calls fail, exactly
if it is not the lookup of the public address of a Node that has a machine and an address. -/
theorem failed_lookup_keeps_iff (view : ConsulView) (request : Key) (c : Cluster) :
    (∀ tr o c', Exec (lossyConsul view) (Reconcile request) c tr o c' →
        ∀ inst, c.find? .node request = some inst → Keeps inst tr (c'.find? .node request)) ↔
      ∀ inst, c.find? .node request = some inst → ¬ ExternalLost view inst := by
  constructor
  · intro h inst hf hlost
    obtain ⟨tr, o, c', he, hn⟩ := address_overwritten hf hlost
    exact hn (h tr o c' he inst hf)
  · exact fun h tr o c' he inst hf => reconcile_keeps hf (h inst hf) he

end

/-! ### An address that is lost -/

/-- A Node with a public address. -/
def publicNode : Node := { webNode with
  status := { nodeProperties := { id := "a1", node := "nginx-0", publicAddress := "203.0.113.7" } } }

def publicStore : Cluster := Cluster.empty.setTbl .node (Table.empty.put publicNode)

/-- Consul has the machine, and cannot be asked for its public address. -/
def brokenView : ConsulView := { webView with
  catalog := fun hostname => if hostname = "nginx-0" then webView.catalog hostname
    else .error (.new "timeout") }

theorem public_address_lost :
    ¬ ∀ view request c tr o c', Exec (lossyConsul view) (Reconcile request) c tr o c' →
      ∀ inst, c.find? .node request = some inst → Keeps inst tr (c'.find? .node request) := by
  intro h
  have hf : publicStore.find? .node webNode.key = some publicNode := Table.find?_put_self
  have hlost : ExternalLost brokenView publicNode :=
    ⟨rfl, ⟨_, _, _, ⟨⟨(), rfl⟩, rfl, rfl, rfl⟩⟩, ⟨_, rfl⟩, by decide⟩
  obtain ⟨tr, o, c', he, hn⟩ := address_overwritten hf hlost
  exact hn (h _ _ _ tr o c' he _ hf)

end ReconcileNode

end Automium
