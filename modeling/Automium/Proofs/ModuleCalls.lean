import Automium.Api.World
import Automium.Proofs.Counters

/-!
# The calls of the Module controller

`MayCall P inst` lists what a reconcile of the Module `inst` may call as long as the objects it
reads satisfy `P`: it reads its Job, the Nodes and the pods; it creates its Job and the Nodes of
the replicas; it marks Nodes; it writes its own status; and it deletes its Job and the pods whose
names start with the stem. `Reconcile_calls` says so of the whole function, and the invariants of
the stored objects come from it. The functions with `Reports P inst` delete
nothing; what is deleted comes after the guard on the copy of the Job (`syncJob_get`).
-/

namespace Automium

open Data Effect

namespace ReconcileModule

/-- The calls that a reconcile of `inst` may make (module doc). -/
def MayCall (P : (k : Kind) → k.Obj → Prop) (inst : Module) : Request → Prop
  | .get .job key => key = ⟨inst.metadata.ns, jobName inst.metadata.name⟩
  | .list .node ns | .list .pod ns => ns = inst.metadata.ns
  | .create .node node => appNameOf inst.metadata ≠ "" ∧ ∃ i : Nat, ∃ hostname,
      (i : Int) < inst.spec.replicas ∧
      specHostname (appNameOf inst.metadata) (serviceNameOf inst.metadata) inst.spec.env i =
        .ok hostname ∧
      node = newNode (serviceNameOf inst.metadata) inst.metadata.ns hostname i
  | .create .job job => ∃ command, job = desiredJob inst command
  | .update .node node => ∃ item date, P .node item ∧ node = marked item date
  | .updateStatus .module m => ∃ status, m = { inst with status := status }
  | .delete .job key => key = ⟨inst.metadata.ns, jobName inst.metadata.name⟩
  | .delete .pod key => ∃ pod, P .pod pod ∧ key = pod.key ∧
      Go.hasPrefix pod.metadata.name (podStem inst.metadata.name) = true
  | .now => True
  | _ => False

section

variable {P : (k : Kind) → k.Obj → Prop} {inst : Module}

/-- The programs that make only the calls of a reconcile of `inst`. -/
abbrev Does (P : (k : Kind) → k.Obj → Prop) (inst : Module) {α : Type} (p : Ctl α)
    (Q : α → Prop) : Prop :=
  Obeys (S := Api) (Request.Returns P) (MayCall P inst) p Q

/-- The programs that make only such calls, and delete nothing. -/
abbrev Reports (P : (k : Kind) → k.Obj → Prop) (inst : Module) {α : Type} (p : Ctl α)
    (Q : α → Prop) : Prop :=
  Obeys (S := Api) (Request.Returns P) (fun op => MayCall P inst op ∧ op.isDelete = false) p Q

theorem Reports.does {α : Type} {p : Ctl α} {Q : α → Prop} (h : Reports P inst p Q) :
    Does P inst p Q :=
  h.mono (fun _ _ h => h) (fun _ h => h.1) fun _ h => h

theorem retrieveNodesForService_calls {svcName : String} :
    Reports P inst (retrieveNodesForService svcName inst.metadata.ns) fun r =>
      ∀ l, r = .ok l → ∀ node ∈ l, P .node node := by
  unfold retrieveNodesForService
  split
  · intro l e; cases e
  · rw [list_bind]
    refine ⟨⟨rfl, rfl⟩, fun r hr => ?_⟩
    cases r with
    | error e => intro l e; cases e
    | ok nsNodes =>
      intro l e node hn
      cases e
      exact (hr nsNodes rfl node (List.mem_of_mem_filter hn)).1

/-- The call creates the Node of a replica in the list. -/
def Creates (inst : Module) (appName serviceName : String) (l : List Nat) (op : Request) : Prop :=
  ∃ i ∈ l, ∃ hostname, specHostname appName serviceName inst.spec.env i = .ok hostname ∧
    op = .create .node (newNode serviceName inst.metadata.ns hostname i)

theorem createNodes_uses (inst : Module) (appName serviceName : String) (l : List Nat) :
    Uses (Creates inst appName serviceName l) (createNodes inst appName serviceName l) := by
  induction l with
  | nil => trivial
  | cons i rest ih =>
    have hrest : Uses (Creates inst appName serviceName (i :: rest))
        (createNodes inst appName serviceName rest) :=
      ih.mono fun op ⟨j, hj, hop⟩ => ⟨j, List.mem_cons_of_mem _ hj, hop⟩
    unfold createNodes
    split
    · trivial
    · rename_i hostname hh
      rw [create_bind]
      refine ⟨⟨i, List.mem_cons_self, hostname, hh, rfl⟩, fun r _ => ?_⟩
      cases r with
      | ok node => exact hrest
      | error e =>
        dsimp only
        split
        · exact hrest
        · trivial

/-- The call marks one of the Nodes, or asks for the time to do so. -/
def MarksOne (nodes : List Node) (op : Request) : Prop :=
  op = .now ∨ ∃ item ∈ nodes, ∃ date, op = .update .node (marked item date)

theorem markForDeletion_uses (nodes : List Node) :
    Uses (MarksOne nodes) (markForDeletion nodes) := by
  induction nodes with
  | nil => trivial
  | cons item rest ih =>
    have hrest : Uses (MarksOne (item :: rest)) (markForDeletion rest) := ih.mono fun op hop =>
      hop.imp_right fun ⟨x, hx, hop⟩ => ⟨x, List.mem_cons_of_mem _ hx, hop⟩
    unfold markForDeletion
    split
    · rw [now_bind]
      refine ⟨.inl rfl, fun date _ => ?_⟩
      dsimp only
      rw [update_bind]
      exact ⟨.inr ⟨item, List.mem_cons_self, date, rfl⟩, fun _ _ => hrest⟩
    · exact hrest

theorem createNodes_calls (happ : appNameOf inst.metadata ≠ "") {l : List Nat}
    (hl : ∀ i ∈ l, (i : Int) < inst.spec.replicas) :
    Reports P inst (createNodes inst (appNameOf inst.metadata) (serviceNameOf inst.metadata) l)
      fun _ => True := by
  refine Obeys.mono (createNodes_uses inst _ _ l) (fun _ _ _ => trivial) ?_ fun _ _ => trivial
  rintro op ⟨i, hi, hostname, hh, rfl⟩
  exact ⟨⟨happ, i, hostname, hl i hi, hh, rfl⟩, rfl⟩

/-- Once the Nodes are sorted, the last ones are marked. -/
theorem deleteExtraNodes_sorted {sort : SliceSort} {appNodes sorted : List Node} {R : Nat}
    (hR : inst.spec.replicas = R) (hs : SortNodesByNumber sort appNodes = .ret (.ok sorted)) :
    deleteExtraNodes sort inst appNodes =
      markForDeletion (sorted.drop R) >>= fun _ => .ret (.ok ()) := by
  unfold deleteExtraNodes
  rw [hs, Prog.ret_bind]
  dsimp only
  rw [if_neg (by omega), hR, Int.toNat_natCast]
  rfl

/-- The scale-down branch fails or panics without a call, or it marks the last Nodes of the sorted
list. -/
theorem deleteExtraNodes_cases (sort : SliceSort) (inst : Module) (appNodes : List Node) :
    (∃ msg, deleteExtraNodes sort inst appNodes = .crash msg) ∨
      (∃ e, deleteExtraNodes sort inst appNodes = .ret (.error e)) ∨
      ∃ sorted, SortNodesByNumber sort appNodes = .ret (.ok sorted) ∧ sorted.Perm appNodes ∧
        deleteExtraNodes sort inst appNodes =
          markForDeletion (sorted.drop inst.spec.replicas.toNat) >>= fun _ => .ret (.ok ()) := by
  unfold deleteExtraNodes
  rcases SortNodesByNumber_cases sort appNodes with ⟨msg, hs⟩ | ⟨e, hs⟩ | ⟨sorted, hs, hp⟩ <;> rw [hs]
  · exact .inl ⟨msg, rfl⟩
  · exact .inr (.inl ⟨e, rfl⟩)
  rw [Prog.ret_bind]
  dsimp only
  split
  · exact .inl ⟨_, rfl⟩
  · exact .inr (.inr ⟨sorted, rfl, hp, rfl⟩)

theorem deleteExtraNodes_uses (sort : SliceSort) (inst : Module) (appNodes : List Node) :
    Uses (MarksOne appNodes) (deleteExtraNodes sort inst appNodes) := by
  rcases deleteExtraNodes_cases sort inst appNodes with
    ⟨msg, he⟩ | ⟨e, he⟩ | ⟨sorted, -, hp, he⟩ <;> rw [he]
  · trivial
  · trivial
  refine Uses.bind ((markForDeletion_uses _).mono fun op hop => ?_) fun _ => trivial
  exact hop.imp_right fun ⟨item, hi, hop⟩ => ⟨item, hp.mem_iff.mp (List.mem_of_mem_drop hi), hop⟩

theorem deleteExtraNodes_calls {sort : SliceSort} {appNodes : List Node}
    (h : ∀ node ∈ appNodes, P .node node) :
    Reports P inst (deleteExtraNodes sort inst appNodes) fun _ => True := by
  refine Obeys.mono (deleteExtraNodes_uses sort inst appNodes) (fun _ _ _ => trivial) ?_
    fun _ _ => trivial
  rintro op (rfl | ⟨item, hi, date, rfl⟩)
  · exact ⟨trivial, rfl⟩
  · exact ⟨⟨item, date, h item hi, rfl⟩, rfl⟩

/-- `manageNodesForModule` from the Nodes of the service on. -/
def manageListed (sort : SliceSort) (inst : Module) (appNodes : List Node) :
    Ctl (Except Error Unit) :=
  if (appNodes.length : Int) < inst.spec.replicas then
    createNodes inst (appNameOf inst.metadata) (serviceNameOf inst.metadata)
      (List.range inst.spec.replicas.toNat)
  else if (appNodes.length : Int) > inst.spec.replicas then deleteExtraNodes sort inst appNodes
  else return .ok ()

/-- With all names set, `manageNodesForModule` lists the Nodes first. -/
theorem manageNodesForModule_eq (sort : SliceSort) (happ : appNameOf inst.metadata ≠ "")
    (hsvc : serviceNameOf inst.metadata ≠ "") (hns : inst.metadata.ns ≠ "") :
    ∃ k, manageNodesForModule sort inst = .call (.list .node inst.metadata.ns) k ∧
      (∀ e, k (.error e) = .ret (.error e)) ∧
      ∀ l, k (.ok l) =
        manageListed sort inst (nodesOfService (serviceNameOf inst.metadata) l) := by
  unfold manageNodesForModule retrieveNodesForService
  dsimp only
  rw [if_neg (not_or.mpr ⟨happ, hsvc⟩), if_neg (not_or.mpr ⟨hsvc, hns⟩)]
  exact ⟨_, rfl, fun _ => rfl, fun _ => rfl⟩

/-- With a name missing, it fails. -/
theorem manageNodesForModule_error (sort : SliceSort) (hnames : appNameOf inst.metadata = "" ∨
    serviceNameOf inst.metadata = "" ∨ inst.metadata.ns = "") :
    ∃ e, manageNodesForModule sort inst = .ret (.error e) := by
  unfold manageNodesForModule retrieveNodesForService
  dsimp only
  split
  · exact ⟨_, rfl⟩
  · rename_i hset
    rw [if_pos (by tauto)]
    exact ⟨_, rfl⟩

/-- `manageNodesForModule` fails for want of names, or it lists the Nodes first. -/
theorem manageNodesForModule_cases (sort : SliceSort) (inst : Module) :
    (∃ e, manageNodesForModule sort inst = .ret (.error e)) ∨
      appNameOf inst.metadata ≠ "" ∧
        ∃ k, manageNodesForModule sort inst = .call (.list .node inst.metadata.ns) k ∧
          (∀ e, k (.error e) = .ret (.error e)) ∧
          ∀ l, k (.ok l) =
            manageListed sort inst (nodesOfService (serviceNameOf inst.metadata) l) := by
  by_cases hnames : appNameOf inst.metadata = "" ∨ serviceNameOf inst.metadata = "" ∨
      inst.metadata.ns = ""
  · exact .inl (manageNodesForModule_error sort hnames)
  · obtain ⟨happ, hsvc, hns⟩ : _ ∧ _ ∧ _ := by simpa only [not_or] using hnames
    exact .inr ⟨happ, manageNodesForModule_eq sort happ hsvc hns⟩

theorem manageListed_calls (sort : SliceSort) (happ : appNameOf inst.metadata ≠ "")
    {appNodes : List Node} (h : ∀ node ∈ appNodes, P .node node) :
    Reports P inst (manageListed sort inst appNodes) fun _ => True := by
  unfold manageListed
  split
  · refine createNodes_calls happ fun i hi => ?_
    have := List.mem_range.mp hi
    omega
  · split
    · exact deleteExtraNodes_calls h
    · trivial

theorem manageNodesForModule_calls (sort : SliceSort) :
    Reports P inst (manageNodesForModule sort inst) fun _ => True := by
  rcases manageNodesForModule_cases sort inst with ⟨e, he⟩ | ⟨happ, k, hk, herr, hok⟩
  · rw [he]
    trivial
  · rw [hk]
    refine ⟨⟨rfl, rfl⟩, fun r hr => ?_⟩
    cases r with
    | error e =>
      rw [herr]
      trivial
    | ok l =>
      rw [hok]
      refine manageListed_calls sort happ fun node hn => ?_
      exact (hr l rfl node (List.mem_of_mem_filter hn)).1

theorem chooseModuleAction_calls :
    Reports P inst (chooseModuleAction inst) fun _ => True := by
  unfold chooseModuleAction
  split
  · trivial
  · refine retrieveNodesForService_calls.bind fun r _ => ?_
    cases r <;> trivial

theorem updateModuleStatus_calls (action phase : String) :
    Reports P inst (updateModuleStatus inst action phase) fun _ => True := by
  refine Obeys.mono (updateModuleStatus_uses inst action phase) (fun _ _ _ => trivial) ?_
    fun _ _ => trivial
  rintro op (rfl | ⟨nodes, rfl⟩)
  · exact ⟨rfl, rfl⟩
  · exact ⟨⟨_, rfl⟩, rfl⟩

theorem cleanupPods_calls : Does P inst (cleanupPods inst) fun _ => True := by
  unfold cleanupPods
  rw [list_bind]
  refine ⟨rfl, fun r hr => ?_⟩
  cases r with
  | error e => trivial
  | ok pods =>
    have hp : ∀ pod ∈ pods, P .pod pod := fun pod h => (hr pods rfl pod h).1
    clear hr
    induction pods with
    | nil => trivial
    | cons pod rest ih =>
      have hrest := ih fun pod h => hp pod (List.mem_cons_of_mem _ h)
      dsimp only at hrest ⊢
      unfold deletePods
      split
      · rename_i hs
        rw [delete_bind]
        exact ⟨⟨pod, hp pod List.mem_cons_self, rfl, hs⟩, fun _ _ => hrest⟩
      · exact hrest

theorem recreateJob_calls (action : String) {found : Job}
    (h : found.key = ⟨inst.metadata.ns, jobName inst.metadata.name⟩) :
    Does P inst (recreateJob inst action found) fun _ => True := by
  unfold recreateJob
  split
  · trivial
  · refine cleanupPods_calls.bind fun _ _ => ?_
    rw [delete_bind]
    refine ⟨h, fun r _ => ?_⟩
    cases r with
    | error e => trivial
    | ok =>
      refine (updateModuleStatus_calls action _).does.bind fun r _ => ?_
      cases r <;> trivial

theorem reportJob_calls (sort : SliceSort) (action : String) (found : Job) :
    Reports P inst (reportJob sort inst action found) fun _ => True := by
  unfold reportJob
  refine (manageNodesForModule_calls sort).bind fun r _ => ?_
  cases r with
  | error e => trivial
  | ok =>
    dsimp only
    cases retrieveJobStatus found with
    | error e => trivial
    | ok status =>
      dsimp only
      refine (updateModuleStatus_calls action _).bind fun r _ => ?_
      cases r with
      | error e => trivial
      | ok => dsimp only; split <;> trivial

/-- With the Job found, something is deleted only if its copy counts no active pod. -/
theorem syncJob_get (P : (k : Kind) → k.Obj → Prop) (sort : SliceSort) (action : String)
    (command : List String) :
    ∃ k, syncJob sort inst action (desiredJob inst command) =
        .call (.get .job ⟨inst.metadata.ns, jobName inst.metadata.name⟩) k ∧
      (∀ e, Reports P inst (k (.error e)) fun _ => True) ∧
      ∀ found : Job, found.key = ⟨inst.metadata.ns, jobName inst.metadata.name⟩ →
        Reports P inst (k (.ok found)) (fun _ => True) ∨
          found.status.active < 1 ∧ Does P inst (k (.ok found)) fun _ => True := by
  unfold syncJob
  rw [get_bind]
  refine ⟨_, rfl, fun e => ?_, fun found hkey => ?_⟩
  · dsimp only
    split
    · rw [create_bind]
      refine ⟨⟨⟨command, rfl⟩, rfl⟩, fun r _ => ?_⟩
      cases r <;> trivial
    · trivial
  · dsimp only
    split
    · split
      · by_cases hactive : found.status.active ≥ 1
        · refine .inl ?_
          unfold recreateJob
          rw [if_pos hactive]
          trivial
        · exact .inr ⟨by omega, recreateJob_calls action hkey⟩
      · exact .inl (reportJob_calls sort action found)
    · exact .inl trivial

theorem syncJob_calls (sort : SliceSort) (action : String) (command : List String) :
    Does P inst (syncJob sort inst action (desiredJob inst command)) fun _ => True := by
  obtain ⟨k, hk, herr, hok⟩ := syncJob_get P sort action command
  rw [hk]
  refine ⟨rfl, fun r hr => ?_⟩
  cases r with
  | error e => exact (herr e).does
  | ok found => exact (hok found (hr found rfl).2).elim Reports.does fun h => h.2

/-- `Reconcile` reads the Module, chooses the action, and goes on with the Job. -/
theorem Reconcile_eq (sort : SliceSort) (request : Key) :
    ∃ k, Reconcile sort request = .call (.get .module request) k ∧
      (∀ e, ∃ res, k (.error e) = .ret res) ∧
      ∀ inst, ∃ g, k (.ok inst) = chooseModuleAction inst >>= g ∧
        ∀ r, (∃ res, g r = .ret res) ∨
          ∃ action command, g r = syncJob sort inst action (desiredJob inst command) := by
  unfold Reconcile
  rw [get_bind]
  refine ⟨_, rfl, fun e => ?_, fun inst => ⟨_, rfl, fun r => ?_⟩⟩
  · dsimp only
    split <;> exact ⟨_, rfl⟩
  · cases r with
    | error e => exact .inl ⟨_, rfl⟩
    | ok action =>
      dsimp only
      cases jobCommand action with
      | none => exact .inl ⟨_, rfl⟩
      | some command => exact .inr ⟨action, command, rfl⟩

theorem Reconcile_get (P : (k : Kind) → k.Obj → Prop) (sort : SliceSort) (request : Key) :
    ∃ k, Reconcile sort request = .call (.get .module request) k ∧
      (∀ e, ∃ res, k (.error e) = .ret res) ∧ ∀ inst, Does P inst (k (.ok inst)) fun _ => True := by
  obtain ⟨k, hk, herr, hok⟩ := Reconcile_eq sort request
  refine ⟨k, hk, herr, fun inst => ?_⟩
  obtain ⟨g, hg, hcases⟩ := hok inst
  rw [hg]
  refine chooseModuleAction_calls.does.bind fun r _ => ?_
  rcases hcases r with ⟨res, hr⟩ | ⟨action, command, hr⟩
  · rw [hr]
    trivial
  · rw [hr]
    exact syncJob_calls sort action command

/-- The calls of `Reconcile`. -/
theorem Reconcile_calls (sort : SliceSort) (request : Key) :
    Obeys (S := Api) (Request.Returns P)
      (fun op => op = .get .module request ∨
        ∃ inst : Module, P .module inst ∧ inst.key = request ∧ MayCall P inst op)
      (Reconcile sort request) fun _ => True := by
  obtain ⟨k, hk, herr, hok⟩ := Reconcile_get P sort request
  rw [hk]
  refine ⟨.inl rfl, fun r hr => ?_⟩
  cases r with
  | error e =>
    obtain ⟨res, he⟩ := herr e
    rw [he]
    trivial
  | ok inst =>
    obtain ⟨hP, hkey⟩ := hr inst rfl
    exact (hok inst).mono (fun _ _ h => h) (fun op hop => .inr ⟨inst, hP, hkey, hop⟩) fun _ h => h

/-- What the calls for a Module keep, `Reconcile` keeps. -/
theorem Reconcile_keeps (h : ∀ inst op, P .module inst → MayCall P inst op → op.Keeps P)
    (sort : SliceSort) (request : Key) :
    Obeys (S := Api) (Request.Replies P) (Request.Keeps P) (Reconcile sort request)
      fun _ => True := by
  refine (Reconcile_calls sort request).mono (fun _ _ h => h.returns) ?_ fun _ h => h
  rintro op (rfl | ⟨inst, hinst, -, hcall⟩)
  · trivial
  · exact h inst op hinst hcall

end

end ReconcileModule

end Automium
