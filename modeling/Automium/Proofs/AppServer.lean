import Automium.Api.Versions
import Automium.Proofs.AppCalls

/-!
# The Application controller against the API server

The results about the Application controller are about executions in which a status update returns
the spec and the status that were sent, and every other call any reply. `reconcile_exec` justifies
this: an execution of `Reconcile` against the API server is one of these. The writes of other actors
do not matter, because the controller only updates copies that were stored once (`UpdatesOf`), and
the server accepts the update of such a copy only if it is still the stored object.
-/

namespace Automium

open Effect Data Go

namespace ReconcileApplication

variable {α β : Type}

/-- The world of the controller: the API server may refuse a call, other actors take steps of `env`,
and Rancher may reply anything. -/
def serverWorld (env : Cluster → Cluster → Prop) : World AppApi Cluster where
  env := env
  answer c op r c' :=
    match op, r with
    | .inl op, r => (flaky env).answer c op r c'
    | .inr _, _ => c' = c

/-- `item` is the copy `o` with another status. -/
def CopyOf (o item : Application) : Prop :=
  item.key = o.key ∧ item.metadata.resourceVersion = o.metadata.resourceVersion ∧
    item.spec = o.spec

/-- The status updates of the program are of `o`, and later of what the last one returned. -/
def UpdatesOf (o : Application) : AppCtl α → Prop
  | .ret _ | .crash _ => True
  | .call (.inl (.updateStatus .application item)) k =>
    CopyOf o item ∧ (∀ o', UpdatesOf o' (k (.ok o'))) ∧ ∀ e, UpdatesOf o (k (.error e))
  | .call _ k => ∀ r, UpdatesOf o (k r)

/-- No status of an Application is updated. -/
def NoUpdate : AppApi.Op → Prop
  | .inl (.updateStatus .application _) => False
  | _ => True

/-- The call reads an environment variable, or it goes to Rancher. -/
def Asks : AppApi.Op → Prop
  | .inl (.getenv _) | .inr _ => True
  | _ => False

theorem noUpdate_of_asks {p : AppCtl α} (h : Uses Asks p) : Uses NoUpdate p := by
  refine h.mono fun op hop => ?_
  rcases op with op | req
  · cases op with
    | getenv => trivial
    | get | list | create | update | updateStatus | delete | now | slack => exact hop.elim
  · trivial

theorem UpdatesOf.bind {o : Application} {p : AppCtl α} {f : α → AppCtl β} (hp : Uses NoUpdate p)
    (hf : ∀ a, UpdatesOf o (f a)) : UpdatesOf o (p >>= f) := by
  induction p with
  | ret a => exact hf a
  | crash => trivial
  | call op k ih =>
    obtain ⟨hop, hk⟩ := hp
    rcases op with op | req
    · cases op with
      | updateStatus kind item =>
        cases kind with
        | application => exact hop.elim
        | _ => exact fun r => ih r (hk r trivial)
      | _ => exact fun r => ih r (hk r trivial)
    · exact fun r => ih r (hk r trivial)

section Server

variable (env : Cluster → Cluster → Prop) {c c' : Cluster} {o : Application}

/-- What one call leaves, refused or not. -/
theorem server_renews {op : Request} {r : op.Reply} (h : (flaky env).answer c op r c') :
    Renews c c' ∧ c'.env = c.env := by
  rcases h with h | ⟨-, rfl⟩
  · exact ⟨h.renews, h.env_eq⟩
  · exact ⟨.refl _, rfl⟩

theorem server_getenv {name r : String} (h : (flaky env).answer c (.getenv name) r c') :
    r = c.env name := by
  rcases h with h | ⟨h, -⟩
  · exact (Prod.mk.inj h).1.symm
  · exact h.elim

/-- The update of a copy that was stored once. -/
theorem server_update {item : Application} {r : Except Error Application}
    (h : (flaky env).answer c (.updateStatus .application item) r c') (hc : c.Bounded)
    (ho : @Known c .application o) (hcopy : CopyOf o item) {stored : Application}
    (hr : r = .ok stored) :
    stored.spec = item.spec ∧ stored.status = item.status ∧ @Known c' .application stored := by
  rcases h with h | ⟨⟨e, he⟩, -⟩
  · rcases h.updateStatus_known ho hcopy.1 hcopy.2.1 with ⟨-, e, he⟩ | ⟨hfind, hok, rfl⟩
    · rw [he] at hr
      cases hr
    · have hstored : stored = statusObj .application o item (c.version + 1) :=
        Except.ok.inj (hr.symm.trans hok)
      refine ⟨?_, ?_, ?_⟩
      · rw [hstored]
        exact hcopy.2.2.symm
      · rw [hstored]
        rfl
      · have hput : (c.setTbl .application ((c.tbl .application).put
            (statusObj .application o item (c.version + 1)))).find? .application o.key =
              some stored := by
          rw [Cluster.find?_setTbl, hstored]
          exact Table.find?_put_self
        exact known_of_find? (h.renews.bounded hc) hput
  · rw [he] at hr
    cases hr

variable {env}

/-- Every reply to a program that updates only its copies is one of `anyReplies`. -/
theorem UpdatesOf.replies {p : AppCtl α} {tr : List (Event AppApi Cluster)} {out : Outcome α}
    (h : Exec (serverWorld env) p c tr out c')
    (henv : ∀ c c', env c c' → Renews c c' ∧ c'.env = c.env) (hu : UpdatesOf o p)
    (hc : c.Bounded) (ho : @Known c .application o) : ∀ e ∈ tr, AppReply c.env e.op e.reply := by
  induction h generalizing o with
  | ret | crash | halt => simp
  | env he _ ih =>
    obtain ⟨hrenews, hsame⟩ := henv _ _ he
    rw [← hsame]
    exact ih hu (hrenews.bounded hc) (ho.renews hrenews)
  | @call op k c c₁ _ r tr _ hans _ ih =>
    rcases op with op | req
    · obtain ⟨hrenews, hsame⟩ := server_renews env hans
      rw [hsame] at ih
      have hnext : ∀ {o : Application}, UpdatesOf o (k r) → @Known c₁ .application o →
          ∀ e ∈ tr, AppReply c.env e.op e.reply := fun hu ho => ih hu (hrenews.bounded hc) ho
      cases op with
      | getenv name =>
        have hreply : r = c.env name := server_getenv env hans
        exact List.forall_mem_cons.mpr ⟨hreply, hnext (hu r) (ho.renews hrenews)⟩
      | updateStatus kind item =>
        cases kind with
        | application =>
          obtain ⟨hcopy, hstored, herror⟩ := hu
          have hok : ∀ stored, r = .ok stored → stored.spec = item.spec ∧
              stored.status = item.status ∧ @Known c₁ .application stored :=
            fun stored hr => server_update env hans hc ho hcopy hr
          refine List.forall_mem_cons.mpr ⟨fun stored hr => ?_, ?_⟩
          · obtain ⟨hspec, hstatus, -⟩ := hok stored hr
            exact ⟨hspec, hstatus⟩
          · cases r with
            | ok stored => exact hnext (hstored stored) (hok stored rfl).2.2
            | error e => exact hnext (herror e) (ho.renews hrenews)
        | _ => exact List.forall_mem_cons.mpr ⟨trivial, hnext (hu r) (ho.renews hrenews)⟩
      | _ => exact List.forall_mem_cons.mpr ⟨trivial, hnext (hu r) (ho.renews hrenews)⟩
    · obtain rfl : c₁ = c := hans
      exact List.forall_mem_cons.mpr ⟨trivial, ih (hu r) hc ho⟩

end Server

/-! ## The program -/

variable {texts : LibTexts} {o : Application}

theorem uses_getenv (name : String) : Uses Asks (getenv name).inl := ⟨trivial, fun _ _ => trivial⟩

theorem uses_http (req : HTTPRequest) : Uses Asks (http req) := ⟨trivial, fun _ _ => trivial⟩

theorem uses_doRequest (method url : String) (body : Option RequestBody) :
    Uses Asks (doRequest method url body) :=
  .bind (uses_getenv _) fun _ => uses_http _

theorem uses_getList (type : String) (decode : Json → Option α) (path : String) :
    Uses Asks (getList texts type decode path) :=
  .bind (uses_getenv _) fun _ => .bind (uses_doRequest ..) fun r => by cases r <;> trivial

theorem uses_clusterID (texts : LibTexts) (clusterName : String) :
    Uses Asks (getRancherClusterIDFromName texts clusterName) :=
  .bind (uses_getList ..) fun r => by cases r <;> trivial

theorem uses_projectID (texts : LibTexts) (clusterID projectName : String) :
    Uses Asks (getRancherProjectIDFromName texts clusterID projectName) :=
  .bind (uses_getList ..) fun r => by cases r <;> trivial

theorem uses_projectApps (texts : LibTexts) (projectID : String) :
    Uses Asks (getRancherAppsFromProject texts projectID) :=
  .bind (uses_getList ..) fun r => by cases r <;> trivial

/-- A request whose answer is only checked. -/
theorem uses_checked {method url : String} {body : Option RequestBody} {bad : Response → Prop}
    [DecidablePred bad] {failure : Response → Error} :
    Uses Asks (do
      match ← doRequest method url body with
      | .error e => return .error e
      | .ok resp => if bad resp then return .error (failure resp) else return .ok ()
      : AppCtl (Except Error Unit)) :=
  .bind (uses_doRequest ..) fun r => by
    cases r with
    | error => trivial
    | ok resp => dsimp only; split <;> trivial

theorem uses_refresh : Uses Asks refreshAutomiumCatalog :=
  .bind (uses_getenv _) fun _ => uses_checked

theorem uses_move (clusterID projectID ns : String) :
    Uses Asks (moveNamespaceInProject clusterID projectID ns) :=
  .bind (uses_getenv _) fun _ => uses_checked

theorem uses_postApp (url : String) (item : RancherAppItem) : Uses Asks (postApp url item) :=
  uses_checked

/-- The same for programs that use Kubernetes only. -/
def Asks' (op : Request) : Prop := Asks (.inl op)

theorem uses_getenv' (name : String) : Uses Asks' (getenv name) := ⟨trivial, fun _ _ => trivial⟩

theorem uses_storageClass : Uses Asks' generateStorageClassConfiguration := by
  refine .bind (uses_getenv' _) fun platform => ?_
  split
  · refine .bind (uses_getenv' _) fun region => ?_
    split
    · exact .bind (uses_getenv' _) fun _ => trivial
    · trivial
  · trivial

theorem uses_defaults (spec : ApplicationSpec) : Uses Asks' (getDefaultAnswersForApp spec) := by
  unfold getDefaultAnswersForApp
  split
  · refine .bind (uses_getenv' _) fun _ => .bind (uses_getenv' _) fun _ => .bind (uses_getenv' _)
      fun _ => .bind (uses_getenv' _) fun _ => .bind uses_storageClass fun r => ?_
    cases r <;> trivial
  · split
    · exact .bind (uses_getenv' _) fun _ => trivial
    · trivial

theorem uses_answers (spec : ApplicationSpec) : Uses Asks' (buildAppAnswers spec) :=
  .bind (uses_defaults spec) fun r => by cases r <;> trivial

theorem uses_answersEquals (deployed : Option StringMap) (spec : ApplicationSpec) :
    Uses Asks' (answersEquals deployed spec) :=
  .bind (uses_answers spec) fun r => by cases r <;> trivial

theorem uses_deployApplication (clusterID projectID : String) (spec : ApplicationSpec)
    (new : Bool) :
    Uses Asks (deployApplication clusterID projectID spec new) := by
  refine .bind uses_refresh fun _ => .bind (Obeys.inl (uses_answers spec)) fun r => ?_
  cases r with
  | error => trivial
  | ok answers =>
    cases new with
    | true =>
      refine .bind (uses_move ..) fun r => ?_
      cases r with
      | error => trivial
      | ok => exact .bind (uses_getenv _) fun _ => uses_postApp ..
    | false =>
      refine .bind (uses_getenv _) fun _ => ?_
      split
      · trivial
      · exact uses_postApp ..

theorem copyOf_status (o : Application) (status : ApplicationStatus) :
    CopyOf o { o with status := status } := ⟨rfl, rfl, rfl⟩

theorem CopyOf.trans {o item item' : Application} (h : CopyOf o item) (h' : CopyOf item item') :
    CopyOf o item' :=
  ⟨h'.1.trans h.1, h'.2.1.trans h.2.1, h'.2.2.trans h.2.2⟩

/-- A copy of a copy. -/
theorem UpdatesOf.copy {o item : Application} {p : AppCtl α} (h : UpdatesOf item p)
    (hcopy : CopyOf o item) : UpdatesOf o p := by
  induction p with
  | ret | crash => trivial
  | call op k ih =>
    rcases op with op | req
    · cases op with
      | updateStatus kind item' =>
        cases kind with
        | application =>
          obtain ⟨hcopy', hstored, herror⟩ := h
          exact ⟨hcopy.trans hcopy', hstored, fun e => ih (.error e) (herror e)⟩
        | _ => exact fun r => ih r (h r)
      | _ => exact fun r => ih r (h r)
    · exact fun r => ih r (h r)

theorem UpdatesOf.updateStatus {phase errorMsg : String} {f : Application → AppCtl α}
    (hf : ∀ item, UpdatesOf item (f item)) :
    UpdatesOf o ((updateStatus o phase errorMsg).inl >>= f) := by
  unfold ReconcileApplication.updateStatus
  split
  · exact hf o
  · have hcopy : CopyOf o { o with status := { phase := phase, error := errorMsg } } :=
      copyOf_status o _
    exact ⟨hcopy, hf, fun _ => (hf _).copy hcopy⟩

theorem updatesOf_failWith (o : Application) (errorMsg : String) :
    UpdatesOf o (failWith o errorMsg) :=
  .updateStatus fun _ => trivial

theorem updatesOf_finish (o : Application) : UpdatesOf o (finish o) := .updateStatus fun _ => trivial

theorem updatesOf_deploy (o : Application) (clusterID projectID phase : String)
    (failure : ApplicationSpec → String) (new : Bool) :
    UpdatesOf o (deploy o clusterID projectID phase failure new) := by
  refine .updateStatus fun item => .bind (noUpdate_of_asks (uses_deployApplication ..)) fun r => ?_
  cases r with
  | error => exact updatesOf_failWith ..
  | ok => exact updatesOf_finish _

theorem updatesOf_syncApp (o : Application) (clusterID projectID : String) (apps : List AppItem) :
    UpdatesOf o (syncApp o clusterID projectID apps) := by
  unfold syncApp
  dsimp only
  split
  · refine .bind (noUpdate_of_asks (Obeys.inl (uses_answersEquals _ _))) fun r => ?_
    cases r with
    | error => exact updatesOf_failWith ..
    | ok same =>
      dsimp only
      split
      · exact updatesOf_deploy ..
      · exact updatesOf_finish _
  · exact updatesOf_deploy ..

/-- The controller only updates the copy that it read, or that an update returned. -/
theorem reconcile_updates (texts : LibTexts) (request : Key) :
    ∃ k, Reconcile texts request = .call (.inl (.get .application request)) k ∧
      (∀ o, UpdatesOf o (k (.ok o))) ∧ ∀ e, ∃ res, k (.error e) = .ret res := by
  refine ⟨_, get_inl_bind .application request _, fun o => ?_, fun e => ?_⟩
  · refine .bind (noUpdate_of_asks (uses_clusterID ..)) fun r => ?_
    cases r with
    | error => exact updatesOf_failWith ..
    | ok clusterID =>
      refine .bind (noUpdate_of_asks (uses_projectID ..)) fun r => ?_
      cases r with
      | error => exact updatesOf_failWith ..
      | ok projectID =>
        refine .bind (noUpdate_of_asks (uses_projectApps ..)) fun r => ?_
        cases r with
        | error => exact updatesOf_failWith ..
        | ok apps => exact updatesOf_syncApp ..
  · cases hnot : e.isNotFound with
    | true =>
      refine ⟨.ok {}, ?_⟩
      change (if e.isNotFound = true then _ else _) = _
      rw [hnot]
      rfl
    | false =>
      refine ⟨.error e, ?_⟩
      change (if e.isNotFound = true then _ else _) = _
      rw [hnot]
      rfl

variable {request : Key} {env : Cluster → Cluster → Prop} {c c' : Cluster}

theorem star_renews (henv : ∀ c c', env c c' → Renews c c' ∧ c'.env = c.env)
    (h : Relation.ReflTransGen env c c') : Renews c c' ∧ c'.env = c.env := by
  induction h with
  | refl => exact ⟨.refl _, rfl⟩
  | tail _ hstep ih =>
    obtain ⟨hrenews, hsame⟩ := henv _ _ hstep
    exact ⟨ih.1.trans hrenews, hsame.trans ih.2⟩

/-- An execution against the API server is one of those that the results are about. -/
theorem reconcile_exec {tr : List (Event AppApi Cluster)} {out : Outcome (Except Error Result)}
    (henv : ∀ c c', env c c' → Renews c c' ∧ c'.env = c.env) (hc : c.Bounded)
    (h : Exec (serverWorld env) (Reconcile texts request) c tr out c') :
    Exec (anyReplies c.env) (Reconcile texts request) () (tr.map Event.forget) out () := by
  refine h.forget ?_
  obtain ⟨k, hk, hupdates, herror⟩ := reconcile_updates texts request
  rw [hk] at h
  rcases h.call_cases with ⟨-, rfl, -⟩ | ⟨c₁, r, c₂, rest, hstar, hans, hrest, rfl⟩
  · simp
  obtain ⟨hrenews, hsame⟩ := star_renews henv hstar
  obtain ⟨hrenews', hsame'⟩ := server_renews env hans
  refine List.forall_mem_cons.mpr ⟨trivial, ?_⟩
  cases r with
  | error e =>
    obtain ⟨res, hres⟩ := herror e
    rw [hres] at hrest
    rw [hrest.ret_trace]
    simp
  | ok o =>
    have hfind : c₁.find? .application request = some o := by
      rcases hans with hans | ⟨⟨e, he⟩, -⟩
      · exact hans.get_ok.2 o rfl
      · cases he
    have hknown := (known_of_find? (hrenews.bounded hc) hfind).renews hrenews'
    rw [← hsame, ← hsame']
    exact (hupdates o).replies hrest henv (hrenews'.bounded (hrenews.bounded hc)) hknown

end ReconcileApplication

end Automium
