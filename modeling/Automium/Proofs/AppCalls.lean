import Automium.Controller.Application

/-!
# What the Application controller does

`anyReplies vars` is the world of a reconcile: the environment variables are `vars`, and every
other call may have any reply, so Rancher and the API server may be in any state. Only the reply to
a status update is the object that was sent.

What an execution does, seen from outside, is a list of acts: the requests to Rancher with their
replies, and the statuses that are written. `Ends vars p acts o`: `p` has an execution that ends
with `o` and does this. The lemmas of this module say what the acts of each function are.
-/

namespace Automium

open Effect Go

namespace ReconcileApplication

/-! ## Executions -/

/-- The replies (module doc). -/
def AppReply (vars : String → String) : (op : AppApi.Op) → AppApi.Reply op → Prop
  | .inl (.getenv name), r => r = vars name
  | .inl (.updateStatus .application item), r => ∀ o : Application, r = .ok o →
    o.spec = item.spec ∧ o.status = item.status
  | _, _ => True

/-- The world (module doc). -/
def anyReplies (vars : String → String) : World AppApi Unit where
  env _ _ := False
  answer _ op r _ := AppReply vars op r

/-- What can be seen from outside. -/
inductive Act where
  | exchange (req : HTTPRequest) (reply : Except Error Response)
  | status (item : Application)

/-- The act of a call. -/
def actOf : Event AppApi Unit → Option Act
  | ⟨_, .inr req, r⟩ => some (.exchange req r)
  | ⟨_, .inl (.updateStatus .application item), _⟩ => some (.status item)
  | _ => none

def actsOf (tr : List (Event AppApi Unit)) : List Act := tr.filterMap actOf

/-- `p` ends with `o` and does this (module doc). -/
def Ends {α : Type} (vars : String → String) (p : AppCtl α) (acts : List Act) (o : Outcome α) :
    Prop :=
  o ≠ .halted ∧ ∃ tr, Exec (anyReplies vars) p () tr o () ∧ actsOf tr = acts

namespace Ends

variable {α β : Type} {vars : String → String} {acts : List Act} {o : Outcome β}

theorem ret {a : β} (h : Ends vars (.ret a) acts o) : o = .done a ∧ acts = [] := by
  obtain ⟨ho, tr, he, rfl⟩ := h
  cases he with
  | ret => exact ⟨rfl, rfl⟩
  | halt => exact absurd rfl ho
  | env hw _ => exact hw.elim

theorem crash {msg : String} (h : Ends vars (.crash msg) acts o) :
    o = .crashed msg ∧ acts = [] := by
  obtain ⟨ho, tr, he, rfl⟩ := h
  cases he with
  | crash => exact ⟨rfl, rfl⟩
  | halt => exact absurd rfl ho
  | env hw _ => exact hw.elim

/-- The first call, its reply, and what follows. -/
theorem call {op : AppApi.Op} {k : AppApi.Reply op → AppCtl β}
    (h : Ends vars (.call op k) acts o) :
    ∃ r rest, AppReply vars op r ∧ Ends vars (k r) rest o ∧
      acts = (actOf ⟨(), op, r⟩).toList ++ rest := by
  obtain ⟨ho, tr, he, rfl⟩ := h
  cases he with
  | halt => exact absurd rfl ho
  | env hw _ => exact hw.elim
  | @call _ _ _ _ _ r tr _ ha hk =>
    refine ⟨r, actsOf tr, ha, ⟨ho, tr, hk, rfl⟩, ?_⟩
    rw [actsOf, List.filterMap_cons]
    cases actOf ⟨(), op, r⟩ <;> rfl

theorem getenv {name : String} {f : String → AppCtl β}
    (h : Ends vars ((Automium.getenv name).inl >>= f) acts o) : Ends vars (f (vars name)) acts o := by
  rw [getenv_inl_bind] at h
  obtain ⟨r, rest, hr, hk, rfl⟩ := h.call
  cases hr
  exact hk

theorem http {req : HTTPRequest} {f : Except Error Response → AppCtl β}
    (h : Ends vars (Automium.http req >>= f) acts o) :
    ∃ r rest, Ends vars (f r) rest o ∧ acts = .exchange req r :: rest := by
  rw [http_bind] at h
  obtain ⟨r, rest, -, hk, rfl⟩ := h.call
  exact ⟨r, rest, hk, rfl⟩

end Ends

/-! ## Programs that read the environment only -/

/-- The result of a program that only reads environment variables. -/
def evalEnv {α : Type} (vars : String → String) : Ctl α → Option α
  | .ret a => some a
  | .call (.getenv name) k => evalEnv vars (k (vars name))
  | _ => none

section

variable {α β : Type} {vars : String → String} {acts : List Act} {o : Outcome β}

theorem evalEnv_bind (p : Ctl α) (f : α → Ctl β) :
    evalEnv vars (p >>= f) = (evalEnv vars p).bind fun a => evalEnv vars (f a) := by
  induction p with
  | ret a => rfl
  | crash => rfl
  | call op k ih =>
    rw [Prog.call_bind]
    cases op with
    | getenv name => exact ih (vars name)
    | get | list | create | update | updateStatus | delete | now | slack => rfl

/-- Such a program does nothing that can be seen. -/
theorem Ends.eval {p : Ctl α} {a : α} {f : α → AppCtl β} (hp : evalEnv vars p = some a)
    (h : Ends vars (p.inl >>= f) acts o) : Ends vars (f a) acts o := by
  induction p with
  | ret b =>
    cases hp
    exact h
  | crash => cases hp
  | call op k ih =>
    cases op with
    | getenv name =>
      obtain ⟨r, rest, hr, hk, rfl⟩ := h.call
      cases hr
      exact ih _ hp hk
    | get | list | create | update | updateStatus | delete | now | slack => cases hp

/-- The answers for a spec, in the environment `vars` (`evalEnv_answers`: there is a result). -/
def answersFor (vars : String → String) (spec : ApplicationSpec) : Except Error StringMap :=
  (evalEnv vars (buildAppAnswers spec)).getD (.ok ∅)

theorem evalEnv_getenv (name : String) (f : String → Ctl β) :
    evalEnv vars (Automium.getenv name >>= f) = evalEnv vars (f (vars name)) := rfl

theorem evalEnv_storageClass :
    ∃ r, evalEnv vars generateStorageClassConfiguration = some r := by
  unfold generateStorageClassConfiguration
  rw [evalEnv_getenv]
  split
  · rw [evalEnv_getenv]
    split
    · exact ⟨_, rfl⟩
    · exact ⟨_, rfl⟩
  · exact ⟨_, rfl⟩

theorem evalEnv_defaults (spec : ApplicationSpec) :
    ∃ r, evalEnv vars (getDefaultAnswersForApp spec) = some r := by
  unfold getDefaultAnswersForApp
  split
  · simp only [evalEnv_bind]
    obtain ⟨r, hr⟩ := @evalEnv_storageClass vars
    rw [hr]
    cases r <;> exact ⟨_, rfl⟩
  · split <;> exact ⟨_, rfl⟩

theorem evalEnv_answers (spec : ApplicationSpec) :
    evalEnv vars (buildAppAnswers spec) = some (answersFor vars spec) := by
  have h : ∃ r, evalEnv vars (buildAppAnswers spec) = some r := by
    unfold buildAppAnswers
    rw [evalEnv_bind]
    obtain ⟨r, hr⟩ := @evalEnv_defaults vars spec
    rw [hr]
    cases r <;> exact ⟨_, rfl⟩
  obtain ⟨r, hr⟩ := h
  rw [answersFor, hr]
  rfl

/-! ## Requests -/

/-- The request that `doRequest` makes. -/
def requestOf (vars : String → String) (method url : String) (body : Option RequestBody) :
    HTTPRequest where
  method := method
  url := url
  authorization := "Bearer " ++ vars "RANCHER_CLUSTER_TOKEN"
  body := body

/-- The request for a list. -/
def listRequest (vars : String → String) (path : String) : HTTPRequest :=
  requestOf vars "GET" ("https://" ++ vars "RANCHER_URL" ++ path) none

def clustersRequest (vars : String → String) : HTTPRequest := listRequest vars "/v3/clusters"

def projectsRequest (vars : String → String) (clusterID : String) : HTTPRequest :=
  listRequest vars ("/v3/clusters/" ++ clusterID ++ "/projects")

def appsRequest (vars : String → String) (projectID : String) : HTTPRequest :=
  listRequest vars (appsPath projectID)

def refreshRequest (vars : String → String) : HTTPRequest :=
  requestOf vars "POST" (refreshURL (vars "RANCHER_URL")) none

def moveRequest (vars : String → String) (clusterID projectID ns : String) : HTTPRequest :=
  requestOf vars "POST" (moveURL (vars "RANCHER_URL") clusterID ns) (some (.move projectID))

def installRequest (vars : String → String) (projectID : String) (item : RancherAppItem) :
    HTTPRequest :=
  requestOf vars "POST" (installURL (vars "RANCHER_URL") projectID) (some (.app item))

def upgradeRequest (vars : String → String) (projectID appNamespace : String)
    (item : RancherAppItem) : HTTPRequest :=
  requestOf vars "POST" (upgradeURL (vars "RANCHER_URL") projectID appNamespace item.name)
    (some (.app item))

/-- What the reply to a request for a list says. -/
def listReply {α : Type} (texts : LibTexts) (type : String) (decode : Json → Option α) :
    Except Error Response → Except Error α
  | .error e => .error e
  | .ok resp => decodeResponse texts type decode resp

/-- What the reply to a request for the apps says. -/
def listing (texts : LibTexts) (r : Except Error Response) : Except Error (List AppItem) :=
  match listReply texts "application.rancherAppList" decodeRancherAppList r with
  | .error e => .error e
  | .ok appsList => appsList.mapM (appOf texts)

namespace Ends

theorem doRequest {method url : String} {body : Option RequestBody}
    {f : Except Error Response → AppCtl β}
    (h : Ends vars (ReconcileApplication.doRequest method url body >>= f) acts o) :
    ∃ r rest, Ends vars (f r) rest o ∧
      acts = .exchange (requestOf vars method url body) r :: rest := by
  unfold ReconcileApplication.doRequest at h
  rw [bind_assoc] at h
  exact h.getenv.http

theorem getList {texts : LibTexts} {type path : String} {decode : Json → Option α}
    {f : Except Error α → AppCtl β}
    (h : Ends vars (ReconcileApplication.getList texts type decode path >>= f) acts o) :
    ∃ r rest, Ends vars (f (listReply texts type decode r)) rest o ∧
      acts = .exchange (listRequest vars path) r :: rest := by
  unfold ReconcileApplication.getList at h
  rw [bind_assoc] at h
  have h' := h.getenv
  rw [bind_assoc] at h'
  obtain ⟨r, rest, hk, rfl⟩ := h'.doRequest
  refine ⟨r, rest, ?_, rfl⟩
  cases r <;> exact hk

/-- The status is written if the phase is another one. -/
theorem updateStatus {inst : Application} {phase errorMsg : String} {f : Application → AppCtl β}
    (h : Ends vars ((ReconcileApplication.updateStatus inst phase errorMsg).inl >>= f) acts o) :
    ∃ inst' rest, inst'.spec = inst.spec ∧ inst'.status.phase = phase ∧ Ends vars (f inst') rest o ∧
      (inst.status.phase = phase ∧ acts = rest ∨ inst.status.phase ≠ phase ∧
        acts = .status { inst with status := { phase := phase, error := errorMsg } } :: rest) := by
  unfold ReconcileApplication.updateStatus at h
  split at h
  · rename_i hp
    exact ⟨inst, acts, rfl, hp, h, .inl ⟨hp, rfl⟩⟩
  · rename_i hp
    rw [updateStatus_bind] at h
    obtain ⟨r, rest, hr, hk, rfl⟩ := h.call
    cases r with
    | ok stored =>
      obtain ⟨hspec, hstatus⟩ := hr stored rfl
      exact ⟨stored, rest, hspec, congrArg ApplicationStatus.phase hstatus, hk, .inr ⟨hp, rfl⟩⟩
    | error e =>
      exact ⟨{ inst with status := { phase := phase, error := errorMsg } }, rest, rfl, rfl, hk,
        .inr ⟨hp, rfl⟩⟩

end Ends

/-! ## The ends of a reconcile -/

/-- The request of an act, with the reply. -/
def Act.exchange? : Act → Option (HTTPRequest × Except Error Response)
  | .exchange req r => some (req, r)
  | .status _ => none

def exchangesOf (acts : List Act) : List (HTTPRequest × Except Error Response) :=
  acts.filterMap Act.exchange?

/-- Nothing is sent, and the phase is written if it is another one. -/
def Writes (inst : Application) (phase : String) (acts : List Act) : Prop :=
  inst.status.phase = phase ∧ acts = [] ∨
    inst.status.phase ≠ phase ∧ ∃ item, item.status.phase = phase ∧ acts = [.status item]

theorem Writes.exchangesOf {inst : Application} {phase : String} (h : Writes inst phase acts) :
    exchangesOf acts = [] := by
  rcases h with ⟨-, rfl⟩ | ⟨-, item, -, rfl⟩ <;> rfl

variable {res : Outcome (Except Error Result)}

theorem Ends.failWith {inst : Application} {errorMsg : String}
    (h : Ends vars (ReconcileApplication.failWith inst errorMsg) acts res) :
    res = .done (.ok {}) ∧ Writes inst "Failed" acts := by
  obtain ⟨inst', rest, -, -, hk, hacts⟩ := h.updateStatus
  obtain ⟨rfl, rfl⟩ := hk.ret
  refine ⟨rfl, hacts.imp id fun hw => ⟨hw.1, _, ?_, hw.2⟩⟩
  rfl

theorem Ends.finish {inst : Application}
    (h : Ends vars (ReconcileApplication.finish inst) acts res) :
    res = .done (.ok { requeueAfter := 300 }) ∧ Writes inst "Deployed" acts := by
  obtain ⟨inst', rest, -, -, hk, hacts⟩ := h.updateStatus
  obtain ⟨rfl, rfl⟩ := hk.ret
  refine ⟨rfl, hacts.imp id fun hw => ⟨hw.1, _, ?_, hw.2⟩⟩
  rfl

/-! ## Deployments -/

/-- The reply has one of the status codes. -/
def Accepted (codes : List Nat) (r : Except Error Response) : Prop :=
  ∃ resp, r = .ok resp ∧ resp.statusCode ∈ codes

instance (codes : List Nat) : (r : Except Error Response) → Decidable (Accepted codes r)
  | .error _ => isFalse fun ⟨_, hr, _⟩ => by cases hr
  | .ok resp => decidable_of_iff (resp.statusCode ∈ codes)
      ⟨fun h => ⟨resp, rfl, h⟩, fun ⟨_, hr, h⟩ => by cases hr; exact h⟩

namespace Ends

theorem refresh {f : Except Error Unit → AppCtl β}
    (h : Ends vars (refreshAutomiumCatalog >>= f) acts o) :
    ∃ r rest u, Ends vars (f u) rest o ∧ acts = .exchange (refreshRequest vars) r :: rest := by
  unfold refreshAutomiumCatalog at h
  rw [bind_assoc] at h
  have h' := h.getenv
  rw [bind_assoc] at h'
  obtain ⟨r, rest, hk, rfl⟩ := h'.doRequest
  cases r with
  | error e => exact ⟨_, rest, _, hk, rfl⟩
  | ok resp =>
    dsimp only at hk
    split at hk <;> exact ⟨_, rest, _, hk, rfl⟩

theorem move {clusterID projectID ns : String} {f : Except Error Unit → AppCtl β}
    (h : Ends vars (moveNamespaceInProject clusterID projectID ns >>= f) acts o) :
    ∃ r rest, acts = .exchange (moveRequest vars clusterID projectID ns) r :: rest ∧
      (Accepted [200] r ∧ Ends vars (f (.ok ())) rest o ∨
        ¬ Accepted [200] r ∧ ∃ e, Ends vars (f (.error e)) rest o) := by
  unfold moveNamespaceInProject at h
  rw [bind_assoc] at h
  have h' := h.getenv
  rw [bind_assoc] at h'
  obtain ⟨r, rest, hk, rfl⟩ := h'.doRequest
  refine ⟨r, rest, rfl, ?_⟩
  cases r with
  | error e =>
    refine .inr ⟨?_, e, hk⟩
    rintro ⟨_, hr, -⟩
    cases hr
  | ok resp =>
    dsimp only at hk
    split at hk
    · rename_i hcode
      refine .inr ⟨?_, _, hk⟩
      rintro ⟨_, hr, hmem⟩
      cases hr
      exact hcode (by simpa using hmem)
    · rename_i hcode
      exact .inl ⟨⟨resp, rfl, by simpa using hcode⟩, hk⟩

theorem postApp {deployURL : String} {item : RancherAppItem} {f : Except Error Unit → AppCtl β}
    (h : Ends vars (ReconcileApplication.postApp deployURL item >>= f) acts o) :
    ∃ r rest u, Ends vars (f u) rest o ∧
      acts = .exchange (requestOf vars "POST" deployURL (some (.app item))) r :: rest := by
  unfold ReconcileApplication.postApp at h
  rw [bind_assoc] at h
  obtain ⟨r, rest, hk, rfl⟩ := h.doRequest
  cases r with
  | error e => exact ⟨_, rest, _, hk, rfl⟩
  | ok resp =>
    dsimp only at hk
    split at hk <;> exact ⟨_, rest, _, hk, rfl⟩

end Ends

/-- What follows the deployment sends nothing. -/
def Closes (vars : String → String) (res : Outcome (Except Error Result))
    (k : Except Error Unit → AppCtl (Except Error Result)) : Prop :=
  ∀ u rest, Ends vars (k u) rest res → exchangesOf rest = []

namespace Ends

/-- A deployment starts with the refresh of the catalog, and ends if the answers cannot be built. -/
theorem deploy {inst : Application} {clusterID projectID phase : String}
    {failure : ApplicationSpec → String} {new : Bool}
    (h : Ends vars (ReconcileApplication.deploy inst clusterID projectID phase failure new) acts
      res) :
    ∃ r rest, exchangesOf acts = (refreshRequest vars, r) :: exchangesOf rest ∧
      ((∃ e, answersFor vars inst.spec = .error e) ∧ exchangesOf rest = [] ∨
        ∃ answers k, answersFor vars inst.spec = .ok answers ∧ Closes vars res k ∧
          Ends vars ((if new then
              ReconcileApplication.installApp clusterID projectID inst.spec
                (installBodyOf inst.spec projectID answers)
            else ReconcileApplication.upgradeApp projectID inst.spec
              (installBodyOf inst.spec projectID answers)) >>= k) rest res) := by
  unfold ReconcileApplication.deploy at h
  obtain ⟨inst', rest, hspec, -, hk, hacts⟩ := h.updateStatus
  have hsame : exchangesOf acts = exchangesOf rest := by
    rcases hacts with ⟨-, rfl⟩ | ⟨-, rfl⟩ <;> rfl
  unfold deployApplication at hk
  rw [bind_assoc] at hk
  obtain ⟨r, rest', u, hk', rfl⟩ := hk.refresh
  rw [bind_assoc] at hk'
  have hend := hk'.eval (evalEnv_answers inst'.spec)
  rw [hspec] at hend
  refine ⟨r, rest', hsame, ?_⟩
  cases hans : answersFor vars inst.spec with
  | error e =>
    rw [hans] at hend
    exact .inl ⟨⟨e, rfl⟩, hend.failWith.2.exchangesOf⟩
  | ok answers =>
    rw [hans] at hend
    refine .inr ⟨answers, _, rfl, fun u rest hu => ?_, hend⟩
    cases u with
    | error e => exact hu.failWith.2.exchangesOf
    | ok => exact hu.finish.2.exchangesOf

variable {k : Except Error Unit → AppCtl (Except Error Result)}

theorem installApp {clusterID projectID : String} {spec : ApplicationSpec} {item : RancherAppItem}
    (hk : Closes vars res k)
    (h : Ends vars (ReconcileApplication.installApp clusterID projectID spec item >>= k) acts res) :
    ∃ r, ¬ Accepted [200] r ∧
        exchangesOf acts = [(moveRequest vars clusterID projectID spec.ns, r)] ∨
      Accepted [200] r ∧ ∃ r', exchangesOf acts =
        [(moveRequest vars clusterID projectID spec.ns, r),
         (installRequest vars projectID item, r')] := by
  unfold ReconcileApplication.installApp at h
  rw [bind_assoc] at h
  obtain ⟨r, rest, rfl, ⟨ha, hend⟩ | ⟨ha, e, hend⟩⟩ := h.move
  · rw [bind_assoc] at hend
    obtain ⟨r', rest', u, hclose, rfl⟩ := hend.getenv.postApp
    have hnil := hk u rest' hclose
    exact ⟨r, .inr ⟨ha, r', congrArg (fun l => _ :: _ :: l) hnil⟩⟩
  · exact ⟨r, .inl ⟨ha, congrArg (fun l => _ :: l) (hk _ rest hend)⟩⟩

theorem upgradeApp {projectID : String} {spec : ApplicationSpec} {item : RancherAppItem}
    (hname : item.name = spec.name) (hk : Closes vars res k)
    (h : Ends vars (ReconcileApplication.upgradeApp projectID spec item >>= k) acts res) :
    afterColon projectID = none ∧ exchangesOf acts = [] ∨
      ∃ appNamespace r, afterColon projectID = some appNamespace ∧
        exchangesOf acts = [(upgradeRequest vars projectID appNamespace item, r)] := by
  unfold ReconcileApplication.upgradeApp at h
  rw [bind_assoc] at h
  have h' := h.getenv
  cases hcolon : afterColon projectID with
  | none =>
    rw [hcolon] at h'
    obtain ⟨-, rfl⟩ := h'.crash
    exact .inl ⟨rfl, rfl⟩
  | some appNamespace =>
    rw [hcolon] at h'
    obtain ⟨r, rest, u, hclose, rfl⟩ := h'.postApp
    refine .inr ⟨appNamespace, r, rfl, ?_⟩
    rw [upgradeRequest, hname]
    exact congrArg (fun l => _ :: l) (hk u rest hclose)

end Ends

/-- A new installation. -/
theorem deploy_new {inst : Application} {clusterID projectID phase : String}
    {failure : ApplicationSpec → String}
    (h : Ends vars (deploy inst clusterID projectID phase failure true) acts res) :
    ∃ r more, exchangesOf acts = (refreshRequest vars, r) :: more ∧
      ((∃ e, answersFor vars inst.spec = .error e) ∧ more = [] ∨
        ∃ answers r', answersFor vars inst.spec = .ok answers ∧
          (¬ Accepted [200] r' ∧ more = [(moveRequest vars clusterID projectID inst.spec.ns, r')] ∨
            Accepted [200] r' ∧ ∃ r'', more =
              [(moveRequest vars clusterID projectID inst.spec.ns, r'),
               (installRequest vars projectID (installBodyOf inst.spec projectID answers), r'')])) := by
  obtain ⟨r, rest, hacts, hcases⟩ := h.deploy
  refine ⟨r, _, hacts, hcases.imp id ?_⟩
  rintro ⟨answers, k, hans, hk, hend⟩
  obtain ⟨r', hr'⟩ := hend.installApp hk
  exact ⟨answers, r', hans, hr'⟩

/-- An upgrade. -/
theorem deploy_old {inst : Application} {clusterID projectID phase : String}
    {failure : ApplicationSpec → String}
    (h : Ends vars (deploy inst clusterID projectID phase failure false) acts res) :
    ∃ r more, exchangesOf acts = (refreshRequest vars, r) :: more ∧
      ((∃ e, answersFor vars inst.spec = .error e) ∧ more = [] ∨
        ∃ answers, answersFor vars inst.spec = .ok answers ∧
          (afterColon projectID = none ∧ more = [] ∨
            ∃ appNamespace r', afterColon projectID = some appNamespace ∧ more =
              [(upgradeRequest vars projectID appNamespace
                (installBodyOf inst.spec projectID answers), r')])) := by
  obtain ⟨r, rest, hacts, hcases⟩ := h.deploy
  refine ⟨r, _, hacts, hcases.imp id ?_⟩
  rintro ⟨answers, k, hans, hk, hend⟩
  exact ⟨answers, hans, hend.upgradeApp rfl hk⟩

end

end ReconcileApplication

end Automium
