import Automium.Effect.Client
import Automium.Proofs.Decision

/-!
# What the Application controller says to Rancher

`client` is an abstract client of Rancher, which says what the Application controller is for: it looks
for the active cluster of the name, for the project of the name and for the apps in it, it decides, and
then it refreshes the catalog and moves the namespace and installs the app, or upgrades it. Each
`Stage` has what is known by then.

* `Reconciles.talks`: what a reconcile says and hears is a whole conversation of the client, whatever
  Rancher and the API server reply.
* `Aimed`: so what is posted goes to the cluster and to the project that Rancher has listed under the
  names in the spec (`posted_aimed`).
-/

namespace Automium

open Effect Go

namespace ReconcileApplication

/-! ## The client -/

/-- What the controller is about to ask (module doc). -/
inductive Stage where
  | clusters
  | projects (clusterID : String)
  | apps (clusterID projectID : String)
  | refresh (clusterID projectID : String) (newInstallation : Bool)
  | move (clusterID projectID : String) (answers : StringMap)
  | install (clusterID projectID : String) (answers : StringMap)
  | upgrade (clusterID projectID appNamespace : String) (answers : StringMap)
  | ended

/-- The cluster that the reply to the request for the clusters names. -/
def clusterIn (texts : LibTexts) (name : String) (r : Except Error Response) :
    Except Error String :=
  match listReply texts "application.rancherList" decodeRancherList r with
  | .error e => .error e
  | .ok clusters => activeCluster name clusters

/-- The project that the reply to the request for the projects names. -/
def projectIn (texts : LibTexts) (name : String) (r : Except Error Response) :
    Except Error String :=
  match listReply texts "application.rancherList" decodeRancherList r with
  | .error e => .error e
  | .ok projects => projectNamed name projects

/-- The stage once the apps of the project are known. -/
def Stage.decided (vars : String → String) (spec : ApplicationSpec) (clusterID projectID : String)
    (projectApps : List AppItem) : Stage :=
  if Found spec.name projectApps then
    match answersFor vars spec with
    | .error _ => .ended
    | .ok answers =>
      if UpToDate spec answers projectApps then .ended else .refresh clusterID projectID false
  else .refresh clusterID projectID true

/-- The stage after the catalog was refreshed. -/
def Stage.refreshed (vars : String → String) (spec : ApplicationSpec) (clusterID projectID : String)
    (newInstallation : Bool) : Stage :=
  match answersFor vars spec with
  | .error _ => .ended
  | .ok answers =>
    if newInstallation then .move clusterID projectID answers
    else match afterColon projectID with
      | none => .ended
      | some appNamespace => .upgrade clusterID projectID appNamespace answers

/-- The client for the spec of an Application (module doc). -/
def client (vars : String → String) (texts : LibTexts) (spec : ApplicationSpec) :
    Client Stage HTTPRequest (Except Error Response) where
  request
    | .clusters => some (clustersRequest vars)
    | .projects clusterID => some (projectsRequest vars clusterID)
    | .apps _ projectID => some (appsRequest vars projectID)
    | .refresh _ _ _ => some (refreshRequest vars)
    | .move clusterID projectID _ => some (moveRequest vars clusterID projectID spec.ns)
    | .install _ projectID answers =>
      some (installRequest vars projectID (installBodyOf spec projectID answers))
    | .upgrade _ projectID appNamespace answers =>
      some (upgradeRequest vars projectID appNamespace (installBodyOf spec projectID answers))
    | .ended => none
  next stage r :=
    match stage with
    | .clusters =>
      match clusterIn texts spec.cluster r with
      | .error _ => .ended
      | .ok clusterID => .projects clusterID
    | .projects clusterID =>
      match projectIn texts spec.project r with
      | .error _ => .ended
      | .ok projectID => .apps clusterID projectID
    | .apps clusterID projectID =>
      match listing texts r with
      | .error _ => .ended
      | .ok projectApps => .decided vars spec clusterID projectID projectApps
    | .refresh clusterID projectID new => .refreshed vars spec clusterID projectID new
    | .move clusterID projectID answers =>
      if Accepted [200] r then .install clusterID projectID answers else .ended
    | .install _ _ _ | .upgrade _ _ _ _ | .ended => .ended

/-! ## Reconciles are conversations -/

section

variable {vars : String → String} {texts : LibTexts} {request : Key} {inst : Application}
  {acts rest : List Act} {res : Outcome (Except Error Result)} {cid pid : String}

/-- The conversation of the acts, from a stage on. -/
def Follows (vars : String → String) (texts : LibTexts) (inst : Application) (stage : Stage)
    (acts : List Act) : Prop :=
  (client vars texts inst.spec).Talks stage (exchangesOf acts)

theorem Follows.of_writes {phase : String} (h : Writes inst phase acts) :
    Follows vars texts inst .ended acts := by
  rw [Follows, h.exchangesOf]
  exact .ended rfl

theorem Follows.ask {stage : Stage} {req : HTTPRequest} {r : Except Error Response}
    (hreq : (client vars texts inst.spec).request stage = some req)
    (h : Follows vars texts inst ((client vars texts inst.spec).next stage r) rest) :
    Follows vars texts inst stage (.exchange req r :: rest) :=
  Client.Talks.ask hreq h

namespace Ends

variable {β : Type} {o : Outcome β}

theorem clusterIn {name : String} {f : Except Error String → AppCtl β}
    (h : Ends vars (getRancherClusterIDFromName texts name >>= f) acts o) :
    ∃ r rest, acts = .exchange (clustersRequest vars) r :: rest ∧
      Ends vars (f (ReconcileApplication.clusterIn texts name r)) rest o := by
  unfold getRancherClusterIDFromName at h
  rw [bind_assoc] at h
  obtain ⟨r, rest, hk, rfl⟩ := h.getList
  refine ⟨r, rest, rfl, ?_⟩
  unfold ReconcileApplication.clusterIn
  generalize listReply texts "application.rancherList" decodeRancherList r = reply at hk ⊢
  cases reply <;> exact hk

theorem projectIn {name : String} {f : Except Error String → AppCtl β}
    (h : Ends vars (getRancherProjectIDFromName texts cid name >>= f) acts o) :
    ∃ r rest, acts = .exchange (projectsRequest vars cid) r :: rest ∧
      Ends vars (f (ReconcileApplication.projectIn texts name r)) rest o := by
  unfold getRancherProjectIDFromName at h
  rw [bind_assoc] at h
  obtain ⟨r, rest, hk, rfl⟩ := h.getList
  refine ⟨r, rest, rfl, ?_⟩
  unfold ReconcileApplication.projectIn
  generalize listReply texts "application.rancherList" decodeRancherList r = reply at hk ⊢
  cases reply <;> exact hk

end Ends

theorem deploy_new_talks {phase : String} {failure : ApplicationSpec → String}
    (h : Ends vars (deploy inst cid pid phase failure true) acts res) :
    Follows vars texts inst (.refresh cid pid true) acts := by
  obtain ⟨r, more, hacts, hmore⟩ := deploy_new h
  rw [Follows, hacts]
  refine .ask rfl ?_
  show (client vars texts inst.spec).Talks (.refreshed vars inst.spec cid pid true) more
  unfold Stage.refreshed
  rcases hmore with ⟨⟨e, he⟩, rfl⟩ | ⟨answers, r', hans, ⟨hr, rfl⟩ | ⟨hr, r'', rfl⟩⟩
  · rw [he]
    exact .ended rfl
  · rw [hans]
    refine .ask rfl ?_
    show (client vars texts inst.spec).Talks
      (if Accepted [200] r' then .install cid pid answers else .ended) []
    rw [if_neg hr]
    exact .ended rfl
  · rw [hans]
    refine .ask rfl ?_
    show (client vars texts inst.spec).Talks
      (if Accepted [200] r' then .install cid pid answers else .ended) _
    rw [if_pos hr]
    exact .ask rfl (.ended rfl)

theorem deploy_old_talks {phase : String} {failure : ApplicationSpec → String}
    (h : Ends vars (deploy inst cid pid phase failure false) acts res) :
    Follows vars texts inst (.refresh cid pid false) acts := by
  obtain ⟨r, more, hacts, hmore⟩ := deploy_old h
  rw [Follows, hacts]
  refine .ask rfl ?_
  show (client vars texts inst.spec).Talks (.refreshed vars inst.spec cid pid false) more
  unfold Stage.refreshed
  rcases hmore with ⟨⟨e, he⟩, rfl⟩ | ⟨answers, hans, ⟨hcolon, rfl⟩ | ⟨appNamespace, r', hcolon, rfl⟩⟩
  · rw [he]
    exact .ended rfl
  · rw [hans, hcolon]
    exact .ended rfl
  · rw [hans, hcolon]
    exact .ask rfl (.ended rfl)

theorem syncApp_talks {apps : List AppItem}
    (h : Ends vars (syncApp inst cid pid apps) acts res) :
    Follows vars texts inst (.decided vars inst.spec cid pid apps) acts := by
  unfold Stage.decided
  rcases syncApp_cases h with ⟨⟨e, he⟩, hfound, -, hw⟩ | ⟨answers, hans, hfound, hsame, -, hw⟩ |
    ⟨answers, hans, hfound, hdiff, hend⟩ | ⟨hfound, hend⟩
  · rw [if_pos hfound, he]
    exact .of_writes hw
  · rw [if_pos hfound, hans]
    dsimp only
    rw [if_pos hsame]
    exact .of_writes hw
  · rw [if_pos hfound, hans]
    dsimp only
    rw [if_neg hdiff]
    exact deploy_old_talks hend
  · rw [if_neg hfound]
    exact deploy_new_talks hend

/-- A reconcile is a conversation of the client. -/
theorem Reconciles.talks (h : Reconciles vars texts request inst acts res) :
    Follows vars texts inst .clusters acts := by
  obtain ⟨hres, tr, he, rfl⟩ := h
  unfold Reconcile at he
  rw [get_inl_bind] at he
  have hstart : Ends vars _ (actsOf tr) res := ⟨hres, tr, (by
    cases he with
    | env hw _ => exact hw.elim
    | call _ hk => exact hk), rfl⟩
  dsimp only at hstart
  obtain ⟨r₁, rest₁, hacts, hend₁⟩ := hstart.clusterIn
  rw [hacts]
  refine .ask rfl ?_
  simp only [client]
  cases hcluster : clusterIn texts inst.spec.cluster r₁ with
  | error e =>
    rw [hcluster] at hend₁
    exact .of_writes hend₁.failWith.2
  | ok cid =>
    rw [hcluster] at hend₁
    obtain ⟨r₂, rest₂, rfl, hend₂⟩ := hend₁.projectIn
    refine .ask rfl ?_
    simp only [client]
    cases hproject : projectIn texts inst.spec.project r₂ with
    | error e =>
      rw [hproject] at hend₂
      exact .of_writes hend₂.failWith.2
    | ok pid =>
      rw [hproject] at hend₂
      obtain ⟨r₃, rest₃, rfl, hend₃⟩ := hend₂.projectApps
      refine .ask rfl ?_
      simp only [client]
      cases hlist : listing texts r₃ with
      | error e =>
        rw [hlist] at hend₃
        exact .of_writes hend₃.failWith.2
      | ok apps =>
        rw [hlist] at hend₃
        exact syncApp_talks hend₃

end

/-! ## What is known at a stage -/

/-- A request with its reply. -/
abbrev Exchange := HTTPRequest × Except Error Response

section

variable {vars : String → String} {texts : LibTexts} {spec : ApplicationSpec} {past : List Exchange}
  {cid pid : String}

/-- Rancher has listed the cluster under its name. -/
def KnowsCluster (vars : String → String) (texts : LibTexts) (spec : ApplicationSpec)
    (past : List Exchange) (cid : String) : Prop :=
  ∃ r, (clustersRequest vars, r) ∈ past ∧ clusterIn texts spec.cluster r = .ok cid

/-- Rancher has listed the cluster and the project under their names. -/
structure Aimed (vars : String → String) (texts : LibTexts) (spec : ApplicationSpec)
    (past : List Exchange) (cid pid : String) : Prop where
  cluster : KnowsCluster vars texts spec past cid
  project : ∃ r, (projectsRequest vars cid, r) ∈ past ∧ projectIn texts spec.project r = .ok pid

/-- Rancher has listed the apps of the project, and the app is among them or not. An app of the name
`does-not-exist` always counts as listed: the placeholder for a missing app has this name. -/
def Listed (vars : String → String) (texts : LibTexts) (spec : ApplicationSpec)
    (past : List Exchange) (pid : String) (newInstallation : Bool) : Prop :=
  ∃ r apps, (appsRequest vars pid, r) ∈ past ∧ listing texts r = .ok apps ∧
    ((∃ app ∈ apps, app.name = spec.name) ∨ spec.name = "does-not-exist" ↔ newInstallation = false)

/-- What is known at a stage of the exchanges before it. -/
def Knows (vars : String → String) (texts : LibTexts) (spec : ApplicationSpec)
    (past : List Exchange) : Stage → Prop
  | .clusters | .ended => True
  | .projects cid => KnowsCluster vars texts spec past cid
  | .apps cid pid => Aimed vars texts spec past cid pid
  | .refresh cid pid new => Aimed vars texts spec past cid pid ∧ Listed vars texts spec past pid new
  | .move cid pid answers => Aimed vars texts spec past cid pid ∧
      Listed vars texts spec past pid true ∧ answersFor vars spec = .ok answers
  | .install cid pid answers => Aimed vars texts spec past cid pid ∧
      Listed vars texts spec past pid true ∧ answersFor vars spec = .ok answers ∧
      ∃ r, (moveRequest vars cid pid spec.ns, r) ∈ past ∧ Accepted [200] r
  | .upgrade cid pid appNamespace answers => Aimed vars texts spec past cid pid ∧
      Listed vars texts spec past pid false ∧ answersFor vars spec = .ok answers ∧
      afterColon pid = some appNamespace

theorem KnowsCluster.mono {l : List Exchange} (h : KnowsCluster vars texts spec past cid)
    (hl : past ⊆ l) : KnowsCluster vars texts spec l cid :=
  h.imp fun _ h => ⟨hl h.1, h.2⟩

theorem Aimed.mono {l : List Exchange} (h : Aimed vars texts spec past cid pid) (hl : past ⊆ l) :
    Aimed vars texts spec l cid pid :=
  ⟨h.cluster.mono hl, h.project.imp fun _ h => ⟨hl h.1, h.2⟩⟩

theorem Listed.mono {l : List Exchange} {new : Bool} (h : Listed vars texts spec past pid new)
    (hl : past ⊆ l) : Listed vars texts spec l pid new := by
  obtain ⟨r, apps, hmem, h⟩ := h
  exact ⟨r, apps, hl hmem, h⟩

theorem knows_decided {apps : List AppItem} (haim : Aimed vars texts spec past cid pid)
    (hlist : ∀ new, (Found spec.name apps ↔ new = false) → Listed vars texts spec past pid new) :
    Knows vars texts spec past (.decided vars spec cid pid apps) := by
  unfold Stage.decided
  split
  · rename_i hfound
    split
    · trivial
    · split
      · trivial
      · exact ⟨haim, hlist false (iff_of_true hfound rfl)⟩
  · rename_i hfound
    exact ⟨haim, hlist true (iff_of_false hfound nofun)⟩

theorem knows_refreshed {new : Bool} (haim : Aimed vars texts spec past cid pid)
    (hlist : Listed vars texts spec past pid new) :
    Knows vars texts spec past (.refreshed vars spec cid pid new) := by
  unfold Stage.refreshed
  split
  · trivial
  · rename_i answers hans
    cases new with
    | true => exact ⟨haim, hlist, hans⟩
    | false =>
      rw [if_neg Bool.false_ne_true]
      split
      · trivial
      · rename_i appNamespace hcolon
        exact ⟨haim, hlist, hans, hcolon⟩

/-- What is known at a stage is known after the next exchange. -/
theorem knows_next (stage : Stage) (req : HTTPRequest) (r : Except Error Response)
    (h : Knows vars texts spec past stage) (hreq : (client vars texts spec).request stage = some req) :
    Knows vars texts spec (past ++ [(req, r)]) ((client vars texts spec).next stage r) := by
  have hpast : past ⊆ past ++ [(req, r)] := List.subset_append_left _ _
  have hnew : (req, r) ∈ past ++ [(req, r)] := List.mem_append_right _ (List.mem_singleton_self _)
  cases stage with
  | clusters =>
    cases hreq
    show Knows _ _ _ _ (match clusterIn texts spec.cluster r with
      | .error _ => .ended
      | .ok cid => .projects cid)
    split
    · trivial
    · rename_i cid hcluster
      exact ⟨r, hnew, hcluster⟩
  | projects cid =>
    cases hreq
    show Knows _ _ _ _ (match projectIn texts spec.project r with
      | .error _ => .ended
      | .ok pid => .apps cid pid)
    split
    · trivial
    · rename_i pid hproject
      exact ⟨h.mono hpast, r, hnew, hproject⟩
  | apps cid pid =>
    cases hreq
    show Knows _ _ _ _ (match listing texts r with
      | .error _ => .ended
      | .ok apps => .decided vars spec cid pid apps)
    split
    · trivial
    · rename_i apps hlist
      exact knows_decided (h.mono hpast) fun new hfound =>
        ⟨r, apps, hnew, hlist, found_iff.symm.trans hfound⟩
  | refresh cid pid new => exact knows_refreshed (h.1.mono hpast) (h.2.mono hpast)
  | move cid pid answers =>
    cases hreq
    show Knows _ _ _ _ (if Accepted [200] r then .install cid pid answers else .ended)
    split
    · rename_i haccepted
      exact ⟨h.1.mono hpast, h.2.1.mono hpast, h.2.2, r, hnew, haccepted⟩
    · trivial
  | install | upgrade | ended => trivial

/-! ## What is posted -/

/-- The requests that may be posted to the cluster and the project, given what was exchanged before and
afterwards. The app is sent at the end, if at all. -/
inductive Posted (vars : String → String) (texts : LibTexts) (spec : ApplicationSpec)
    (past later : List Exchange) (cid pid : String) : HTTPRequest → Prop
  | refresh : Posted vars texts spec past later cid pid (refreshRequest vars)
  | move : Listed vars texts spec past pid true →
      Posted vars texts spec past later cid pid (moveRequest vars cid pid spec.ns)
  | install {answers : StringMap} {r : Except Error Response} :
      Listed vars texts spec past pid true → answersFor vars spec = .ok answers →
      (moveRequest vars cid pid spec.ns, r) ∈ past → Accepted [200] r → later = [] →
      Posted vars texts spec past later cid pid
        (installRequest vars pid (installBodyOf spec pid answers))
  | upgrade {answers : StringMap} {appNamespace : String} :
      Listed vars texts spec past pid false → answersFor vars spec = .ok answers →
      afterColon pid = some appNamespace → later = [] →
      Posted vars texts spec past later cid pid
        (upgradeRequest vars pid appNamespace (installBodyOf spec pid answers))

/-- The app is installed in its project, or upgraded there. -/
inductive Ships (vars : String → String) (item : RancherAppItem) : HTTPRequest → Prop
  | install : Ships vars item (installRequest vars item.projectID item)
  | upgrade {appNamespace : String} : afterColon item.projectID = some appNamespace →
      Ships vars item (upgradeRequest vars item.projectID appNamespace item)

theorem posted_of_knows {later : List Exchange} {stage : Stage} {req : HTTPRequest}
    {r : Except Error Response} (h : Knows vars texts spec past stage)
    (hreq : (client vars texts spec).request stage = some req) (hpost : IsPost req)
    (hlater : (client vars texts spec).Talks ((client vars texts spec).next stage r) later) :
    ∃ cid pid, Aimed vars texts spec past cid pid ∧
      Posted vars texts spec past later cid pid req := by
  cases stage with
  | clusters =>
    cases hreq
    exact absurd hpost (list_not_post _)
  | projects cid =>
    cases hreq
    exact absurd hpost (list_not_post _)
  | apps cid pid =>
    cases hreq
    exact absurd hpost (list_not_post _)
  | refresh cid pid new =>
    cases hreq
    exact ⟨cid, pid, h.1, .refresh⟩
  | move cid pid answers =>
    cases hreq
    exact ⟨cid, pid, h.1, .move h.2.1⟩
  | install cid pid answers =>
    cases hreq
    obtain ⟨haim, hlist, hans, r', hmoved, haccepted⟩ := h
    exact ⟨cid, pid, haim, .install hlist hans hmoved haccepted (hlater.eq_nil rfl)⟩
  | upgrade cid pid appNamespace answers =>
    cases hreq
    obtain ⟨haim, hlist, hans, hcolon⟩ := h
    exact ⟨cid, pid, haim, .upgrade hlist hans hcolon (hlater.eq_nil rfl)⟩
  | ended => cases hreq

section

variable {request : Key} {inst : Application} {acts : List Act} {res : Outcome (Except Error Result)}
  {later : List Exchange} {req : HTTPRequest} {r : Except Error Response}

/-- The stage at which a request is made, with what is known there and what follows. -/
theorem Reconciles.at_stage (h : Reconciles vars texts request inst acts res)
    (he : exchangesOf acts = past ++ (req, r) :: later) :
    ∃ stage, Knows vars texts inst.spec past stage ∧
      (client vars texts inst.spec).request stage = some req ∧
      (client vars texts inst.spec).Talks ((client vars texts inst.spec).next stage r) later :=
  Client.Talks.known h.talks trivial (fun _ stage req r => knows_next stage req r) he

/-- The app that is sent. -/
theorem Reconciles.sent (h : Reconciles vars texts request inst acts res)
    (he : exchangesOf acts = past ++ (req, r) :: later) {item : RancherAppItem}
    (hitem : req.body = some (.app item)) :
    ∃ cid pid answers, Aimed vars texts inst.spec past cid pid ∧
      answersFor vars inst.spec = .ok answers ∧ item = installBodyOf inst.spec pid answers ∧
      Ships vars item req ∧ later = [] := by
  obtain ⟨stage, hknows, hreq, hlater⟩ := h.at_stage he
  cases stage with
  | install cid pid answers =>
    cases hreq
    cases hitem
    exact ⟨cid, pid, answers, hknows.1, hknows.2.2.1, rfl, .install, hlater.eq_nil rfl⟩
  | upgrade cid pid appNamespace answers =>
    cases hreq
    cases hitem
    obtain ⟨haim, -, hans, hcolon⟩ := hknows
    exact ⟨cid, pid, answers, haim, hans, rfl, .upgrade hcolon, hlater.eq_nil rfl⟩
  | clusters | projects | apps | refresh | move =>
    cases hreq
    cases hitem
  | ended => cases hreq

/-- What a reconcile posts goes to the cluster and the project that Rancher has listed under the names
in the spec, and is what has to be done there (module doc). -/
theorem posted_aimed (h : Reconciles vars texts request inst acts res) :
    (client vars texts inst.spec).Talks .clusters (exchangesOf acts) ∧
      ∀ past later req r, exchangesOf acts = past ++ (req, r) :: later → IsPost req →
        ∃ cid pid, Aimed vars texts inst.spec past cid pid ∧
          Posted vars texts inst.spec past later cid pid req := by
  refine ⟨h.talks, fun past later req r he hpost => ?_⟩
  obtain ⟨stage, hknows, hreq, hlater⟩ := h.at_stage he
  exact posted_of_knows hknows hreq hpost hlater

end

end

/-! ### An installation -/

/-- A project without apps. -/
def emptyProject : HTTPRequest → Except Error Response :=
  prodRancher (jsonReply 200 (.obj [("data", .arr [])]))

/-- The run in such a project. -/
def installRun : Ran AppApi Unit (Except Error Result) :=
  reconcileRun prodVars prodTexts loggingApp.key loggingApp emptyProject

/-- The app is installed. -/
theorem posted_aimed_install : ∃ past later r cid pid,
    exchangesOf (actsOf installRun.trace) = past ++
      (installRequest prodVars "c-1:p-1" (installBodyOf loggingApp.spec "c-1:p-1" ∅), r) :: later ∧
    Posted prodVars prodTexts loggingApp.spec past later cid pid
      (installRequest prodVars "c-1:p-1" (installBodyOf loggingApp.spec "c-1:p-1" ∅)) := by
  have hmem : (installRequest prodVars "c-1:p-1" (installBodyOf loggingApp.spec "c-1:p-1" ∅), _) ∈
      exchangesOf (actsOf installRun.trace) := exchange_run (by decide +kernel)
  obtain ⟨past, later, he⟩ := List.append_of_mem hmem
  obtain ⟨cid, pid, -, hposted⟩ := (posted_aimed reconciles_run).2 past later _ _ he rfl
  exact ⟨past, later, _, cid, pid, he, hposted⟩

end ReconcileApplication

end Automium
