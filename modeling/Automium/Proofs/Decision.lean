import Automium.Proofs.AppCalls

/-!
# What the Application controller decides

An execution of `Reconcile` looks for the cluster and for the project, asks for the apps of the
project, and decides (`Reconciles.cases`). What it decides depends on the apps that the reply to
this request lists, and `syncApp_cases` says what is sent then.
-/

namespace Automium

open Effect Go

namespace ReconcileApplication

variable {vars : String → String} {texts : LibTexts} {request : Key} {inst : Application}
  {acts rest : List Act} {res : Outcome (Except Error Result)} {cid pid : String}
  {apps : List AppItem} {r : Except Error Response}

/-! ## The branches -/

/-- The app that is compared has the name. -/
def Found (name : String) (apps : List AppItem) : Prop := (targetAppOf name apps).name = name

instance (name : String) (apps : List AppItem) : Decidable (Found name apps) :=
  inferInstanceAs (Decidable (_ = _))

/-- The app that is compared has the version and the answers. -/
def UpToDate (spec : ApplicationSpec) (answers : StringMap) (apps : List AppItem) : Prop :=
  (targetAppOf spec.name apps).version = Url.bytes spec.version.toList ∧
    (targetAppOf spec.name apps).answers = some answers

instance (spec : ApplicationSpec) (answers : StringMap) (apps : List AppItem) :
    Decidable (UpToDate spec answers apps) :=
  inferInstanceAs (Decidable (_ ∧ _))

theorem targetAppOf_of_mem {name : String} (h : ∃ app ∈ apps, app.name = name) :
    targetAppOf name apps ∈ apps ∧ (targetAppOf name apps).name = name := by
  cases hf : apps.find? (fun app => app.name = name) with
  | none =>
    obtain ⟨app, hmem, hname⟩ := h
    have hne := List.find?_eq_none.mp hf app hmem
    exact absurd hname (by simpa using hne)
  | some app =>
    have htarget : targetAppOf name apps = app := by rw [targetAppOf, hf]; rfl
    rw [htarget]
    exact ⟨List.mem_of_find?_eq_some hf, by simpa using List.find?_some hf⟩

theorem targetAppOf_of_absent {name : String} (h : ∀ app ∈ apps, app.name ≠ name) :
    targetAppOf name apps = { name := "does-not-exist" } := by
  have hf : apps.find? (fun app => app.name = name) = none :=
    List.find?_eq_none.mpr fun app hmem => by simpa using h app hmem
  rw [targetAppOf, hf]
  rfl

/-- The record that stands for no app has a name too. -/
theorem found_iff {name : String} :
    Found name apps ↔ (∃ app ∈ apps, app.name = name) ∨ name = "does-not-exist" := by
  by_cases h : ∃ app ∈ apps, app.name = name
  · exact iff_of_true (targetAppOf_of_mem h).2 (.inl h)
  · rw [Found, targetAppOf_of_absent fun app hmem hname => h ⟨app, hmem, hname⟩]
    exact ⟨fun hname => .inr hname.symm, fun hor => (hor.resolve_left h).symm⟩

theorem evalEnv_answersEquals (deployed : Option StringMap) (spec : ApplicationSpec) :
    evalEnv vars (answersEquals deployed spec) =
      some (match answersFor vars spec with
        | .error e => .error e
        | .ok answers => .ok (deployed = some answers)) := by
  rw [answersEquals, evalEnv_bind, evalEnv_answers]
  cases answersFor vars spec <;> rfl

/-- What is decided once the apps are known. -/
theorem syncApp_cases (h : Ends vars (syncApp inst cid pid apps) acts res) :
    ((∃ e, answersFor vars inst.spec = .error e) ∧ Found inst.spec.name apps ∧
        res = .done (.ok {}) ∧ Writes inst "Failed" acts) ∨
    (∃ answers, answersFor vars inst.spec = .ok answers ∧ Found inst.spec.name apps ∧
        UpToDate inst.spec answers apps ∧ res = .done (.ok { requeueAfter := 300 }) ∧
        Writes inst "Deployed" acts) ∨
    (∃ answers, answersFor vars inst.spec = .ok answers ∧ Found inst.spec.name apps ∧
        ¬ UpToDate inst.spec answers apps ∧
        Ends vars (deploy inst cid pid "Upgrading" upgradeFailure false) acts res) ∨
    (¬ Found inst.spec.name apps ∧
        Ends vars (deploy inst cid pid "Deploying" installFailure true) acts res) := by
  unfold syncApp at h
  dsimp only at h
  split at h
  · rename_i hfound
    have hend := h.eval (evalEnv_answersEquals _ _)
    cases hans : answersFor vars inst.spec with
    | error e =>
      rw [hans] at hend
      exact .inl ⟨⟨e, rfl⟩, hfound, hend.failWith⟩
    | ok answers =>
      rw [hans] at hend
      dsimp only at hend
      split at hend
      · rename_i hdiff
        refine .inr (.inr (.inl ⟨answers, rfl, hfound, ?_, hend⟩))
        rintro ⟨hversion, hanswers⟩
        rcases hdiff with hdiff | hdiff
        · exact hdiff hversion
        · exact of_decide_eq_false hdiff hanswers
      · rename_i hsame
        obtain ⟨hversion, hanswers⟩ := not_or.mp hsame
        refine .inr (.inl ⟨answers, rfl, hfound, ⟨not_not.mp hversion, ?_⟩, hend.finish⟩)
        exact of_decide_eq_true (by simpa using hanswers)
  · rename_i hfound
    exact .inr (.inr (.inr ⟨hfound, h⟩))

/-! ## Executions of `Reconcile` -/

/-- An execution of `Reconcile` that reads `inst`, does `acts` and ends with `res`. -/
def Reconciles (vars : String → String) (texts : LibTexts) (request : Key) (inst : Application)
    (acts : List Act) (res : Outcome (Except Error Result)) : Prop :=
  res ≠ .halted ∧ ∃ tr, Exec (anyReplies vars) (Reconcile texts request) ()
    (⟨(), .inl (.get .application request), .ok inst⟩ :: tr) res () ∧ actsOf tr = acts

/-- A request of the search for the cluster and for the project. -/
def IsLookup (vars : String → String) (act : Act) : Prop :=
  ∃ path r, act = .exchange (listRequest vars ("/v3/clusters" ++ path)) r

namespace Ends

variable {β : Type} {o : Outcome β}

theorem clusterID {name : String} {f : Except Error String → AppCtl β}
    (h : Ends vars (getRancherClusterIDFromName texts name >>= f) acts o) :
    ∃ act rest reply, IsLookup vars act ∧ acts = act :: rest ∧ Ends vars (f reply) rest o := by
  unfold getRancherClusterIDFromName at h
  rw [bind_assoc] at h
  obtain ⟨r, rest, hk, rfl⟩ := h.getList
  have hlookup : IsLookup vars (.exchange (clustersRequest vars) r) := ⟨"", r, rfl⟩
  cases hr : listReply texts "application.rancherList" decodeRancherList r with
  | error e =>
    rw [hr] at hk
    exact ⟨_, rest, _, hlookup, rfl, hk⟩
  | ok clusters =>
    rw [hr] at hk
    exact ⟨_, rest, _, hlookup, rfl, hk⟩

theorem projectID {clusterID name : String} {f : Except Error String → AppCtl β}
    (h : Ends vars (getRancherProjectIDFromName texts clusterID name >>= f) acts o) :
    ∃ act rest reply, IsLookup vars act ∧ acts = act :: rest ∧ Ends vars (f reply) rest o := by
  unfold getRancherProjectIDFromName at h
  rw [bind_assoc] at h
  obtain ⟨r, rest, hk, rfl⟩ := h.getList
  have hlookup : IsLookup vars (.exchange (projectsRequest vars clusterID) r) := by
    have hpath : "/v3/clusters/" ++ clusterID ++ "/projects" =
        "/v3/clusters" ++ ("/" ++ clusterID ++ "/projects") := by
      rw [show "/v3/clusters/" = "/v3/clusters" ++ "/" from rfl]
      simp only [String.append_assoc]
    exact ⟨_, r, by rw [projectsRequest, hpath]⟩
  cases hr : listReply texts "application.rancherList" decodeRancherList r with
  | error e =>
    rw [hr] at hk
    exact ⟨_, rest, _, hlookup, rfl, hk⟩
  | ok projects =>
    rw [hr] at hk
    exact ⟨_, rest, _, hlookup, rfl, hk⟩

theorem projectApps {projectID : String} {f : Except Error (List AppItem) → AppCtl β}
    (h : Ends vars (getRancherAppsFromProject texts projectID >>= f) acts o) :
    ∃ r rest, acts = .exchange (appsRequest vars projectID) r :: rest ∧
      Ends vars (f (listing texts r)) rest o := by
  unfold getRancherAppsFromProject at h
  rw [bind_assoc] at h
  obtain ⟨r, rest, hk, rfl⟩ := h.getList
  refine ⟨r, rest, rfl, ?_⟩
  unfold listing
  cases hr : listReply texts "application.rancherAppList" decodeRancherAppList r with
  | error e =>
    rw [hr] at hk
    exact hk
  | ok appsList =>
    rw [hr] at hk
    exact hk

end Ends

/-- The cluster or the project is not found, or the apps are asked for. -/
theorem Reconciles.cases (h : Reconciles vars texts request inst acts res) :
    ∃ gets rest, (∀ act ∈ gets, IsLookup vars act) ∧
      ((acts = gets ++ rest ∧ res = .done (.ok {}) ∧ Writes inst "Failed" rest) ∨
        ∃ cid pid r, acts = gets ++ .exchange (appsRequest vars pid) r :: rest ∧
          ((∃ e, listing texts r = .error e) ∧ res = .done (.ok {}) ∧ Writes inst "Failed" rest ∨
            ∃ apps, listing texts r = .ok apps ∧ Ends vars (syncApp inst cid pid apps) rest res)) := by
  obtain ⟨hres, tr, he, rfl⟩ := h
  unfold Reconcile at he
  rw [get_inl_bind] at he
  have hstart : Ends vars _ (actsOf tr) res := ⟨hres, tr, (by
    cases he with
    | env hw _ => exact hw.elim
    | call _ hk => exact hk), rfl⟩
  dsimp only at hstart
  obtain ⟨act₁, rest₁, reply, hact₁, hacts, hend₁⟩ := hstart.clusterID
  rw [hacts]
  cases reply with
  | error e => exact ⟨[act₁], rest₁, by simpa using hact₁, .inl ⟨rfl, hend₁.failWith⟩⟩
  | ok cid =>
    obtain ⟨act₂, rest₂, reply, hact₂, rfl, hend₂⟩ := hend₁.projectID
    have hgets : ∀ act ∈ [act₁, act₂], IsLookup vars act := by
      simpa using ⟨hact₁, hact₂⟩
    cases reply with
    | error e => exact ⟨_, rest₂, hgets, .inl ⟨rfl, hend₂.failWith⟩⟩
    | ok pid =>
      obtain ⟨r, rest₃, rfl, hend₃⟩ := hend₂.projectApps
      refine ⟨_, rest₃, hgets, .inr ⟨cid, pid, r, rfl, ?_⟩⟩
      cases hlist : listing texts r with
      | error e =>
        rw [hlist] at hend₃
        exact .inl ⟨⟨e, rfl⟩, hend₃.failWith⟩
      | ok apps =>
        rw [hlist] at hend₃
        exact .inr ⟨apps, rfl, hend₃⟩

/-! ## What is sent -/

/-- A request of the kind is sent. -/
def Sends (kind : HTTPRequest → Prop) (acts : List Act) : Prop := ∃ e ∈ exchangesOf acts, kind e.1

def IsPost (req : HTTPRequest) : Prop := req.method = "POST"

def IsInstall (vars : String → String) (req : HTTPRequest) : Prop :=
  ∃ pid item, req = installRequest vars pid item

def IsUpgrade (vars : String → String) (req : HTTPRequest) : Prop :=
  ∃ pid ns item, req = upgradeRequest vars pid ns item

def IsMove (vars : String → String) (req : HTTPRequest) : Prop :=
  ∃ cid pid ns, req = moveRequest vars cid pid ns

/-- The phase that the writes of an execution leave, if it was `phase` before. -/
def phaseAfter (phase : String) : List Act → String
  | [] => phase
  | .exchange _ _ :: rest => phaseAfter phase rest
  | .status item :: rest => phaseAfter item.status.phase rest

theorem Writes.phaseAfter {phase : String} (h : Writes inst phase acts) :
    phaseAfter inst.status.phase acts = phase := by
  rcases h with ⟨h, rfl⟩ | ⟨-, item, h, rfl⟩ <;> exact h

/-- Requests write no phase. -/
theorem phaseAfter_append {phase : String} {gets : List Act}
    (hgets : ∀ act ∈ gets, ∃ path r, act = .exchange (listRequest vars path) r) :
    phaseAfter phase (gets ++ rest) = phaseAfter phase rest := by
  induction gets with
  | nil => rfl
  | cons act gets ih =>
    obtain ⟨⟨path, r, rfl⟩, hrest⟩ := List.forall_mem_cons.mp hgets
    exact ih hrest

theorem exchangesOf_append (acts acts' : List Act) :
    exchangesOf (acts ++ acts') = exchangesOf acts ++ exchangesOf acts' :=
  List.filterMap_append ..

theorem listRequest_inj {p p' : String} (h : listRequest vars p = listRequest vars p') : p = p' :=
  (String.append_right_inj _).mp (congrArg HTTPRequest.url h)

theorem appsRequest_inj {pid' : String} (h : appsRequest vars pid = appsRequest vars pid') :
    pid = pid' :=
  (String.append_right_inj _).mp ((String.append_left_inj _).mp (listRequest_inj h))

theorem appsRequest_ne_lookup {path : String} :
    appsRequest vars pid ≠ listRequest vars ("/v3/clusters" ++ path) := by
  intro h
  have hpath : "/v3/projects/" ++ pid ++ "/apps" = "/v3/clusters" ++ path := listRequest_inj h
  have hchars := congrArg String.toList hpath
  simp at hchars

theorem not_install_upgrade {pid' ns : String} {item item' : RancherAppItem} :
    installRequest vars pid item ≠ upgradeRequest vars pid' ns item' := by
  intro h
  have hurl : "https://" ++ vars "RANCHER_URL" ++ "/v3/projects/" ++ pid ++ "/app" =
      "https://" ++ vars "RANCHER_URL" ++ "/v3/projects/" ++ pid' ++ "/apps/" ++ ns ++ ":" ++
        item'.name ++ "?action=upgrade" := congrArg HTTPRequest.url h
  have hrev := congrArg (fun s : String => s.toList.reverse) hurl
  simp at hrev

/-! ## The kinds of requests -/

section Kinds

variable {ns : String} {item : RancherAppItem}

@[simp] theorem isPost_refresh : IsPost (refreshRequest vars) := rfl

@[simp] theorem isPost_move : IsPost (moveRequest vars cid pid ns) := rfl

@[simp] theorem isPost_install : IsPost (installRequest vars pid item) := rfl

@[simp] theorem isPost_upgrade : IsPost (upgradeRequest vars pid ns item) := rfl

@[simp] theorem isInstall_refresh : ¬ IsInstall vars (refreshRequest vars) := by
  rintro ⟨pid, item, h⟩
  cases congrArg HTTPRequest.body h

@[simp] theorem isInstall_move : ¬ IsInstall vars (moveRequest vars cid pid ns) := by
  rintro ⟨pid, item, h⟩
  cases congrArg HTTPRequest.body h

@[simp] theorem isInstall_install : IsInstall vars (installRequest vars pid item) :=
  ⟨pid, item, rfl⟩

@[simp] theorem isInstall_upgrade : ¬ IsInstall vars (upgradeRequest vars pid ns item) := by
  rintro ⟨pid, item, h⟩
  exact not_install_upgrade h.symm

@[simp] theorem isUpgrade_refresh : ¬ IsUpgrade vars (refreshRequest vars) := by
  rintro ⟨pid, ns, item, h⟩
  cases congrArg HTTPRequest.body h

@[simp] theorem isUpgrade_move : ¬ IsUpgrade vars (moveRequest vars cid pid ns) := by
  rintro ⟨pid, ns, item, h⟩
  cases congrArg HTTPRequest.body h

@[simp] theorem isUpgrade_install : ¬ IsUpgrade vars (installRequest vars pid item) := by
  rintro ⟨pid, ns, item, h⟩
  exact not_install_upgrade h

@[simp] theorem isUpgrade_upgrade : IsUpgrade vars (upgradeRequest vars pid ns item) :=
  ⟨pid, ns, item, rfl⟩

theorem list_not_post (path : String) : ¬ IsPost (listRequest vars path) := by
  intro h
  have hmethod : "GET" = "POST" := h
  simp at hmethod

theorem list_not_install (path : String) : ¬ IsInstall vars (listRequest vars path) := by
  rintro ⟨pid, item, h⟩
  cases congrArg HTTPRequest.body h

theorem list_not_upgrade (path : String) : ¬ IsUpgrade vars (listRequest vars path) := by
  rintro ⟨pid, ns, item, h⟩
  cases congrArg HTTPRequest.body h

@[simp] theorem isMove_refresh : ¬ IsMove vars (refreshRequest vars) := by
  rintro ⟨cid, pid, ns, h⟩
  cases congrArg HTTPRequest.body h

@[simp] theorem isMove_move : IsMove vars (moveRequest vars cid pid ns) := ⟨cid, pid, ns, rfl⟩

@[simp] theorem isMove_upgrade : ¬ IsMove vars (upgradeRequest vars pid ns item) := by
  rintro ⟨cid, pid, ns, h⟩
  cases congrArg HTTPRequest.body h

theorem list_not_move (path : String) : ¬ IsMove vars (listRequest vars path) := by
  rintro ⟨cid, pid, ns, h⟩
  cases congrArg HTTPRequest.body h

end Kinds

/-- The requests for lists do not count. -/
theorem sends_append {kind : HTTPRequest → Prop} {gets : List Act}
    (hgets : ∀ act ∈ gets, ∃ path r, act = .exchange (listRequest vars path) r)
    (hkind : ∀ path, ¬ kind (listRequest vars path)) :
    Sends kind (gets ++ rest) ↔ ∃ e ∈ exchangesOf rest, kind e.1 := by
  constructor
  · rintro ⟨e, he, hk⟩
    rw [exchangesOf_append] at he
    rcases List.mem_append.mp he with he | he
    · obtain ⟨act, hmem, hact⟩ := List.mem_filterMap.mp he
      obtain ⟨path, r, rfl⟩ := hgets act hmem
      cases hact
      exact absurd hk (hkind path)
    · exact ⟨e, he, hk⟩
  · rintro ⟨e, he, hk⟩
    exact ⟨e, by rw [exchangesOf_append]; exact List.mem_append_right _ he, hk⟩

/-- After the decision there are only posts. -/
theorem posts_of_syncApp (h : Ends vars (syncApp inst cid pid apps) acts res) :
    ∀ e ∈ exchangesOf acts, IsPost e.1 := by
  have hnone : ∀ {phase}, Writes inst phase acts → ∀ e ∈ exchangesOf acts, IsPost e.1 := by
    intro phase hw
    simp [hw.exchangesOf]
  rcases syncApp_cases h with ⟨-, -, -, hw⟩ | ⟨-, -, -, -, -, hw⟩ | ⟨-, -, -, -, hd⟩ | ⟨-, hd⟩
  · exact hnone hw
  · exact hnone hw
  · obtain ⟨r, more, hacts, ⟨-, rfl⟩ | ⟨answers, -, ⟨-, rfl⟩ | ⟨ns, r', -, rfl⟩⟩⟩ := deploy_old hd
    all_goals simp [hacts]
  · obtain ⟨r, more, hacts, ⟨-, rfl⟩ | ⟨answers, r', -, ⟨-, rfl⟩ | ⟨-, r'', rfl⟩⟩⟩ := deploy_new hd
    all_goals simp [hacts]

/-- The requests before the decision. -/
theorem lookups_get {gets : List Act} (h : ∀ act ∈ gets, IsLookup vars act) :
    ∀ e ∈ exchangesOf gets, ∃ path, e.1 = listRequest vars ("/v3/clusters" ++ path) := by
  intro e he
  obtain ⟨act, hmem, hact⟩ := List.mem_filterMap.mp he
  obtain ⟨path, r, rfl⟩ := h act hmem
  cases hact
  exact ⟨path, rfl⟩

/-- The requests of an execution that asked for the apps: some lookups, this one, and what is
decided when it is answered. -/
theorem Reconciles.decided (h : Reconciles vars texts request inst acts res)
    (hr : (appsRequest vars pid, r) ∈ exchangesOf acts) :
    ∃ cid gets rest, acts = gets ++ rest ∧
      (∀ act ∈ gets, ∃ path r, act = .exchange (listRequest vars path) r) ∧
      ((∃ e, listing texts r = .error e) ∧ res = .done (.ok {}) ∧ Writes inst "Failed" rest ∨
        ∃ apps, listing texts r = .ok apps ∧ Ends vars (syncApp inst cid pid apps) rest res) := by
  obtain ⟨gets, rest, hgets, ⟨rfl, -, hw⟩ | ⟨cid, pid', r', rfl, hcases⟩⟩ := h.cases
  · rw [exchangesOf_append, hw.exchangesOf, List.append_nil] at hr
    obtain ⟨path, hpath⟩ := lookups_get hgets _ hr
    exact absurd hpath appsRequest_ne_lookup
  have hposts : ∀ e ∈ exchangesOf rest, IsPost e.1 := by
    rcases hcases with ⟨-, -, hw⟩ | ⟨apps, -, hsync⟩
    · simp [hw.exchangesOf]
    · exact posts_of_syncApp hsync
  have hsame : pid = pid' ∧ r = r' := by
    rw [exchangesOf_append] at hr
    rcases List.mem_append.mp hr with hr | hr
    · obtain ⟨path, hpath⟩ := lookups_get hgets _ hr
      exact absurd hpath appsRequest_ne_lookup
    · rcases List.mem_cons.mp hr with heq | hr
      · obtain ⟨hreq, hreply⟩ := Prod.mk.inj heq
        exact ⟨appsRequest_inj hreq, hreply⟩
      · have hpost : "GET" = "POST" := hposts _ hr
        simp at hpost
  obtain ⟨rfl, rfl⟩ := hsame
  refine ⟨cid, gets ++ [.exchange (appsRequest vars pid) r], rest, by simp, ?_, hcases⟩
  intro act hact
  rcases List.mem_append.mp hact with hact | hact
  · obtain ⟨path, r', rfl⟩ := hgets act hact
    exact ⟨_, r', rfl⟩
  · rw [List.mem_singleton.mp hact]
    exact ⟨_, r, rfl⟩

/-! ## Runs -/

/-- The copy of an object. Only the Application is there. -/
def copyOf (stored : Application) : (k : Kind) → Except Error k.Obj
  | .application => .ok stored
  | .service | .module | .node | .job | .pod | .addon _ => .error (.new "no copy")

/-- Nothing fails in Kubernetes. -/
def kubeReply (vars : String → String) (stored : Application) : (op : Request) → op.Reply
  | .get k _ => copyOf stored k
  | .create _ o | .update _ o | .updateStatus _ o => .ok o
  | .list _ _ => .ok []
  | .delete _ _ | .slack _ => .ok ()
  | .now => Cluster.empty.time
  | .getenv name => vars name

/-- Nothing fails in Kubernetes, and `rancher` replies to the requests. -/
def replies (vars : String → String) (stored : Application)
    (rancher : HTTPRequest → Except Error Response) (_ : Unit) :
    (op : AppApi.Op) → AppApi.Reply op × Unit
  | .inl op => (kubeReply vars stored op, ())
  | .inr req => (rancher req, ())

/-- The run of `Reconcile` with these replies. -/
def reconcileRun (vars : String → String) (texts : LibTexts) (request : Key) (stored : Application)
    (rancher : HTTPRequest → Except Error Response) : Ran AppApi Unit (Except Error Result) :=
  run (replies vars stored rancher) (Reconcile texts request) ()

variable {stored : Application} {rancher : HTTPRequest → Except Error Response}

theorem replies_answer (op : AppApi.Op) :
    AppReply vars op (replies vars stored rancher () op).1 := by
  rcases op with op | req
  · cases op with
    | updateStatus k item =>
      cases k with
      | application =>
        intro o ho
        cases ho
        exact ⟨rfl, rfl⟩
      | _ => trivial
    | getenv name => rfl
    | _ => trivial
  · trivial

theorem reconciles_run :
    Reconciles vars texts request stored
      (actsOf (reconcileRun vars texts request stored rancher).trace)
      (reconcileRun vars texts request stored rancher).outcome := by
  have he := Exec.of_run (W := anyReplies vars) (fun _ op => @replies_answer vars stored rancher op)
    (Reconcile texts request) ()
  exact ⟨run_ne_halted _ _, _, he, rfl⟩

theorem event_of_exchange {tr : List (Event AppApi Unit)} {req : HTTPRequest}
    (h : (req, r) ∈ exchangesOf (actsOf tr)) : ⟨(), .inr req, r⟩ ∈ tr := by
  obtain ⟨act, hact, hex⟩ := List.mem_filterMap.mp h
  obtain ⟨e, he, hof⟩ := List.mem_filterMap.mp hact
  cases act with
  | status => cases hex
  | exchange =>
    cases hex
    obtain ⟨⟨⟩, op, reply⟩ := e
    rcases op with op | req'
    · cases op with
      | updateStatus k item => cases k <;> cases hof
      | _ => cases hof
    · cases hof
      exact he

/-- A request of a run has the reply of `rancher`. -/
theorem exchange_run {req : HTTPRequest}
    (h : req ∈ (exchangesOf (actsOf (reconcileRun vars texts request stored rancher).trace)).map
      Prod.fst) :
    (req, rancher req) ∈
      exchangesOf (actsOf (reconcileRun vars texts request stored rancher).trace) := by
  obtain ⟨⟨_, r⟩, hmem, rfl⟩ := List.mem_map.mp h
  have hreply : r = rancher _ := reply_of_run (event_of_exchange hmem)
  rwa [← hreply]

/-! A cluster `prod` with one project, whose apps are requested with the reply `apps`. -/

def jsonReply (statusCode : Nat) (j : Json) : Except Error Response :=
  .ok { statusCode := statusCode, status := toString statusCode, json := .ok j }

def prodRancher (apps : Except Error Response) (req : HTTPRequest) : Except Error Response :=
  if req.method = "POST" then
    match req.body with
    | some (.app _) => jsonReply 201 (.obj [])
    | _ => jsonReply 200 (.obj [])
  else if req.url = "https://rancher/v3/clusters" then
    jsonReply 200 (.obj [("data", .arr [.obj
      [("name", .str "prod"), ("id", .str "c-1"), ("state", .str "active")]])])
  else if req.url = "https://rancher/v3/clusters/c-1/projects" then
    jsonReply 200 (.obj [("data", .arr [.obj
      [("name", .str "System"), ("id", .str "c-1:p-1"), ("state", .str "active")]])])
  else apps

def prodVars (name : String) : String := if name = "RANCHER_URL" then "rancher" else ""

def prodTexts : LibTexts where
  json type _ := "cannot unmarshal into Go value of type " ++ type
  url rawurl := "parse " ++ rawurl ++ ": invalid URL"

/-- An Application for the cluster. -/
def loggingApp : Application where
  metadata := { name := "nginx-logging", ns := "default" }
  spec := { name := "automium-logging", version := "1.0", cluster := "prod", project := "System",
            ns := "automium-logging" }
  status := {}

end ReconcileApplication

end Automium
