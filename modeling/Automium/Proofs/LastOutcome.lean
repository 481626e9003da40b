import Automium.Effect.Runs
import Automium.Proofs.AppServer
import Automium.Proofs.Decision

/-!
# The outcome of the last reconcile

What a reconcile of an Application comes to is said by a program of its own: `attempt` makes the same
requests and writes no status, but returns one. The stored status ought to be the one that `attempt`
returns for the replies of the last reconcile (`Reports`). But `updateStatus` writes nothing if the
phase is the same, so a failure after a failure leaves the old message: `last_outcome_iff`.

A reconcile is a step of a history (`history`); between two of them the user may change the
Application, but not its status.
-/

namespace Automium

open Effect Go

namespace ReconcileApplication

/-! ## What a reconcile comes to -/

/-- What has to be done, if the lookups succeed. -/
inductive Plan where
  | upToDate
  | upgrade (clusterID projectID : String)
  | install (clusterID projectID : String)

/-- The steps of a reconcile up to the decision, and the message of the one that fails. -/
def lookup (texts : LibTexts) (spec : ApplicationSpec) : AppCtl (Except String Plan) := do
  match ← getRancherClusterIDFromName texts spec.cluster with
  | .error e => return .error ("cannot get ID for cluster: " ++ e.text)
  | .ok clusterID =>
    match ← getRancherProjectIDFromName texts clusterID spec.project with
    | .error e => return .error ("cannot get ID for project " ++ spec.project ++ ": " ++ e.text)
    | .ok projectID =>
      match ← getRancherAppsFromProject texts projectID with
      | .error e => return .error ("cannot get apps in project " ++ spec.project ++ ": " ++ e.text)
      | .ok projectApps =>
        let targetApp := targetAppOf spec.name projectApps
        if targetApp.name = spec.name then
          match ← (answersEquals targetApp.answers spec).inl with
          | .error e =>
            return .error ("cannot validate answers for app " ++ spec.name ++ " in project " ++
              spec.project ++ ": " ++ e.text)
          | .ok answersMatch =>
            if targetApp.version ≠ Url.bytes spec.version.toList ∨ answersMatch = false then
              return .ok (.upgrade clusterID projectID)
            else return .ok .upToDate
        else return .ok (.install clusterID projectID)

def failed (message : String) : ApplicationStatus := { phase := "Failed", error := message }

def deployed : ApplicationStatus := { phase := "Deployed", error := "" }

/-- The outcome of a deployment. -/
def concluded (failure : String) : Except Error Unit → ApplicationStatus
  | .error e => failed (failure ++ ": " ++ e.text)
  | .ok _ => deployed

/-- The steps of a reconcile, and what they come to (module doc). -/
def attempt (texts : LibTexts) (spec : ApplicationSpec) : AppCtl ApplicationStatus := do
  match ← lookup texts spec with
  | .error message => return failed message
  | .ok .upToDate => return deployed
  | .ok (.upgrade clusterID projectID) => do
    let r ← deployApplication clusterID projectID spec false
    return concluded (upgradeFailure spec) r
  | .ok (.install clusterID projectID) => do
    let r ← deployApplication clusterID projectID spec true
    return concluded (installFailure spec) r

/-- The result of a program in the environment `vars`, if Rancher gives these replies. -/
def replay {α : Type} (vars : String → String) :
    AppCtl α → List (Except Error Response) → Option α
  | .ret a, _ => some a
  | .call (.inl (.getenv name)) k, rs => replay vars (k (vars name)) rs
  | .call (.inr _) k, r :: rs => replay vars (k r) rs
  | _, _ => none

def repliesOf (acts : List Act) : List (Except Error Response) := (exchangesOf acts).map Prod.snd

/-- What a reconcile with these acts comes to. -/
def outcomeOf (vars : String → String) (texts : LibTexts) (spec : ApplicationSpec)
    (acts : List Act) : Option ApplicationStatus :=
  replay vars (attempt texts spec) (repliesOf acts)

/-- The message of the lookup that fails in a reconcile with these acts. -/
def failedLookup (vars : String → String) (texts : LibTexts) (spec : ApplicationSpec)
    (acts : List Act) : Option String :=
  match replay vars (lookup texts spec) (repliesOf acts) with
  | some (.error message) => some message
  | _ => none

/-! ## Histories -/

/-- The status that is stored after the writes of an execution. -/
def statusAfter (status : ApplicationStatus) : List Act → ApplicationStatus
  | [] => status
  | .exchange _ _ :: rest => statusAfter status rest
  | .status item :: rest => statusAfter item.status rest

inductive Step where
  /-- A reconcile in the environment `vars`. -/
  | reconcile (vars : String → String) (acts : List Act) (res : Outcome (Except Error Result))
  /-- Somebody changes anything but the status, or a reconcile does not find the object. -/
  | other

/-- The steps on one Application from its creation on. The status writes succeed. -/
def history (texts : LibTexts) (request : Key) : Sys Application Step where
  init inst := inst.status = {}
  step
    | inst, .reconcile vars acts res, inst' => Reconciles vars texts request inst acts res ∧
      inst' = { inst with status := statusAfter inst.status acts }
    | inst, .other, inst' => inst'.status = inst.status

/-- After a reconcile that ends, the stored status is what it came to. -/
def Reports (texts : LibTexts) (t : Trans Application Step) : Prop :=
  match t.lbl with
  | .reconcile vars acts (.done _) => outcomeOf vars texts t.pre.spec acts = some t.post.status
  | _ => True

/-- A lookup does not fail after a failure with another message. -/
def NoNewMessage (texts : LibTexts) (t : Trans Application Step) : Prop :=
  match t.lbl with
  | .reconcile vars acts (.done _) => t.pre.status.phase = "Failed" →
    ∀ message, failedLookup vars texts t.pre.spec acts = some message →
      t.pre.status.error = message
  | _ => True

section

variable {α β : Type} {vars : String → String} {texts : LibTexts} {request : Key}
  {inst : Application} {acts acts' : List Act}

/-! ## A reconcile looks, then acts -/

/-- What follows the lookups. -/
def act (inst : Application) : Except String Plan → AppCtl (Except Error Result)
  | .error message => failWith inst message
  | .ok .upToDate => finish inst
  | .ok (.upgrade clusterID projectID) =>
    deploy inst clusterID projectID "Upgrading" upgradeFailure false
  | .ok (.install clusterID projectID) =>
    deploy inst clusterID projectID "Deploying" installFailure true

theorem Reconcile_eq (texts : LibTexts) (request : Key) :
    ∃ k, Reconcile texts request = .call (.inl (.get .application request)) k ∧
      ∀ inst, k (.ok inst) = lookup texts inst.spec >>= act inst := by
  refine ⟨_, get_inl_bind .application request _, fun inst => ?_⟩
  unfold lookup
  dsimp only
  rw [bind_assoc]
  congr 1
  funext r
  cases r with
  | error e => rfl
  | ok clusterID =>
    dsimp only
    rw [bind_assoc]
    congr 1
    funext r
    cases r with
    | error e => rfl
    | ok projectID =>
      dsimp only
      rw [bind_assoc]
      congr 1
      funext r
      cases r with
      | error e => rfl
      | ok projectApps =>
        unfold syncApp
        dsimp only
        split
        · rw [bind_assoc]
          congr 1
          funext r
          cases r with
          | error e => rfl
          | ok answersMatch =>
            dsimp only
            split <;> rfl
        · rfl

theorem lookup_asks (texts : LibTexts) (spec : ApplicationSpec) :
    Uses Asks (lookup texts spec) := by
  refine .bind (uses_clusterID ..) fun r => ?_
  cases r with
  | error => trivial
  | ok clusterID =>
    refine .bind (uses_projectID ..) fun r => ?_
    cases r with
    | error => trivial
    | ok projectID =>
      refine .bind (uses_projectApps ..) fun r => ?_
      cases r with
      | error => trivial
      | ok projectApps =>
        dsimp only
        split
        · refine .bind (Obeys.inl (uses_answersEquals ..)) fun r => ?_
          cases r with
          | error => trivial
          | ok => dsimp only; split <;> trivial
        · trivial

/-! ## Executions in two parts -/

theorem Ends.bind_done {p : AppCtl α} {f : α → AppCtl β} {b : β}
    (h : Ends vars (p >>= f) acts (.done b)) : ∃ a acts₁ acts₂, acts = acts₁ ++ acts₂ ∧
      Ends vars p acts₁ (.done a) ∧ Ends vars (f a) acts₂ (.done b) := by
  obtain ⟨-, tr, he, rfl⟩ := h
  obtain ⟨a, s₁, tr₁, tr₂, rfl, h₁, h₂⟩ := he.bind_done
  exact ⟨a, actsOf tr₁, actsOf tr₂, List.filterMap_append .., ⟨nofun, tr₁, h₁, rfl⟩,
    nofun, tr₂, h₂, rfl⟩

theorem repliesOf_append (acts acts' : List Act) :
    repliesOf (acts ++ acts') = repliesOf acts ++ repliesOf acts' := by
  rw [repliesOf, exchangesOf_append, List.map_append]
  rfl

/-- A program that only asks is replayed with the replies that it got. -/
theorem Ends.replay {p : AppCtl α} {a : α} (hp : Uses Asks p) (h : Ends vars p acts (.done a))
    (f : α → AppCtl β) (rs : List (Except Error Response)) :
    ReconcileApplication.replay vars (p >>= f) (repliesOf acts ++ rs) =
      ReconcileApplication.replay vars (f a) rs := by
  induction p generalizing acts with
  | ret b =>
    obtain ⟨ho, rfl⟩ := h.ret
    cases ho
    rfl
  | crash =>
    obtain ⟨ho, -⟩ := h.crash
    cases ho
  | call op k ih =>
    obtain ⟨hop, hk⟩ := hp
    obtain ⟨r, rest, hr, hend, rfl⟩ := h.call
    rcases op with op | req
    · cases op with
      | getenv name =>
        cases hr
        exact ih _ (hk _ trivial) hend
      | get | list | create | update | updateStatus | delete | now | slack => exact hop.elim
    · exact ih _ (hk _ trivial) hend

/-- A program that only asks writes no status. -/
theorem Ends.statusAfter {p : AppCtl α} {o : Outcome α} (hp : Uses Asks p) (h : Ends vars p acts o)
    (status : ApplicationStatus) (rest : List Act) :
    ReconcileApplication.statusAfter status (acts ++ rest) =
      ReconcileApplication.statusAfter status rest := by
  induction p generalizing acts with
  | ret b =>
    obtain ⟨-, rfl⟩ := h.ret
    rfl
  | crash =>
    obtain ⟨-, rfl⟩ := h.crash
    rfl
  | call op k ih =>
    obtain ⟨hop, hk⟩ := hp
    obtain ⟨r, more, hr, hend, rfl⟩ := h.call
    have hmore := ih r (hk r trivial) hend
    rcases op with op | req
    · cases op with
      | getenv name => exact hmore
      | get | list | create | update | updateStatus | delete | now | slack => exact hop.elim
    · exact hmore

/-- The last part of a reconcile: the status is written if the phase is another one. -/
theorem Ends.settles {phase message : String} {b : β} {o : Outcome β}
    (h : Ends vars ((ReconcileApplication.updateStatus inst phase message).inl >>= fun _ => .ret b)
      acts o) (status : ApplicationStatus) : ReconcileApplication.statusAfter status acts =
      if inst.status.phase = phase then status else { phase := phase, error := message } := by
  obtain ⟨inst', rest, -, -, hend, hacts⟩ := h.updateStatus
  obtain ⟨-, rfl⟩ := hend.ret
  rcases hacts with ⟨hphase, rfl⟩ | ⟨hphase, rfl⟩
  · rw [if_pos hphase]
    rfl
  · rw [if_neg hphase]
    rfl

/-- The replies to a program that only asks are those of its own acts. -/
theorem Ends.replay_self {p : AppCtl α} {a : α} (hp : Uses Asks p) (h : Ends vars p acts (.done a))
    (rs : List (Except Error Response)) :
    ReconcileApplication.replay vars p (repliesOf acts ++ rs) = some a := by
  have hreplay := h.replay hp .ret rs
  rw [Prog.bind_ret] at hreplay
  exact hreplay

/-! ## One reconcile -/

/-- A deployment, whose outcome is written over the phase that it starts with. -/
theorem Ends.deploys {clusterID projectID phase : String} {failure : ApplicationSpec → String}
    {new : Bool} {r : Except Error Result} (hfailed : phase ≠ "Failed") (hdone : phase ≠ "Deployed")
    (h : Ends vars (ReconcileApplication.deploy inst clusterID projectID phase failure new) acts
      (.done r)) : ∃ u,
      ReconcileApplication.replay vars (deployApplication clusterID projectID inst.spec new >>=
        fun u => .ret (concluded (failure inst.spec) u)) (repliesOf acts) =
          some (concluded (failure inst.spec) u) ∧
      ∀ status, ReconcileApplication.statusAfter status acts = concluded (failure inst.spec) u := by
  unfold ReconcileApplication.deploy at h
  obtain ⟨inst', rest, hspec, hset, hend, hacts⟩ := h.updateStatus
  obtain ⟨u, asked, rest', rfl, hasked, hend'⟩ := hend.bind_done
  have hasks := uses_deployApplication clusterID projectID inst'.spec new
  have hreplies : repliesOf acts = repliesOf asked ++ repliesOf rest' := by
    rw [← repliesOf_append]
    rcases hacts with ⟨-, rfl⟩ | ⟨-, rfl⟩ <;> rfl
  -- Whatever the phase was, the last write is that of the outcome.
  have hlast : ∀ status, ReconcileApplication.statusAfter status rest' =
      concluded (failure inst.spec) u := by
    intro status
    cases u with
    | error e =>
      have hsettles := Ends.settles hend' status
      rw [hset, if_neg hfailed, hspec] at hsettles
      exact hsettles
    | ok =>
      have hsettles := Ends.settles hend' status
      rw [hset, if_neg hdone] at hsettles
      exact hsettles
  refine ⟨u, ?_, fun status => ?_⟩
  · rw [hreplies, ← hspec, hasked.replay hasks]
    rfl
  · rcases hacts with ⟨-, rfl⟩ | ⟨-, rfl⟩
    · rw [hasked.statusAfter hasks, hlast]
    · exact (hasked.statusAfter hasks _ _).trans (hlast _)

/-- A reconcile that ends: a lookup fails, or the app is up to date, or it is deployed. -/
theorem Reconciles.ends {r : Except Error Result}
    (h : Reconciles vars texts request inst acts (.done r)) : ∃ plan asked rest,
      acts = asked ++ rest ∧ Ends vars (lookup texts inst.spec) asked (.done plan) ∧
        Ends vars (act inst plan) rest (.done r) := by
  obtain ⟨hres, tr, he, rfl⟩ := h
  obtain ⟨k, hk, hok⟩ := Reconcile_eq texts request
  rw [hk] at he
  have hstart : Ends vars (k (.ok inst)) (actsOf tr) (.done r) := ⟨hres, tr, (by
    cases he with
    | env hw _ => exact hw.elim
    | call _ hk => exact hk), rfl⟩
  rw [hok] at hstart
  exact hstart.bind_done

/-- What a reconcile that ends comes to, and what it leaves: its outcome is written, if it deploys or
if the phase is another one. -/
theorem Reconciles.outcome {r : Except Error Result}
    (h : Reconciles vars texts request inst acts (.done r)) :
    (∃ message, failedLookup vars texts inst.spec acts = some message ∧
      outcomeOf vars texts inst.spec acts = some (failed message) ∧
      statusAfter inst.status acts =
        if inst.status.phase = "Failed" then inst.status else failed message) ∨
    failedLookup vars texts inst.spec acts = none ∧
      (outcomeOf vars texts inst.spec acts = some deployed ∧
        statusAfter inst.status acts =
          if inst.status.phase = "Deployed" then inst.status else deployed) ∨
    failedLookup vars texts inst.spec acts = none ∧
      outcomeOf vars texts inst.spec acts = some (statusAfter inst.status acts) := by
  obtain ⟨plan, asked, rest, rfl, hasked, hend⟩ := h.ends
  have hasks := lookup_asks texts inst.spec
  have hlookup : replay vars (lookup texts inst.spec) (repliesOf (asked ++ rest)) = some plan := by
    rw [repliesOf_append, hasked.replay_self hasks]
  have hattempt : ∀ f : Except String Plan → AppCtl ApplicationStatus,
      replay vars (lookup texts inst.spec >>= f) (repliesOf (asked ++ rest)) =
        replay vars (f plan) (repliesOf rest) := fun f => by
    rw [repliesOf_append, hasked.replay hasks]
  rw [hasked.statusAfter hasks]
  unfold failedLookup outcomeOf attempt
  rw [hlookup, hattempt]
  cases plan with
  | error message => exact .inl ⟨message, rfl, rfl, Ends.settles hend _⟩
  | ok plan =>
    cases plan with
    | upToDate => exact .inr (.inl ⟨rfl, rfl, Ends.settles hend _⟩)
    | upgrade clusterID projectID =>
      obtain ⟨u, hu, hafter⟩ := Ends.deploys (by decide) (by decide) hend
      rw [hafter]
      exact .inr (.inr ⟨rfl, hu⟩)
    | install clusterID projectID =>
      obtain ⟨u, hu, hafter⟩ := Ends.deploys (by decide) (by decide) hend
      rw [hafter]
      exact .inr (.inr ⟨rfl, hu⟩)

/-! ## Whole histories -/

/-- There is no error with the phase `Deployed`. -/
def Tidy (status : ApplicationStatus) : Prop := status.phase = "Deployed" → status.error = ""

/-- A status that is written is tidy. -/
def WritesTidy : AppApi.Op → Prop
  | .inl (.updateStatus .application item) => Tidy item.status
  | _ => True

theorem writesTidy_of_asks {p : AppCtl α} (h : Uses Asks p) : Uses WritesTidy p := by
  refine h.mono fun op hop => ?_
  rcases op with op | req
  · cases op with
    | getenv => trivial
    | get | list | create | update | updateStatus | delete | now | slack => exact hop.elim
  · trivial

theorem updateStatus_tidy {phase message : String} (h : Tidy { phase := phase, error := message }) :
    Uses WritesTidy (updateStatus inst phase message).inl := by
  unfold updateStatus
  split
  · trivial
  · exact ⟨h, fun r _ => by cases r <;> trivial⟩

theorem act_tidy (inst : Application) (plan : Except String Plan) :
    Uses WritesTidy (act inst plan) := by
  have hne : "Failed" ≠ "Deployed" := by decide
  have hfail : ∀ (inst : Application) message, Uses WritesTidy (failWith inst message) :=
    fun inst message => .bind (updateStatus_tidy fun h => absurd h hne) fun _ => trivial
  have hfinish : ∀ inst : Application, Uses WritesTidy (finish inst) :=
    fun inst => .bind (updateStatus_tidy fun _ => rfl) fun _ => trivial
  have hdeploy : ∀ clusterID projectID phase failure new,
      Uses WritesTidy (deploy inst clusterID projectID phase failure new) := by
    intro clusterID projectID phase failure new
    refine .bind (updateStatus_tidy fun _ => rfl) fun inst' => ?_
    refine .bind (writesTidy_of_asks (uses_deployApplication ..)) fun r => ?_
    cases r with
    | error => exact hfail ..
    | ok => exact hfinish _
  cases plan with
  | error => exact hfail ..
  | ok plan =>
    cases plan with
    | upToDate => exact hfinish _
    | upgrade | install => exact hdeploy ..

theorem statusAfter_tidy {status : ApplicationStatus} (hs : Tidy status)
    (h : ∀ item, .status item ∈ acts → Tidy item.status) : Tidy (statusAfter status acts) := by
  induction acts generalizing status with
  | nil => exact hs
  | cons act rest ih =>
    have hrest : ∀ item, .status item ∈ rest → Tidy item.status := fun item hm =>
      h item (List.mem_cons_of_mem _ hm)
    cases act with
    | exchange => exact ih hs hrest
    | status item => exact ih (h item List.mem_cons_self) hrest

/-- A reconcile keeps the status tidy. -/
theorem Reconciles.tidy {res : Outcome (Except Error Result)}
    (h : Reconciles vars texts request inst acts res) (hs : Tidy inst.status) :
    Tidy (statusAfter inst.status acts) := by
  obtain ⟨hres, tr, he, rfl⟩ := h
  obtain ⟨k, hk, hok⟩ := Reconcile_eq texts request
  have huses : Uses WritesTidy (k (.ok inst)) := by
    rw [hok]
    exact .bind (writesTidy_of_asks (lookup_asks ..)) fun plan => act_tidy inst plan
  rw [hk] at he
  have hcalls : ∀ e ∈ tr, WritesTidy e.op := by
    cases he with
    | env hw _ => exact hw.elim
    | call _ hk => exact huses.events hk
  refine statusAfter_tidy hs fun item hm => ?_
  obtain ⟨⟨⟨⟩, op, r⟩, hmem, hact⟩ := List.mem_filterMap.mp hm
  have hcall := hcalls _ hmem
  rcases op with op | req
  · cases op with
    | updateStatus kind item' =>
      cases kind with
      | application =>
        cases hact
        exact hcall
      | service | module | node | job | pod | addon => cases hact
    | get | list | create | update | delete | now | getenv | slack => cases hact
  · cases hact

/-- For a stored status that is tidy, only the message of a failure may be wrong. -/
theorem reports_iff {inst' : Application} {lbl : Step}
    (hstep : (history texts request).step inst lbl inst') (hs : Tidy inst.status) :
    Reports texts ⟨inst, lbl, inst'⟩ ↔ NoNewMessage texts ⟨inst, lbl, inst'⟩ := by
  cases lbl with
  | other => exact iff_of_true trivial trivial
  | reconcile vars acts res =>
    cases res with
    | crashed | halted => exact iff_of_true trivial trivial
    | done r =>
      obtain ⟨hrec, rfl⟩ := hstep
      unfold Reports NoNewMessage
      dsimp only
      rcases hrec.outcome with ⟨message, hlookup, houtcome, hafter⟩ | ⟨hlookup, houtcome, hafter⟩ |
        ⟨hlookup, houtcome⟩
      · rw [houtcome, hafter, hlookup]
        by_cases hphase : inst.status.phase = "Failed"
        · rw [if_pos hphase]
          constructor
          · intro heq _ message' hmessage
            cases hmessage
            exact congrArg ApplicationStatus.error (Option.some.inj heq).symm
          · intro hmessage
            rw [← hmessage hphase message rfl, failed, ← hphase]
        · exact iff_of_true (by rw [if_neg hphase]) fun h => absurd h hphase
      · rw [houtcome, hafter, hlookup]
        refine iff_of_true ?_ fun _ message h => nomatch h
        split
        · rename_i hphase
          rw [deployed, ← hphase, ← hs hphase]
        · rfl
      · rw [houtcome, hlookup]
        exact iff_of_true rfl fun _ message h => nomatch h

/-- When the stored status is that of the last reconcile (module doc). -/
theorem last_outcome_iff {ts : List (Trans Application Step)} (h : Run (history texts request) ts inst) :
    (∀ t ∈ ts, Reports texts t) ↔ ∀ t ∈ ts, NoNewMessage texts t := by
  have hinit : ∀ inst, (history texts request).init inst → Tidy inst.status := by
    intro inst hinst
    rw [show inst.status = {} from hinst]
    exact nofun
  have hkeeps : ∀ t : Trans Application Step, (history texts request).step t.pre t.lbl t.post →
      Tidy t.pre.status → NoNewMessage texts t → Tidy t.post.status := by
    intro t hstep hs _
    cases hlbl : t.lbl with
    | reconcile vars acts res =>
      rw [hlbl] at hstep
      obtain ⟨hrec, hpost⟩ := hstep
      rw [hpost]
      exact hrec.tidy hs
    | other =>
      rw [hlbl] at hstep
      rw [show t.post.status = t.pre.status from hstep]
      exact hs
  exact h.forall_iff hinit hkeeps fun t hstep hs => reports_iff hstep hs

end

/-! ### Two failures in a row -/

/-- Only the request for the clusters is answered. -/
def brokenRancher (clusters : Except Error Response) (req : HTTPRequest) : Except Error Response :=
  if req.url = "https://rancher/v3/clusters" then clusters else .error (.new "timeout")

def brokenRun (stored : Application) (clusters : Except Error Response) :
    Ran AppApi Unit (Except Error Result) :=
  reconcileRun prodVars prodTexts loggingApp.key stored (brokenRancher clusters)

/-- The reconcile as a step of a history. -/
def brokenStep (stored : Application) (clusters : Except Error Response) : Trans Application Step where
  pre := stored
  lbl := .reconcile prodVars (actsOf (brokenRun stored clusters).trace)
    (brokenRun stored clusters).outcome
  post := { stored with
    status := statusAfter stored.status (actsOf (brokenRun stored clusters).trace) }

theorem run_brokenStep {stored : Application} {ts : List (Trans Application Step)}
    (h : Run (history prodTexts loggingApp.key) ts stored) (clusters : Except Error Response) :
    Run (history prodTexts loggingApp.key) (ts ++ [brokenStep stored clusters])
      (brokenStep stored clusters).post :=
  h.snoc ⟨reconciles_run, rfl⟩

theorem run_loggingApp : Run (history prodTexts loggingApp.key) [] loggingApp :=
  .nil (show loggingApp.status = {} from rfl)

/-- The Application after a reconcile that cannot reach Rancher. -/
def refusedApp : Application :=
  { loggingApp with status := failed "cannot get ID for cluster: connection refused" }

/-- Such a reconcile. -/
def refusedStep (stored : Application) : Trans Application Step :=
  brokenStep stored (.error (.new "connection refused"))

theorem run_refused : Run (history prodTexts loggingApp.key) [refusedStep loggingApp] refusedApp := by
  have hpost : (refusedStep loggingApp).post = refusedApp := by decide +kernel
  rw [← hpost]
  exact run_brokenStep run_loggingApp _

/-- The reply that lists the cluster. -/
def prodListed : Except Error Response :=
  jsonReply 200 (.obj [("data", .arr [.obj
    [("name", .str "prod"), ("id", .str "c-1"), ("state", .str "active")]])])

theorem noNewMessage_brokenStep {stored : Application} {clusters : Except Error Response}
    (h : stored.status.phase = "Failed" → failedLookup prodVars prodTexts stored.spec
      (actsOf (brokenRun stored clusters).trace) = some stored.status.error) :
    NoNewMessage prodTexts (brokenStep stored clusters) := by
  unfold NoNewMessage brokenStep
  dsimp only
  cases (brokenRun stored clusters).outcome with
  | crashed | halted => trivial
  | done res =>
    intro hphase message hlookup
    exact Option.some.inj ((h hphase).symm.trans hlookup)

/-- Both reconciles of the first history fail with one message, those of the second with two. -/
theorem last_outcome_logging :
    (∀ t ∈ [refusedStep loggingApp] ++ [refusedStep refusedApp], Reports prodTexts t) ∧
      ¬ ∀ t ∈ [refusedStep loggingApp] ++ [brokenStep refusedApp prodListed],
        Reports prodTexts t := by
  constructor
  · refine (last_outcome_iff (run_brokenStep run_refused _)).mpr fun t ht => ?_
    simp only [List.mem_append, List.mem_singleton] at ht
    rcases ht with rfl | rfl
    · exact noNewMessage_brokenStep fun h => absurd h (by decide)
    · refine noNewMessage_brokenStep fun _ => ?_
      decide +kernel
  · intro h
    have hmessage := (last_outcome_iff (run_brokenStep run_refused prodListed)).mp h
      (brokenStep refusedApp prodListed) (by simp)
    have hout : (brokenRun refusedApp prodListed).outcome = .done (.ok {}) := by decide +kernel
    have hlookup : failedLookup prodVars prodTexts refusedApp.spec
        (actsOf (brokenRun refusedApp prodListed).trace) =
          some "cannot get ID for project System: timeout" := by decide +kernel
    unfold NoNewMessage at hmessage
    simp only [brokenStep, hout] at hmessage
    exact absurd (hmessage rfl _ hlookup) (by decide +kernel)

theorem old_message_kept :
    ¬ ∀ (texts : LibTexts) (request : Key) (ts : List (Trans Application Step)) (inst : Application),
      Run (history texts request) ts inst → ∀ t ∈ ts, Reports texts t := by
  intro h
  have hreports := h _ _ _ _ (run_brokenStep run_refused prodListed)
    (brokenStep refusedApp prodListed) (by simp)
  have hnot : outcomeOf prodVars prodTexts refusedApp.spec
      (actsOf (brokenRun refusedApp prodListed).trace) ≠
        some (brokenStep refusedApp prodListed).post.status := by
    decide +kernel
  have hout : (brokenRun refusedApp prodListed).outcome = .done (.ok {}) := by decide +kernel
  unfold Reports at hreports
  simp only [brokenStep, hout] at hreports
  exact hnot hreports

end ReconcileApplication

end Automium
