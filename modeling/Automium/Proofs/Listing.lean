import Automium.Proofs.Decision

/-!
# A failed request for the apps

The controller asks Rancher for the apps of the project and installs its own if it is not listed.
It reads the body of the reply and not the status, and a JSON object without `data` is read as a
list without apps.

`failsSafe_iff`: no app that is deployed is installed again, and an error reply ends in `Failed`
with nothing sent, exactly if every reply that can be read as a list has the deployed app and an
error reply cannot be read as one, but for lists that the controller does not act on.
-/

namespace Automium

open Effect Go

namespace ReconcileApplication

variable {vars : String → String} {texts : LibTexts} {request : Key} {inst : Application}
  {acts rest : List Act} {res : Outcome (Except Error Result)} {cid pid : String}
  {apps : List AppItem} {r : Except Error Response}

/-- The request failed, the body cannot be read, or the status says that there was an error. -/
def ErrorReply : Except Error Response → Prop
  | .error _ => True
  | .ok resp => resp.readError ≠ none ∨ 400 ≤ resp.statusCode

/-- A namespace is moved or an app is installed. -/
def Installs (vars : String → String) (acts : List Act) : Prop :=
  Sends (fun req => IsInstall vars req ∨ IsMove vars req) acts

/-- What the controller does with the reply `r`, where `deployed` says if Rancher has the app. -/
def Safe (vars : String → String) (inst : Application) (acts : List Act) (deployed : Prop)
    (r : Except Error Response) : Prop :=
  (deployed → ¬ Installs vars acts) ∧
    (ErrorReply r → phaseAfter inst.status.phase acts = "Failed" ∧ ¬ Sends IsPost acts)

/-- The name of the app is among `apps`, or the answers cannot be built. -/
def Known (vars : String → String) (spec : ApplicationSpec) (apps : List AppItem) : Prop :=
  Found spec.name apps ∨ ∃ e, answersFor vars spec = .error e

/-- The reply is not read as a list of apps on which the controller acts. -/
def Rejected (vars : String → String) (texts : LibTexts) (spec : ApplicationSpec)
    (r : Except Error Response) : Prop :=
  ∀ apps, listing texts r = .ok apps →
    Found spec.name apps ∧ ∃ e, answersFor vars spec = .error e

theorem answersFor_ne {spec : ApplicationSpec} :
    (¬ ∃ e, answersFor vars spec = .error e) ↔ ∃ answers, answersFor vars spec = .ok answers := by
  cases answersFor vars spec <;> simp

/-- When the decision installs the app. -/
theorem syncApp_installs (h : Ends vars (syncApp inst cid pid apps) acts res) :
    (∃ e ∈ exchangesOf acts, IsInstall vars e.1 ∨ IsMove vars e.1) ↔ ¬ Known vars inst.spec apps := by
  rw [Known, not_or, answersFor_ne]
  rcases syncApp_cases h with ⟨-, hfound, -, hw⟩ | ⟨-, -, hfound, -, -, hw⟩ |
    ⟨-, -, hfound, -, hd⟩ | ⟨hfound, hd⟩
  · simp [hw.exchangesOf, hfound]
  · simp [hw.exchangesOf, hfound]
  · obtain ⟨r, more, hacts, ⟨-, rfl⟩ | ⟨answers, -, ⟨-, rfl⟩ | ⟨ns, r', -, rfl⟩⟩⟩ := deploy_old hd
    all_goals simp [hacts, hfound]
  · obtain ⟨r, more, hacts, ⟨⟨e, he⟩, rfl⟩ | ⟨answers, r', hans, ⟨-, rfl⟩ | ⟨-, r'', rfl⟩⟩⟩ :=
      deploy_new hd
    · simp [hacts, he]
    · simp [hacts, hans, hfound]
    · simp [hacts, hans, hfound]

/-- When the decision fails and sends nothing. -/
theorem syncApp_fails (h : Ends vars (syncApp inst cid pid apps) acts res) :
    (phaseAfter inst.status.phase acts = "Failed" ∧ ¬ ∃ e ∈ exchangesOf acts, IsPost e.1) ↔
      Found inst.spec.name apps ∧ ∃ e, answersFor vars inst.spec = .error e := by
  rcases syncApp_cases h with ⟨⟨e, he⟩, hfound, -, hw⟩ | ⟨answers, hans, -, -, -, hw⟩ |
    ⟨answers, hans, -, -, hd⟩ | ⟨hfound, hd⟩
  · simp [hw.exchangesOf, hw.phaseAfter, hfound, he]
  · simp [hw.phaseAfter, hans]
  · obtain ⟨r, more, hacts, -⟩ := deploy_old hd
    simp [hacts, hans]
  · obtain ⟨r, more, hacts, -⟩ := deploy_new hd
    simp [hacts, hfound]

theorem list_not_installs (path : String) :
    ¬ (IsInstall vars (listRequest vars path) ∨ IsMove vars (listRequest vars path)) :=
  not_or.mpr ⟨list_not_install path, list_not_move path⟩

/-- The controller is safe with the reply exactly if what it reads in it is right. -/
theorem safe_iff (h : Reconciles vars texts request inst acts res) (deployed : Prop)
    (hr : (appsRequest vars pid, r) ∈ exchangesOf acts) :
    Safe vars inst acts deployed r ↔
      (deployed → ∀ apps, listing texts r = .ok apps → Known vars inst.spec apps) ∧
        (ErrorReply r → Rejected vars texts inst.spec r) := by
  obtain ⟨cid, gets, rest, rfl, hgets, hcases⟩ := h.decided hr
  rw [Safe, Installs, sends_append hgets list_not_installs, sends_append hgets list_not_post,
    phaseAfter_append hgets]
  rcases hcases with ⟨⟨e, he⟩, -, hw⟩ | ⟨apps, hlist, hsync⟩
  · have hnone : ∀ apps, listing texts r ≠ .ok apps := by simp [he]
    rw [hw.exchangesOf]
    refine iff_of_true ⟨by simp, fun _ => ⟨hw.phaseAfter, by simp⟩⟩ ⟨?_, ?_⟩
    · exact fun _ apps happs => absurd happs (hnone apps)
    · exact fun _ apps happs => absurd happs (hnone apps)
  · rw [syncApp_installs hsync, not_not, syncApp_fails hsync]
    have heq : ∀ {P : List AppItem → Prop}, (∀ apps', listing texts r = .ok apps' → P apps') ↔
        P apps := by
      intro P
      rw [hlist]
      exact ⟨fun hall => hall apps rfl, fun hP apps' happs => Except.ok.inj happs ▸ hP⟩
    rw [Rejected, heq, heq]

/-- Rancher has the apps `state pid` in each project: no reply to the request for the apps makes
the controller install what is there, and an error leaves Rancher alone, as does an execution that
does not get so far. -/
def FailsSafe (vars : String → String) (state : String → Set String) (inst : Application)
    (acts : List Act) : Prop :=
  (∀ pid r, (appsRequest vars pid, r) ∈ exchangesOf acts →
      Safe vars inst acts (inst.spec.name ∈ state pid) r) ∧
    ((∀ pid r, (appsRequest vars pid, r) ∉ exchangesOf acts) →
      phaseAfter inst.status.phase acts = "Failed" ∧ ¬ Sends IsPost acts)

/-- Without a cluster or a project nothing is sent. -/
theorem Reconciles.unlisted (h : Reconciles vars texts request inst acts res)
    (hnone : ∀ pid r, (appsRequest vars pid, r) ∉ exchangesOf acts) :
    phaseAfter inst.status.phase acts = "Failed" ∧ ¬ Sends IsPost acts := by
  obtain ⟨gets, rest, hgets, ⟨rfl, -, hw⟩ | ⟨cid, pid, r, rfl, -⟩⟩ := h.cases
  · have hlists : ∀ act ∈ gets, ∃ path r, act = .exchange (listRequest vars path) r := by
      intro act hact
      obtain ⟨path, r, rfl⟩ := hgets act hact
      exact ⟨_, r, rfl⟩
    rw [phaseAfter_append hlists, sends_append hlists list_not_post, hw.exchangesOf]
    exact ⟨hw.phaseAfter, by simp⟩
  · refine absurd ?_ (hnone pid r)
    rw [exchangesOf_append]
    exact List.mem_append_right _ (List.mem_cons_self ..)

/-- When a failed request is not taken for an empty project (module doc). -/
theorem failsSafe_iff (state : String → Set String)
    (h : Reconciles vars texts request inst acts res) :
    FailsSafe vars state inst acts ↔
      ∀ pid r, (appsRequest vars pid, r) ∈ exchangesOf acts →
        (inst.spec.name ∈ state pid →
            ∀ apps, listing texts r = .ok apps → Known vars inst.spec apps) ∧
          (ErrorReply r → Rejected vars texts inst.spec r) := by
  rw [FailsSafe, and_iff_left h.unlisted]
  exact forall₃_congr fun pid r hr => safe_iff h _ hr

/-- The app of `loggingApp` is deployed. -/
def loggingDeployed : String → Set String := fun _ => {"automium-logging"}

/-- An error of Rancher, as a JSON object. -/
def unavailable : Except Error Response :=
  jsonReply 503 (.obj [("type", .str "error"), ("status", .num "503"),
    ("code", .str "ServiceUnavailable")])

def unavailableRun : Ran AppApi Unit (Except Error Result) :=
  reconcileRun prodVars prodTexts loggingApp.key loggingApp (prodRancher unavailable)

theorem failsSafe_iff_unavailable :
    FailsSafe prodVars loggingDeployed loggingApp (actsOf unavailableRun.trace) ↔
      ∀ pid r, (appsRequest prodVars pid, r) ∈ exchangesOf (actsOf unavailableRun.trace) →
        (loggingApp.spec.name ∈ loggingDeployed pid →
            ∀ apps, listing prodTexts r = .ok apps → Known prodVars loggingApp.spec apps) ∧
          (ErrorReply r → Rejected prodVars prodTexts loggingApp.spec r) :=
  failsSafe_iff loggingDeployed reconciles_run

/-- An error status, with a body that has no `data`: the app is installed over itself. -/
theorem installs_when_unavailable :
    ∃ acts res, Reconciles prodVars prodTexts loggingApp.key loggingApp acts res ∧
      (appsRequest prodVars "c-1:p-1", unavailable) ∈ exchangesOf acts ∧
      ErrorReply unavailable ∧ loggingApp.spec.name ∈ loggingDeployed "c-1:p-1" ∧
      ¬ FailsSafe prodVars loggingDeployed loggingApp acts := by
  have hlisted : (appsRequest prodVars "c-1:p-1", unavailable) ∈
      exchangesOf (actsOf unavailableRun.trace) :=
    have hmem : appsRequest prodVars "c-1:p-1" ∈
        (exchangesOf (actsOf unavailableRun.trace)).map Prod.fst := by decide +kernel
    exchange_run hmem
  have hinstalls : Installs prodVars (actsOf unavailableRun.trace) :=
    ⟨(installRequest prodVars "c-1:p-1" (installBodyOf loggingApp.spec "c-1:p-1" ∅), _),
      exchange_run (by decide +kernel), .inl isInstall_install⟩
  refine ⟨actsOf unavailableRun.trace, _, reconciles_run, hlisted, .inr (by decide), rfl, ?_⟩
  rintro ⟨hsafe, -⟩
  exact (hsafe _ _ hlisted).1 rfl hinstalls

end ReconcileApplication

end Automium
