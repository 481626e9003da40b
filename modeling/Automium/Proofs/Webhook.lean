import Automium.Api.World
import Automium.Controller.Service
import Automium.Effect.Crash
import Automium.Proofs.MessageText
import Automium.Proofs.Notifications
import Automium.Proofs.ServiceCalls
import Automium.Slack.Message

/-!
# What Slack is told

The Service controller notifies Slack through a webhook. `slackWorld` is the world of a reconcile that
carries its notifications out itself: others act between any two calls, calls fail, Slack replies what
it likes, and the process may be killed at any time, also between the calls of the client.

* `carries`, `slack_told`: what such a reconcile does to the store, and what it returns, it may do with
  a notification that is one operation and may fail.
* `slack_told`: it makes at most one request, to the URL of the process, after it has stored a phase,
  and the body is that of the message about its Service and this phase, and of no other (`Told`). If
  it is not stopped, there is a URL and a phase was stored, then it does make the request (`Posting`).
-/

namespace Automium

open Effect Data

/-! ## The client in the place of the operation -/

/-- The world of a controller that sends its notifications itself (module doc). -/
def slackWorld (env : Cluster → Cluster → Prop) : World SlackApi Cluster where
  env := env
  answer
    | c, .inl op, r, c' => (flaky env).answer c op r c'
    | c, .inr _, _, c' => c' = c

/-- The call is a request to the webhook. -/
def Posts : SlackApi.Op → Prop
  | .inl _ => False
  | .inr _ => True

/-- The call is a notification. -/
def Notifies : Request → Prop
  | .slack _ => True
  | _ => False

section

variable {env : Cluster → Cluster → Prop} {c c' : Cluster} {tr : List (Event SlackApi Cluster)}
  {evs : List (Event Api Cluster)} {op : Request} {msg : WebhookMessageAttachment}

theorem sendThrough_of_not (h : ¬ Notifies op) : sendThrough op = .call (.inl op) .ret := by
  cases op with
  | slack => exact (h trivial).elim
  | _ => rfl

/-- What the client calls. -/
def ClientCall : SlackApi.Op → Prop
  | .inl op => op = .getenv "SLACK_WEBHOOK_URL"
  | .inr _ => True

/-- The calls of the client. -/
theorem send_eq : Slack.SendWebhookAttachment msg =
    .call (.inl (.getenv "SLACK_WEBHOOK_URL")) fun checkURL =>
      if checkURL ≠ "" && Go.Url.parseRequestURI checkURL then
        .call (.inl (.getenv "SLACK_WEBHOOK_URL")) fun webhookURL =>
          .call (.inr (Slack.webhookRequest webhookURL [msg])) fun r => .ret (Slack.webhookResult r)
      else .ret (.error Slack.ErrWebhookNotEnabled) := by
  unfold Slack.SendWebhookAttachment Slack.isWebhookConfigured
  rw [getenv_inl_bind, Prog.call_bind]
  refine congrArg (Prog.call _) (funext fun checkURL => ?_)
  generalize (decide (checkURL ≠ "") && Go.Url.parseRequestURI checkURL) = configured
  cases configured <;> rfl

theorem send_uses : Uses ClientCall (Slack.SendWebhookAttachment msg) := by
  rw [send_eq]
  refine ⟨rfl, fun checkURL _ => ?_⟩
  dsimp only
  split
  · exact ⟨rfl, fun _ _ => ⟨trivial, fun _ _ => trivial⟩⟩
  · trivial

theorem send_noCrash : NoCrash (Slack.SendWebhookAttachment msg) := by
  rw [send_eq]
  intro checkURL
  dsimp only
  split
  · exact fun _ _ => trivial
  · trivial

/-- The client leaves the store alone. -/
theorem send_waits {o : Outcome (Except Error Unit)}
    (he : Exec (slackWorld env) (Slack.SendWebhookAttachment msg) c tr o c') :
    (flaky env).Waits c c' := by
  refine he.waits send_uses fun c op r c' hop ha => ?_
  match op, r with
  | .inl op, r =>
    obtain rfl : op = _ := hop
    rcases ha with ha | ⟨-, rfl⟩
    · cases ha
      rfl
    · rfl
  | .inr _, r => exact ha

/-- Whatever a notification is answered, the store is the same. -/
theorem answer_slack (r : Except Error Unit) : (flaky env).answer c (.slack msg) r c := by
  cases r with
  | error e => exact .inr ⟨⟨e, rfl⟩, rfl⟩
  | ok => exact .inl rfl

theorem carries : Carries (flaky env) sendThrough (slackWorld env) where
  env _ _ h := h
  done {op c c' tr r} he := by
    by_cases hop : Notifies op
    · cases op with
      | slack msg => exact ⟨c', c', send_waits he, answer_slack r, .refl⟩
      | _ => exact hop.elim
    · rw [sendThrough_of_not hop] at he
      obtain ⟨c₁, r', c₂, tr', hwait, ha, hret, -⟩ := he.call_done
      obtain ⟨rfl, hwait', -⟩ := hret.ret_done
      exact ⟨c₁, c₂, hwait, ha, hwait'⟩
  halted {op c c' tr} he := by
    by_cases hop : Notifies op
    · cases op with
      | slack msg => exact .inr ⟨c', .ok (), c', send_waits he, answer_slack _, .refl⟩
      | _ => exact hop.elim
    · rw [sendThrough_of_not hop] at he
      rcases he.call_cases with ⟨-, rfl, hwait⟩ | ⟨c₁, r, c₂, tr', hwait, ha, hret, -⟩
      · exact .inl ⟨rfl, hwait⟩
      · have huses : Uses (fun _ => False) (.ret r : SlackCtl (Api.Reply op)) := trivial
        have hwait' : (slackWorld env).Waits c₂ c' := hret.waits huses fun _ _ _ _ h => h.elim
        exact .inr ⟨c₁, r, c₂, hwait, ha, hwait'⟩
  crashed {op c c' tr msg} he := by
    by_cases hop : Notifies op
    · cases op with
      | slack msg => exact Crashes.not_of_noCrash send_noCrash ⟨_, _, _, he⟩
      | _ => exact hop.elim
    · rw [sendThrough_of_not hop] at he
      have hno : NoCrash (.call (.inl op) .ret : SlackCtl (Api.Reply op)) := fun _ => trivial
      exact Crashes.not_of_noCrash hno ⟨_, _, _, he⟩

/-! ## The variables of the process -/

theorem answer_env {op : SlackApi.Op} {r : SlackApi.Reply op}
    (h : (slackWorld env).answer c op r c') : c'.env = c.env := by
  match op, r with
  | .inl op, r =>
    rcases h with h | ⟨-, rfl⟩
    · exact h.env_eq
    · rfl
  | .inr _, _ =>
    obtain rfl : c' = c := h
    rfl

/-- They are the same at every call. -/
theorem vars_kept {α : Type} {p : SlackCtl α} {o : Outcome α}
    (henv : ∀ c c', env c c' → c'.env = c.env) (he : Exec (slackWorld env) p c tr o c') :
    ∀ e ∈ tr, e.state.env = c.env := by
  induction he with
  | ret | crash | halt => exact List.forall_mem_nil _
  | env hw _ ih =>
    rw [← henv _ _ hw]
    exact ih
  | call ha _ ih =>
    rw [answer_env ha] at ih
    exact List.forall_mem_cons.mpr ⟨rfl, ih⟩

/-- What is read of them. -/
theorem getenv_read {α : Type} {p : SlackCtl α} {o : Outcome α} {vars : String → String}
    (hvars : ∀ e ∈ tr, e.state.env = vars) (he : Exec (slackWorld env) p c tr o c')
    {s : Cluster} {name v : String} (hmem : ⟨s, .inl (.getenv name), v⟩ ∈ tr) : v = vars name := by
  obtain ⟨s', ha⟩ := he.answered _ hmem
  rw [← hvars _ hmem]
  rcases ha with ha | ⟨ha, -⟩
  · exact (Prod.mk.inj ha).1.symm
  · exact ha.elim

/-! ## The request of the client -/

/-- The variable has a URL. -/
def Configured (vars : String → String) : Prop :=
  vars "SLACK_WEBHOOK_URL" ≠ "" ∧ Go.Url.parseRequestURI (vars "SLACK_WEBHOOK_URL") = true

/-- No call is a request to the webhook. -/
def Unposted (tr : List (Event SlackApi Cluster)) : Prop := ∀ e ∈ tr, ¬ Posts e.op

theorem Unposted.append {tr' : List (Event SlackApi Cluster)} (h : Unposted tr) (h' : Unposted tr') :
    Unposted (tr ++ tr') :=
  List.forall_mem_append.mpr ⟨h, h'⟩

theorem configured_iff {vars : String → String} : (vars "SLACK_WEBHOOK_URL" ≠ "" &&
    Go.Url.parseRequestURI (vars "SLACK_WEBHOOK_URL")) = true ↔ Configured vars := by
  rw [Bool.and_eq_true, decide_eq_true_iff, Configured]

/-- The client makes one request if it may and is not stopped. -/
theorem send_cases {vars : String → String} {o : Outcome (Except Error Unit)}
    (hvars : ∀ e ∈ tr, e.state.env = vars)
    (he : Exec (slackWorld env) (Slack.SendWebhookAttachment msg) c tr o c') :
    Unposted tr ∧ (o = .halted ∨ ¬ Configured vars) ∨
      Configured vars ∧ ∃ past s r, Unposted past ∧
        tr = past ++ [⟨s, .inr (Slack.webhookRequest (vars "SLACK_WEBHOOK_URL") [msg]), r⟩] := by
  have hread {s : Cluster} {v : String} (hmem : ⟨s, .inl (.getenv "SLACK_WEBHOOK_URL"), v⟩ ∈ tr) :
      v = vars "SLACK_WEBHOOK_URL" := getenv_read hvars he hmem
  rw [send_eq] at he
  have hget (s : Cluster) (v : String) :
      ¬ Posts (⟨s, .inl (.getenv "SLACK_WEBHOOK_URL"), v⟩ : Event SlackApi Cluster).op := id
  rcases he.call_cases with ⟨rfl, rfl, -⟩ | ⟨s₁, checkURL, c₁, tr₁, -, -, hcheck, rfl⟩
  · exact .inl ⟨List.forall_mem_nil _, .inl rfl⟩
  obtain rfl := hread List.mem_cons_self
  split at hcheck
  · rename_i hurl
    rcases hcheck.call_cases with ⟨rfl, rfl, -⟩ | ⟨s₂, webhookURL, c₂, tr₂, -, -, hpost, rfl⟩
    · exact .inl ⟨List.forall_mem_singleton.mpr (hget _ _), .inl rfl⟩
    obtain rfl := hread (List.mem_cons_of_mem _ List.mem_cons_self)
    have hun : Unposted [⟨s₁, .inl (.getenv "SLACK_WEBHOOK_URL"), vars "SLACK_WEBHOOK_URL"⟩,
        ⟨s₂, .inl (.getenv "SLACK_WEBHOOK_URL"), vars "SLACK_WEBHOOK_URL"⟩] :=
      List.forall_mem_cons.mpr ⟨hget _ _, List.forall_mem_singleton.mpr (hget _ _)⟩
    rcases hpost.call_cases with ⟨rfl, rfl, -⟩ | ⟨s₃, r, c₃, tr₃, -, -, hret, rfl⟩
    · exact .inl ⟨hun, .inl rfl⟩
    · obtain rfl := hret.ret_trace
      exact .inr ⟨configured_iff.mp hurl, _, s₃, r, hun, rfl⟩
  · rename_i hurl
    obtain rfl := hcheck.ret_trace
    exact .inl ⟨List.forall_mem_singleton.mpr (hget _ _), .inr fun h => hurl (configured_iff.mpr h)⟩

/-! ## The notification of a reconcile -/

/-- The phase of the Service is stored. -/
inductive Stores (request : Key) : Event Api Cluster → String → Prop
  | updated (s : Cluster) (o inst : Service) (hkey : inst.key = request) :
      Stores request ⟨s, .updateStatus .service o, .ok inst⟩ inst.status.phase

/-- The call is neither a notification nor one that stores a phase. -/
def Plain : Request → Prop
  | .slack _ | .updateStatus .service _ => False
  | _ => True

theorem Plain.not_notifies (h : Plain op) : ¬ Notifies op := by
  cases op with
  | slack => exact h.elim
  | _ => exact id

theorem Plain.not_stores {request : Key} {e : Event Api Cluster} {phase : String}
    (h : Plain e.op) : ¬ Stores request e phase := by
  rintro ⟨⟩
  exact h

/-- No notification is made, and if the reconcile is not stopped none was due. -/
structure Silent (request : Key) (halted : Prop) (evs : List (Event Api Cluster)) : Prop where
  silent : ∀ e ∈ evs, ¬ Notifies e.op
  unstored : halted ∨ ∀ e ∈ evs, ∀ phase, ¬ Stores request e phase

theorem Silent.of_plain {request : Key} {halted : Prop} (h : ∀ e ∈ evs, Plain e.op) :
    Silent request halted evs where
  silent e he := (h e he).not_notifies
  unstored := .inr fun e he _ => (h e he).not_stores

theorem Silent.append {request : Key} {halted halted' : Prop} {evs' : List (Event Api Cluster)}
    (h : Silent request halted evs) (h' : Silent request halted' evs') (hh : halted → halted') :
    Silent request halted' (evs ++ evs') where
  silent := List.forall_mem_append.mpr ⟨h.silent, h'.silent⟩
  unstored := by
    rcases h.unstored with hhalted | hun
    · exact .inl (hh hhalted)
    · exact h'.unstored.imp_right fun hun' => List.forall_mem_append.mpr ⟨hun, hun'⟩

/-- There is no notification, or one, which comes right after the phase was stored. -/
def Speaks (request : Key) (halted : Prop) (evs : List (Event Api Cluster)) : Prop :=
  Silent request halted evs ∨ ∃ past e phase s r later,
    evs = past ++ e :: ⟨s, .slack (statusMessage request.name phase), r⟩ :: later ∧
      Stores request e phase ∧ (∀ e ∈ past, Plain e.op) ∧ ∀ e ∈ later, Plain e.op

theorem Speaks.cons {request : Key} {halted : Prop} {e : Event Api Cluster} (h : Plain e.op)
    (hs : Speaks request halted evs) : Speaks request halted (e :: evs) := by
  rcases hs with hs | ⟨past, e', phase, s, r, later, rfl, he, hpast, hlater⟩
  · exact .inl ((Silent.of_plain (List.forall_mem_singleton.mpr h)).append hs id)
  · exact .inr ⟨e :: past, e', phase, s, r, later, rfl, he, List.forall_mem_cons.mpr ⟨h, hpast⟩,
      hlater⟩

theorem Speaks.append {request : Key} {halted halted' : Prop} {evs' : List (Event Api Cluster)}
    (hs : Speaks request halted evs) (h : ∀ e ∈ evs', Plain e.op) (hh : halted → halted') :
    Speaks request halted' (evs ++ evs') := by
  rcases hs with hs | ⟨past, e, phase, s, r, later, rfl, he, hpast, hlater⟩
  · exact .inl (hs.append (.of_plain h) hh)
  · refine .inr ⟨past, e, phase, s, r, later ++ evs', ?_, he, hpast,
      List.forall_mem_append.mpr ⟨hlater, h⟩⟩
    rw [List.append_assoc, List.cons_append, List.cons_append]

/-- All executions of a program speak so. -/
def Tells (env : Cluster → Cluster → Prop) (request : Key) {α : Type} (p : Ctl α) : Prop :=
  ∀ ⦃c evs o c'⦄, Exec (flaky env) p c evs o c' → Speaks request (o = .halted) evs

theorem Tells.ret {request : Key} {α : Type} (a : α) : Tells env request (.ret a) := by
  intro c evs o c' he
  obtain rfl := he.ret_trace
  exact .inl (.of_plain (List.forall_mem_nil _))

theorem Tells.call {request : Key} {α : Type} {k : op.Reply → Ctl α} (hop : Plain op)
    (hk : ∀ c r c', (flaky env).answer c op r c' → Tells env request (k r)) :
    Tells env request (.call op k) := by
  intro c evs o c' he
  rcases he.call_cases with ⟨-, rfl, -⟩ | ⟨s, r, c₁, evs', -, ha, hrest, rfl⟩
  · exact .inl (.of_plain (List.forall_mem_nil _))
  · exact .cons hop (hk s r c₁ ha hrest)

/-- The copy that is written is that of the request, and the notification is about what is stored. -/
theorem syncStatus_tells {request : Key} {inst : Service} (found : Module)
    (hkey : inst.key = request) : Tells env request (ReconcileService.syncStatus inst found) := by
  unfold ReconcileService.syncStatus
  split
  · rw [updateStatus_bind]
    intro c evs o c' he
    rcases he.call_cases with ⟨-, rfl, -⟩ | ⟨s, r, c₁, evs', -, ha, hrest, rfl⟩
    · exact .inl (.of_plain (List.forall_mem_nil _))
    cases r with
    | error e =>
      obtain rfl := Exec.ret_trace hrest
      exact .inl ⟨List.forall_mem_singleton.mpr id, .inr (List.forall_mem_singleton.mpr nofun)⟩
    | ok inst' =>
      have hstored : inst'.key = request := by
        rcases ha with ha | ⟨⟨e, hr⟩, -⟩
        · rcases ha.updateStatus_cases with ⟨-, e, hr⟩ | ⟨old, hf, -, hr, -⟩
          · cases hr
          · cases hr
            exact (statusObj_key _).trans ((find?_key hf).trans hkey)
        · cases hr
      rcases Exec.call_cases hrest with ⟨rfl, rfl, -⟩ | ⟨s', r', c₂, evs'', -, -, hret, rfl⟩
      · exact .inl ⟨List.forall_mem_singleton.mpr id, .inl rfl⟩
      · obtain rfl := Exec.ret_trace hret
        subst hstored
        exact .inr ⟨[], _, _, s', r', [], rfl, .updated _ _ _ rfl, List.forall_mem_nil _,
          List.forall_mem_nil _⟩
  · exact Tells.ret _

theorem syncFound_tells {request : Key} {inst : Service} (found deploy : Module)
    (hkey : inst.key = request) :
    Tells env request (ReconcileService.syncFound request inst found deploy) := by
  unfold ReconcileService.syncFound
  split
  · rw [update_bind]
    refine .call trivial fun c r c' ha => ?_
    cases r with
    | error e => exact .ret _
    | ok found =>
      dsimp only
      rw [get_bind]
      refine .call trivial fun c r c' ha => ?_
      cases r with
      | error e => exact .ret _
      | ok inst => exact syncStatus_tells found ((flaky_returns ha) inst rfl).2
  · exact syncStatus_tells found hkey

theorem syncModule_tells (upper : Go.Upper) (request : Key) :
    Tells env request (ReconcileService.syncModule upper request) := by
  unfold ReconcileService.syncModule
  rw [get_bind]
  refine .call trivial fun c r c' ha => ?_
  cases r with
  | error e =>
    dsimp only
    split <;> exact .ret _
  | ok inst =>
    dsimp only
    rw [getenv_bind]
    refine .call trivial fun c platform c' _ => ?_
    rw [get_bind]
    refine .call trivial fun c r c' _ => ?_
    cases r with
    | error e =>
      dsimp only
      split
      · rw [create_bind]
        refine .call trivial fun c r c' _ => ?_
        cases r <;> exact .ret _
      · exact .ret _
    | ok found => exact syncFound_tells found _ ((flaky_returns ha) inst rfl).2

theorem Reconcile_tells (upper : Go.Upper) (request : Key) :
    Tells env request (ReconcileService.Reconcile upper request) := by
  intro c evs o c' he
  rcases he.bind_cases with ⟨synced, c₁, evs₁, evs₂, rfl, h₁, h₂⟩ | ⟨m, rfl, h₁⟩ | ⟨rfl, h₁⟩
  · have huses : Uses Plain (ReconcileService.finish synced) := by
      refine (ReconcileService.finish_onAddon synced).mono fun op hop => ?_
      obtain ⟨a, hop⟩ := hop
      cases hop <;> trivial
    exact (syncModule_tells upper request h₁).append (huses.events h₂) nofun
  · have hspeaks := syncModule_tells upper request h₁
    exact (List.append_nil evs) ▸ hspeaks.append (List.forall_mem_nil _) nofun
  · have hspeaks := syncModule_tells upper request h₁
    exact (List.append_nil evs) ▸ hspeaks.append (List.forall_mem_nil _) fun _ => rfl

/-! ## The requests of a reconcile -/

/-- What Slack is told by a request, given the calls before it. -/
structure Told (vars : String → String) (request : Key) (past : List (Event SlackApi Cluster))
    (req : WebhookRequest) : Prop where
  method : req.method = "POST"
  contentType : req.contentType = "application/json"
  url : req.url = vars "SLACK_WEBHOOK_URL"
  /-- The phase has been stored, and the body tells the Service and this phase. -/
  body : ∃ e phase, Stores request e phase ∧ e.inl ∈ past ∧
    ∀ name phase', req.body = webhookJson [statusMessage name phase'] ↔
      name = request.name ∧ phase' = phase

theorem told {vars : String → String} {request : Key} {past : List (Event SlackApi Cluster)}
    {e : Event Api Cluster} {phase : String} (hstores : Stores request e phase)
    (hmem : e.inl ∈ past) :
    Told vars request past (Slack.webhookRequest (vars "SLACK_WEBHOOK_URL")
      [statusMessage request.name phase]) where
  method := rfl
  contentType := rfl
  url := rfl
  body := by
    refine ⟨e, phase, hstores, hmem, fun name phase' => ⟨fun h => ?_, ?_⟩⟩
    · exact (body_inj h).imp Eq.symm Eq.symm
    · rintro ⟨rfl, rfl⟩
      rfl

/-- No phase of the Service is stored. -/
def Unstored (request : Key) (tr : List (Event SlackApi Cluster)) : Prop :=
  ∀ e phase, Stores request e phase → e.inl ∉ tr

/-- There is a request, or none was due. -/
def Posting (vars : String → String) (request : Key) (halted : Prop)
    (tr : List (Event SlackApi Cluster)) : Prop :=
  Unposted tr ∧ (halted ∨ ¬ Configured vars ∨ Unstored request tr) ∨
    Configured vars ∧ ∃ past s req r later, tr = past ++ ⟨s, .inr req, r⟩ :: later ∧
      Unposted past ∧ Unposted later ∧ Told vars request past req

/-- A call of another operation is carried out as it is. -/
theorem carried_call {r : Api.Reply op} (hop : ¬ Notifies op)
    (he : Exec (slackWorld env) (sendThrough op) c tr (.done r) c') :
    ∃ s, tr = [⟨s, .inl op, r⟩] := by
  rw [sendThrough_of_not hop] at he
  obtain ⟨s, r', c₁, tr', -, -, hret, rfl⟩ := he.call_done
  obtain ⟨rfl, -, rfl⟩ := hret.ret_done
  exact ⟨s, rfl⟩

theorem unposted_carried {halted : Prop} (h : ∀ e ∈ evs, ¬ Notifies e.op)
    (hc : CarriedOut sendThrough (slackWorld env) halted evs tr) : Unposted tr := by
  refine hc.forall_mem fun e he _ _ _ _ hexec _ => ?_
  rw [sendThrough_of_not (h e he)] at hexec
  have huses : Uses (fun op => ¬ Posts op) (.call (.inl e.op) .ret : SlackCtl (Api.Reply e.op)) :=
    ⟨id, fun _ _ => trivial⟩
  exact huses.events hexec

theorem Silent.posting {vars : String → String} {request : Key} {halted : Prop}
    (h : Silent request halted evs)
    (hc : CarriedOut sendThrough (slackWorld env) halted evs tr) :
    Posting vars request halted tr := by
  refine .inl ⟨unposted_carried h.silent hc, ?_⟩
  by_cases hh : halted
  · exact .inl hh
  refine .inr (.inr fun e phase hstores hmem => ?_)
  have hun := h.unstored.resolve_left hh
  -- A call is carried out as it is, so it stores no phase either.
  have hne : ∀ e' ∈ tr, e' ≠ e.inl := by
    refine hc.forall_mem fun e₀ he₀ _ _ _ _ hexec hdone => ?_
    obtain rfl := hdone.resolve_left hh
    obtain ⟨s, rfl⟩ := carried_call (h.silent e₀ he₀) hexec
    refine List.forall_mem_singleton.mpr fun heq => ?_
    obtain ⟨s₀, op, r⟩ := e₀
    cases hstores with
    | updated s' o inst hkey =>
      cases heq
      exact hun _ he₀ _ (.updated _ _ _ hkey)
  exact hne _ hmem rfl

theorem Speaks.posting {vars : String → String} {request : Key} {halted : Prop}
    (hvars : ∀ e ∈ tr, e.state.env = vars) (h : Speaks request halted evs)
    (hc : CarriedOut sendThrough (slackWorld env) halted evs tr) :
    Posting vars request halted tr := by
  rcases h with h | ⟨past, e, phase, s, r, later, rfl, hstores, hpast, hlater⟩
  · exact h.posting hc
  obtain ⟨tr₁, tr₂, rfl, hc₁, hc₂⟩ := hc.split
  obtain ⟨s₁, s₁', o₁, tr₂, tr₃, rfl, hstore, hc₃, hdone⟩ := hc₂.cons_cases
  obtain ⟨s₂, s₂', o₂, tr₃, tr₄, rfl, hsend, hc₄, hdone'⟩ := hc₃.cons_cases
  have hun₁ := unposted_carried (fun e he => (hpast e he).not_notifies) hc₁
  have hun₄ := unposted_carried (fun e he => (hlater e he).not_notifies) hc₄
  cases hstores with
  | updated s₀ o₀ inst hkey =>
    obtain rfl := hdone.resolve_left fun h => List.cons_ne_nil _ _ h.2
    have hother : ¬ Notifies (.updateStatus .service o₀) := id
    obtain ⟨s₀, rfl⟩ := carried_call hother hstore
    have hun₂ : Unposted (tr₁ ++ [⟨s₀, .inl (.updateStatus .service o₀), .ok inst⟩]) :=
      hun₁.append (List.forall_mem_singleton.mpr id)
    have hvars' : ∀ e ∈ tr₃, e.state.env = vars := fun e he => hvars e (by simp [he])
    rcases send_cases hvars' hsend with ⟨hun₃, hidle⟩ | ⟨hconf, past', s₃, r', hun₃, rfl⟩
    · refine .inl ⟨hun₁.append (.append (List.forall_mem_singleton.mpr id) (hun₃.append hun₄)), ?_⟩
      rcases hidle with rfl | hidle
      · exact .inl (hdone'.resolve_right nofun).1
      · exact .inr (.inl hidle)
    · refine .inr ⟨hconf, tr₁ ++ [⟨s₀, .inl (.updateStatus .service o₀), .ok inst⟩] ++ past', s₃, _, r',
        tr₄, ?_, hun₂.append hun₃, hun₄, told (.updated s₀ o₀ inst hkey) ?_⟩
      · simp
      · exact List.mem_append_left _ (List.mem_append_right _ (List.mem_singleton.mpr rfl))

/-- What a reconcile does, and what it tells Slack (module doc). -/
theorem slack_told (henv : ∀ c c', env c c' → c'.env = c.env) {upper : Go.Upper} {request : Key}
    {o : Outcome (Except Error Result)}
    (he : Exec (slackWorld env) ((ReconcileService.Reconcile upper request).interp sendThrough)
      c tr o c') :
    (∃ evs, Exec (flaky env) (ReconcileService.Reconcile upper request) c evs o c') ∧
      Posting c.env request (o = .halted) tr := by
  obtain ⟨evs, hexec, hc⟩ := he.refines carries
  exact ⟨⟨evs, hexec⟩, (Reconcile_tells upper request hexec).posting (vars_kept henv he) hc⟩

end

/-! ### A Service whose Module is completed -/

def hookURL : String := "https://hooks.slack.com/services/T0/B0"

/-- The store, in a process with a webhook. -/
def hookStore : Cluster :=
  { ReconcileService.completedStore with
    env := fun name => if name = "SLACK_WEBHOOK_URL" then hookURL else "" }

/-- Nobody else acts, nothing fails, and Slack accepts what it is sent. -/
def serveHook (c : Cluster) : (op : SlackApi.Op) → SlackApi.Reply op × Cluster
  | .inl op => serve c op
  | .inr _ => (.ok { statusCode := 200, body := .ok "ok" }, c)

def hookRun : Ran SlackApi Cluster (Except Error Result) :=
  run serveHook ((ReconcileService.Reconcile Go.asciiUpper ReconcileService.webKey).interp
    sendThrough) hookStore

/-- The requests to the webhook. -/
def requestsOf (tr : List (Event SlackApi Cluster)) : List WebhookRequest :=
  tr.filterMap fun e => e.op.getRight?

/-- Slack is told that the Service is completed. -/
theorem slack_told_web : Posting hookStore.env ReconcileService.webKey False hookRun.trace ∧
    requestsOf hookRun.trace =
      [Slack.webhookRequest hookURL [statusMessage "web" "Completed"]] := by
  have hserve : ∀ c op, (slackWorld fun _ _ => False).answer c op (serveHook c op).1
      (serveHook c op).2 := by
    intro c op
    cases op with
    | inl op => exact .inl (serves_serve c op)
    | inr req => rfl
  have hexec : Exec (slackWorld fun _ _ => False)
      ((ReconcileService.Reconcile Go.asciiUpper ReconcileService.webKey).interp sendThrough)
      hookStore hookRun.trace hookRun.outcome hookRun.final := Exec.of_run hserve _ hookStore
  have hends : hookRun.outcome ≠ .halted := run_ne_halted _ _
  have htold := (slack_told (fun _ _ h => h.elim) hexec).2
  rw [eq_false hends] at htold
  exact ⟨htold, by decide +kernel⟩

end Automium
