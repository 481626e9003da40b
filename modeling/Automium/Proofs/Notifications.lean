import Automium.Api.Versions
import Automium.Effect.Runs
import Automium.Effect.Triple
import Automium.Proofs.ModuleFidelity
import Automium.Proofs.ServiceCalls
import Mathlib.Data.Set.Basic
import Mathlib.Order.Monotone.Defs

/-!
# Notifications of a Service

The Service controller sends a notification after it has changed the phase of the Service.

`Board` is the state of a run: the stored objects, the copies that were stored at some time, and a
journal of what the controller did: the changes of the stored phase that it made, and its
notifications. Between any two calls the other actors write what they like, calls fail, or take
effect and fail, and a read may return any copy that was stored (in particular that of a cache
that lags behind and moves forward). The reconciles of one Service come one after the other, as the
work queue has it, and each may stop at any call.

`notified_once`: each notification of the journal belongs to an earlier change with its phase, no
two to the same change, and they come in the order of the changes.
-/

namespace Automium

open Effect Data

namespace ReconcileService

/-! ## The board -/

/-- What the controller did. -/
inductive Entry where
  /-- A call changed the stored phase to this one. -/
  | changed (phase : String)
  /-- A notification with this phase was sent, or an attempt was made. -/
  | notified (phase : String)
  deriving DecidableEq

/-- The state (module doc). -/
structure Board where
  cluster : Cluster
  past : (k : Kind) → Set k.Obj
  journal : List Entry

/-- The stored phase of a Service. -/
def phaseAt (c : Cluster) (key : Key) : Option String :=
  (c.find? .service key).map fun service => service.status.phase

/-- The phase that a message carries. -/
def phaseOf (msg : WebhookMessageAttachment) : String := (msg.fields.map fun f => f.2.1).headD ""

/-- What is written down of a call that took the store from `c` to `c'`. -/
def entries (request : Key) (op : Request) (c c' : Cluster) : List Entry :=
  if phaseAt c' request = phaseAt c request then
    match op with
    | .slack msg => [.notified (phaseOf msg)]
    | _ => []
  else (phaseAt c' request).toList.map .changed

namespace Board

/-- `b` with other objects stored, and with these entries. -/
def store (b : Board) (c : Cluster) (es : List Entry) : Board where
  cluster := c
  past k := b.past k ∪ {o | o ∈ c.tbl k}
  journal := b.journal ++ es

/-- A read of an old copy. -/
def Stale (b : Board) : (op : Request) → op.Reply → Prop
  | .get k key, r => ∃ o ∈ b.past k, o.key = key ∧ r = .ok o
  | _, _ => False

/-- The answers (module doc). -/
inductive Answer (request : Key) (b : Board) (op : Request) (r : op.Reply) : Board → Prop
  | served {r' : op.Reply} {c : Cluster} : Serves b.cluster op r' c → r = r' ∨ op.Failed r →
      Answer request b op r (b.store c (entries request op b.cluster c))
  | unserved : op.Failed r ∨ b.Stale op r →
      Answer request b op r (b.store b.cluster (entries request op b.cluster b.cluster))

/-- What the other actors do. -/
inductive Env (b : Board) : Board → Prop
  | others {c : Cluster} : Renews b.cluster c → Env b (b.store c [])

/-- The board at the start. -/
structure Init (b : Board) : Prop where
  bounded : b.cluster.Bounded
  past : ∀ k, b.past k = {o | o ∈ b.cluster.tbl k}
  journal : b.journal = []

end Board

/-- The world of the reconciles of one Service. -/
def boardWorld (request : Key) : World Api Board where
  env := Board.Env
  answer := Board.Answer request

inductive BoardStep where
  | others | reconcile
  deriving DecidableEq

/-- The runs of the controller on one Service. -/
def boardSys (upper : Go.Upper) (request : Key) : Sys Board BoardStep where
  init := Board.Init
  step b l b' := match l with
    | .others => b.Env b'
    | .reconcile => ∃ tr o, Exec (boardWorld request) (Reconcile upper request) b tr o b'

/-- Each notification is that of a change before it, and the order is kept. -/
def NotifiedOnce (journal : List Entry) : Prop :=
  ∃ change : ℕ → ℕ, StrictMonoOn change {i | ∃ phase, journal[i]? = some (.notified phase)} ∧
    ∀ i phase, journal[i]? = some (.notified phase) →
      change i < i ∧ journal[change i]? = some (.changed phase)

/-! ## The journal -/

/-- Each notification comes right after the change. -/
def Paired (journal : List Entry) : Prop :=
  ∀ i phase, journal[i]? = some (.notified phase) →
    ∃ j, i = j + 1 ∧ journal[j]? = some (.changed phase)

theorem Paired.notifiedOnce {journal : List Entry} (h : Paired journal) : NotifiedOnce journal := by
  refine ⟨fun i => i - 1, fun i hi i' _ hlt => ?_, fun i phase hi => ?_⟩
  · obtain ⟨phase, hi⟩ := hi
    obtain ⟨j, rfl, -⟩ := h i phase hi
    show j + 1 - 1 < i' - 1
    omega
  · obtain ⟨j, rfl, hj⟩ := h i phase hi
    exact ⟨by simp, hj⟩

theorem paired_nil : Paired [] := fun i phase h => by simp at h

theorem Paired.change {journal : List Entry} (h : Paired journal) (phase : String) :
    Paired (journal ++ [.changed phase]) := by
  intro i phase' hi
  rcases lt_or_ge i journal.length with hlt | hge
  · rw [List.getElem?_append_left hlt] at hi
    obtain ⟨j, rfl, hj⟩ := h i phase' hi
    exact ⟨j, rfl, by rw [List.getElem?_append_left (by omega), hj]⟩
  · rw [List.getElem?_append_right hge] at hi
    have hmem := List.mem_of_getElem? hi
    simp at hmem

theorem Paired.notify {journal : List Entry} (h : Paired journal) (phase : String) :
    Paired (journal ++ [.changed phase] ++ [.notified phase]) := by
  intro i phase' hi
  rcases lt_or_ge i (journal ++ [Entry.changed phase]).length with hlt | hge
  · rw [List.getElem?_append_left hlt] at hi
    obtain ⟨j, rfl, hj⟩ := h.change phase i phase' hi
    exact ⟨j, rfl, by rw [List.getElem?_append_left (by omega), hj]⟩
  · have hlt := (List.getElem?_eq_some_iff.mp hi).1
    simp only [List.length_append, List.length_singleton] at hlt hge
    obtain rfl : i = journal.length + 1 := by omega
    have hphase : phase = phase' := by simpa using hi
    subst hphase
    exact ⟨journal.length, rfl, by simp⟩

/-! ## The invariant -/

namespace Board

/-- What holds between any two calls. -/
structure Sound (b : Board) : Prop where
  bounded : b.cluster.Bounded
  past : ∀ k, ∀ o ∈ b.past k, Known b.cluster o
  paired : Paired b.journal

/-- The last entry is a change to this phase that has no notification yet. -/
def Due (b : Board) (phase : String) : Prop :=
  ∃ journal, Paired journal ∧ b.journal = journal ++ [.changed phase]

variable {request : Key} {b b' : Board} {op : Request} {r : op.Reply}

theorem Init.sound (h : b.Init) : b.Sound where
  bounded := h.bounded
  past k o ho := by
    rw [h.past k] at ho
    exact known_of_find? h.bounded (Table.find?_of_mem ho)
  paired := by rw [h.journal]; exact paired_nil

theorem Sound.store {c : Cluster} {es : List Entry} (h : b.Sound) (hc : Renews b.cluster c)
    (hes : Paired (b.journal ++ es)) : (b.store c es).Sound where
  bounded := hc.bounded h.bounded
  past k o ho := by
    rcases ho with ho | ho
    · exact (h.past k o ho).renews hc
    · exact known_of_find? (hc.bounded h.bounded) (Table.find?_of_mem ho)
  paired := hes

theorem Sound.env (h : b.Sound) (he : b.Env b') : b'.Sound := by
  obtain ⟨hc⟩ := he
  exact h.store hc (by rw [List.append_nil]; exact h.paired)

theorem Due.env {phase : String} (h : b.Due phase) (he : b.Env b') : b'.Due phase := by
  obtain ⟨hc⟩ := he
  obtain ⟨journal, hp, hj⟩ := h
  exact ⟨journal, hp, by rw [← hj]; exact List.append_nil _⟩

theorem Answer.renews (h : Answer request b op r b') : Renews b.cluster b'.cluster := by
  rcases h with ⟨h, -⟩ | -
  · exact h.renews
  · exact .refl _

end Board

/-- A call that neither writes a Service nor sends a notification. -/
def Silent (op : Request) : Prop := op.writes ≠ some .service ∧ ∀ msg, op ≠ .slack msg

section

variable {request : Key} {b b' : Board} {op : Request} {r : op.Reply}

theorem entries_silent {c c' : Cluster} (hop : ∀ msg, op ≠ .slack msg)
    (hc : phaseAt c' request = phaseAt c request) : entries request op c c' = [] := by
  unfold entries
  rw [if_pos hc]
  cases op with
  | slack msg => exact absurd rfl (hop msg)
  | _ => rfl

theorem entries_changed {c c' : Cluster} {phase phase' : String}
    (hc : phaseAt c request = some phase) (hc' : phaseAt c' request = some phase')
    (hne : phase ≠ phase') : entries request op c c' = [.changed phase'] := by
  unfold entries
  rw [hc, hc', if_neg (by simpa using hne.symm)]
  rfl

theorem entries_slack (c : Cluster) (msg : WebhookMessageAttachment) :
    entries request (.slack msg) c c = [.notified (phaseOf msg)] := if_pos rfl

theorem Silent.journal (hop : Silent op) (h : Board.Answer request b op r b') :
    b'.journal = b.journal := by
  rcases h with @⟨r', c, h, -⟩ | -
  · have hc : phaseAt c request = phaseAt b.cluster request := by
      rw [phaseAt, phaseAt, Cluster.find?, Cluster.find?, h.tbl_eq hop.1]
    show b.journal ++ entries request op b.cluster c = _
    rw [entries_silent hop.2 hc, List.append_nil]
  · show b.journal ++ entries request op b.cluster b.cluster = _
    rw [entries_silent hop.2 rfl, List.append_nil]

theorem Board.Sound.answer (h : b.Sound) (ha : Board.Answer request b op r b')
    (hj : Paired b'.journal) : b'.Sound := by
  have hc := ha.renews
  rcases ha with _ | _
  · exact h.store hc hj
  · exact h.store hc hj

theorem Board.Sound.silent (h : b.Sound) (hop : Silent op) (ha : Board.Answer request b op r b') :
    b'.Sound :=
  h.answer ha (by rw [hop.journal ha]; exact h.paired)

theorem Board.Sound.get {k : Kind} {key : Key} {r : Except Error k.Obj} (h : b.Sound)
    (ha : Board.Answer request b (.get k key) r b') :
    b'.Sound ∧ ∀ o, r = .ok o → Known b'.cluster o ∧ o.key = key := by
  have hs : b'.Sound := h.silent (by simp [Silent, Request.writes]) ha
  refine ⟨hs, ?_⟩
  rintro o rfl
  rcases ha with @⟨r', c, hserve, hr⟩ | hr
  · obtain rfl : r' = .ok o := by
      rcases hr with hr | ⟨e, he⟩
      · exact hr.symm
      · cases he
    have hf := hserve.get_ok.2 o rfl
    obtain rfl := hserve.get_ok.1
    exact ⟨known_of_find? hs.bounded hf, find?_key hf⟩
  · rcases hr with ⟨e, he⟩ | ⟨o', ho', hkey, he⟩
    · cases he
    · cases he
      exact ⟨h.past k o ho', hkey⟩

/-- The status of a known copy is written with another phase: a change is due for notification,
or the call fails. -/
theorem Board.Sound.updateStatus {inst : Service} {status : ServiceStatus}
    {r : Except Error Service} (h : b.Sound) (hknown : Known (k := .service) b.cluster inst)
    (hkey : inst.key = request) (hphase : inst.status.phase ≠ status.phase)
    (ha : Board.Answer request b (.updateStatus .service { inst with status := status }) r b') :
    b'.Sound ∧ ∀ inst', r = .ok inst' → b'.Due inst'.status.phase := by
  have hes : b'.journal = b.journal ∧ (∃ e, r = .error e) ∨
      b'.journal = b.journal ++ [.changed status.phase] ∧
        ∀ inst', r = .ok inst' → inst'.status.phase = status.phase := by
    rcases ha with @⟨r', c, hserve, hr⟩ | hr
    · rcases hserve.updateStatus_known hknown rfl rfl with ⟨rfl, he⟩ | ⟨hf, hr', rfl⟩
      · refine .inl ⟨?_, ?_⟩
        · show b.journal ++ entries request _ b.cluster b.cluster = _
          rw [entries_silent (by simp) rfl, List.append_nil]
        · rcases hr with rfl | hr
          · exact he
          · exact hr
      · refine .inr ⟨?_, ?_⟩
        · show b.journal ++ entries request _ b.cluster _ = _
          have hbefore : phaseAt b.cluster request = some inst.status.phase := by
            rw [phaseAt, ← hkey, hf]
            rfl
          have hafter : phaseAt (b.cluster.setTbl .service ((b.cluster.tbl .service).put
              (statusObj .service inst { inst with status := status } (b.cluster.version + 1))))
              request = some status.phase := by
            rw [phaseAt, Cluster.find?_setTbl, ← hkey]
            exact congrArg _ (Table.find?_put_self (x := statusObj .service inst _ _))
          rw [entries_changed hbefore hafter hphase]
        · rintro inst' rfl
          rcases hr with rfl | ⟨e, he⟩
          · cases hr'
            rfl
          · cases he
    · refine .inl ⟨?_, ?_⟩
      · show b.journal ++ entries request _ b.cluster b.cluster = _
        rw [entries_silent (by simp) rfl, List.append_nil]
      · rcases hr with hr | hr
        · exact hr
        · exact hr.elim
  rcases hes with ⟨hj, e, rfl⟩ | ⟨hj, hp⟩
  · exact ⟨h.answer ha (by rw [hj]; exact h.paired), nofun⟩
  · refine ⟨h.answer ha (by rw [hj]; exact h.paired.change _), fun inst' hr => ?_⟩
    rw [hp inst' hr]
    exact ⟨b.journal, h.paired, hj⟩

/-- The notification that is due. -/
theorem Board.Due.slack {phase : String} {msg : WebhookMessageAttachment} {r : Except Error Unit}
    (h : b.Due phase) (hs : b.Sound) (hmsg : phaseOf msg = phase)
    (ha : Board.Answer request b (.slack msg) r b') : b'.Sound := by
  obtain ⟨journal, hp, hj⟩ := h
  have hes : b'.journal = b.journal ++ [.notified (phaseOf msg)] := by
    rcases ha with @⟨r', c, hserve, -⟩ | -
    · obtain rfl : b.cluster = c := (Prod.mk.inj hserve).2
      show b.journal ++ entries request _ b.cluster b.cluster = _
      rw [entries_slack]
    · show b.journal ++ entries request _ b.cluster b.cluster = _
      rw [entries_slack]
  exact hs.answer ha (by rw [hes, hj, hmsg]; exact hp.notify _)

/-! ## The reconcile -/

/-- The program keeps the invariant if `P` holds at its start. -/
abbrev Safe (request : Key) (P : Board → Prop) {α : Type} (p : Ctl α) : Prop :=
  Triple (boardWorld request) P p fun _ => Board.Sound

theorem stable_sound : Stable (boardWorld request) Board.Sound := fun _ _ h he => h.env he

theorem stable_known {k : Kind} {o : k.Obj} :
    Stable (boardWorld request) fun b => b.Sound ∧ Known b.cluster o := by
  rintro b b' ⟨hs, hknown⟩ he
  refine ⟨hs.env he, ?_⟩
  obtain ⟨hc⟩ := he
  exact hknown.renews hc

theorem stable_due {phase : String} :
    Stable (boardWorld request) fun b => b.Sound ∧ b.Due phase :=
  fun _ _ h he => ⟨h.1.env he, h.2.env he⟩

/-- A program with only silent calls. -/
theorem safe_of_silent {α : Type} {p : Ctl α} (h : Uses Silent p) : Safe request Board.Sound p :=
  Triple.of_obeys h stable_sound fun _ _ _ _ hs hop ha => ⟨trivial, hs.silent hop ha⟩

theorem OnAddon.silent {a : Addon} (h : OnAddon a op) : Silent op :=
  ⟨(fun e => nomatch h.writes _ e), by rintro msg rfl; cases h⟩

theorem finish_safe (synced : Synced) : Safe request Board.Sound (finish synced) :=
  safe_of_silent ((finish_onAddon synced).mono fun _ ⟨_, h⟩ => h.silent)

theorem safe_ret {α : Type} (a : α) : Safe request Board.Sound (.ret a : Ctl α) :=
  safe_of_silent trivial

/-- The program keeps the invariant if `inst` is a copy that was stored once. -/
abbrev SafeFrom (request : Key) (inst : Service) {α : Type} (p : Ctl α) : Prop :=
  Safe request (fun b => b.Sound ∧ Known (k := .service) b.cluster inst) p

theorem Safe.from {α : Type} {p : Ctl α} {inst : Service} (h : Safe request Board.Sound p) :
    SafeFrom request inst p :=
  h.mono (fun _ h => h.1) fun _ _ h => h

theorem safeFrom_ret {α : Type} (inst : Service) (a : α) : SafeFrom request inst (.ret a : Ctl α) :=
  (safe_ret a).from

theorem SafeFrom.silent {α : Type} {inst : Service} {k : op.Reply → Ctl α} (hop : Silent op)
    (h : ∀ r, SafeFrom request inst (k r)) : SafeFrom request inst (.call op k) :=
  Triple.call stable_known (fun _ h => h.1)
    (fun _ _ _ h ha => ⟨h.1.silent hop ha, h.2.renews ha.renews⟩) h

/-- The Service is read. -/
theorem SafeFrom.read {α : Type} {k : Except Error Service → Ctl α}
    (herr : ∀ e, Safe request Board.Sound (k (.error e)))
    (hok : ∀ inst : Service, inst.key = request → SafeFrom request inst (k (.ok inst))) :
    Safe request Board.Sound (.call (.get .service request) k) := by
  refine Triple.call stable_sound (fun _ h => h) (fun b r b' h ha => h.get ha) fun r => ?_
  cases r with
  | error e => exact (herr e).mono (fun _ h => h.1) fun _ _ h => h
  | ok inst =>
    intro b tr o b' h he
    obtain ⟨hknown, hkey⟩ := h.2 inst rfl
    exact hok inst hkey ⟨h.1, hknown⟩ he

theorem syncStatus_safe {inst : Service} (found : Module) (hkey : inst.key = request) :
    SafeFrom request inst (syncStatus inst found) := by
  unfold syncStatus
  split
  · rename_i hphase
    rw [updateStatus_bind]
    refine Triple.call stable_known (fun _ h => h.1)
      (fun b r b' h ha => h.1.updateStatus h.2 hkey hphase ha) fun r => ?_
    cases r with
    | error e => exact (safe_ret _).mono (fun _ h => h.1) fun _ _ h => h
    | ok inst' =>
      have hslack : Safe request (fun b => b.Sound ∧ b.Due inst'.status.phase)
          (NotifyStatusViaSlack inst'.metadata.name inst'.status.phase >>= fun _ =>
            pure (syncPhase inst' found)) :=
        Triple.call stable_due (fun _ h => h.1) (fun b r b' h ha => h.2.slack h.1 rfl ha)
          fun _ => safe_ret _
      exact hslack.mono (fun b h => ⟨h.1, h.2 inst' rfl⟩) fun _ _ h => h
  · exact safeFrom_ret inst _

theorem syncFound_safe {inst : Service} (found deploy : Module) (hkey : inst.key = request) :
    SafeFrom request inst (syncFound request inst found deploy) := by
  unfold syncFound
  split
  · rw [update_bind]
    refine SafeFrom.silent ⟨nofun, by simp⟩ fun r => ?_
    cases r with
    | error e => exact safeFrom_ret inst _
    | ok found =>
      refine (SafeFrom.read (fun e => ?_) fun inst hkey => ?_).from
      · exact safe_ret _
      · exact syncStatus_safe found hkey
  · exact syncStatus_safe found hkey

theorem syncModule_safe (upper : Go.Upper) :
    Safe request Board.Sound (syncModule upper request) := by
  unfold syncModule
  rw [get_bind]
  refine SafeFrom.read (fun e => ?_) fun inst hkey => ?_
  · dsimp only
    split
    · exact safe_ret _
    · exact safe_ret _
  · dsimp only
    rw [getenv_bind]
    refine SafeFrom.silent ⟨nofun, by simp⟩ fun platform => ?_
    rw [get_bind]
    refine SafeFrom.silent ⟨nofun, by simp⟩ fun r => ?_
    cases r with
    | ok found => exact syncFound_safe found _ hkey
    | error e =>
      dsimp only
      split
      · rw [create_bind]
        refine SafeFrom.silent ⟨nofun, by simp⟩ fun r => ?_
        cases r with
        | error e => exact safeFrom_ret inst _
        | ok => exact safeFrom_ret inst _
      · exact safeFrom_ret inst _

theorem Reconcile_safe (upper : Go.Upper) :
    Safe request Board.Sound (Reconcile upper request) :=
  (syncModule_safe upper).bind finish_safe (fun _ _ h => h) fun _ h => h

/-- Notifications belong to the changes (module doc). -/
theorem notified_once {upper : Go.Upper} {request : Key} {ts : List (Trans Board BoardStep)}
    {b : Board} (h : Run (boardSys upper request) ts b) : NotifiedOnce b.journal := by
  have hstep : ∀ t : Trans Board BoardStep, (boardSys upper request).step t.pre t.lbl t.post →
      t.pre.Sound → t.post.Sound := by
    rintro ⟨b, l, b'⟩ hstep hs
    cases l with
    | others => exact hs.env hstep
    | reconcile =>
      obtain ⟨tr, o, hexec⟩ := hstep
      exact Reconcile_safe upper hs hexec
  exact (h.invariant' (fun b (hi : b.Init) => hi.sound) hstep).1.paired.notifiedOnce

end

/-! ### A Service whose Module is completed -/

/-- A running Service, and its Module that is completed. -/
def completedStore : Cluster :=
  let service := webService []
  let module := webModule []
  webStore { service with metadata := { service.metadata with resourceVersion := 1 },
                          status := { phase := StatusPhaseRunning } }
    { module with metadata := { module.metadata with resourceVersion := 2 },
                  status := { phase := StatusPhaseCompleted } }

def completedBoard : Board := ⟨completedStore, fun k => {o | o ∈ completedStore.tbl k}, []⟩

/-- Nobody else acts, and nothing fails. -/
def serveBoard (b : Board) (op : Request) : op.Reply × Board :=
  let (r, c) := serve b.cluster op
  (r, b.store c (entries webKey op b.cluster c))

def boardRun (b : Board) : Ran Api Board (Except Error Result) :=
  run serveBoard (Reconcile Go.asciiUpper webKey) b

/-- The first reconcile sends one notification, and the second none. -/
theorem notified_once_web : ∃ b : Board,
    b.journal = [.changed "Completed", .notified "Completed"] ∧ NotifiedOnce b.journal := by
  have hinit : completedBoard.Init := by
    refine ⟨?_, fun _ => rfl, rfl⟩
    exact (bounded_empty.put (k := .service) (Nat.le_refl 1)).put (k := .module) (Nat.le_refl 2)
  have hserve : ∀ b op, (boardWorld webKey).answer b op (serveBoard b op).1 (serveBoard b op).2 :=
    fun b op => .served (serves_serve b.cluster op) (.inl rfl)
  have hstep : ∀ b, (boardSys Go.asciiUpper webKey).step b .reconcile (boardRun b).final :=
    fun b => ⟨_, _, Exec.of_run hserve _ b⟩
  have hrun := ((Run.nil (S := boardSys Go.asciiUpper webKey) hinit).snoc (hstep _)).snoc (hstep _)
  exact ⟨_, by decide, notified_once hrun⟩

end ReconcileService

end Automium
