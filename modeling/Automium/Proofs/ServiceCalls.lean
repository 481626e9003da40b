import Automium.Api.World
import Automium.Controller.Service

/-!
# The calls of the Service controller

* `WritesOnly`: the kinds of the objects that a function may change, whatever the replies. With
  `Serves.tbl_eq` these give the frames: the objects of the other kinds are left alone.
* `OnAddon a`: the calls for an extra, which are the only ones after `syncModule`.
* `SyncCall P`: what `syncModule` may call as long as the objects it reads satisfy `P`: it creates
  the Module that it renders from a Service it has read, or writes the rendered spec into the Module
  it has read; and it writes the status of a Service.
* `MayCall P`: these calls and those for the extras. `Reconcile_calls` says so of the whole
  function.
-/

namespace Automium

open Effect

/-- The call writes no object of a kind outside `ks`. -/
def WritesOnly (ks : Kind → Prop) (op : Request) : Prop := ∀ k, op.writes = some k → ks k

/-- The kinds of the extras. -/
def Kind.IsAddon (k : Kind) : Prop := ∃ a, k = .addon a

theorem WritesOnly.ne {ks : Kind → Prop} {op : Request} {k : Kind} (h : WritesOnly ks op)
    (hk : ¬ ks k) : op.writes ≠ some k := fun e => hk (h k e)

theorem WritesOnly.of_none {ks : Kind → Prop} {op : Request} (h : op.writes = none) :
    WritesOnly ks op := by
  intro k e
  rw [h] at e
  cases e

namespace ReconcileService

/-- The key of the Module of a Service. -/
def moduleKey (service : Service) : Key := ⟨service.metadata.ns, moduleName service.metadata.name⟩

/-- The object is the Service, but for its status and its version. -/
structure Same (service o : Service) : Prop where
  name : o.metadata.name = service.metadata.name
  inNs : o.metadata.ns = service.metadata.ns
  labels : o.metadata.labels = service.metadata.labels
  spec : o.spec = service.spec

theorem Same.renderSpec_eq {upper : Go.Upper} {platform : String} {service o : Service}
    (h : Same service o) : renderSpec upper platform o = renderSpec upper platform service := by
  unfold renderSpec ownEnvVars appOf
  rw [h.name, h.labels, h.spec]

theorem Same.appOf_eq {service o : Service} (h : Same service o) : appOf o = appOf service := by
  rw [appOf, appOf, h.labels]

theorem Same.key_eq {service o : Service} (h : Same service o) : o.key = service.key := by
  rw [Object.key, Object.key, h.inNs, h.name]

/-- A call on the objects of an extra's kind. -/
inductive OnAddon (a : Addon) : Request → Prop
  | get (key : Key) : OnAddon a (.get (.addon a) key)
  | create (o : AddonObj) : OnAddon a (.create (.addon a) o)
  | update (o : AddonObj) : OnAddon a (.update (.addon a) o)
  | delete (key : Key) : OnAddon a (.delete (.addon a) key)

theorem OnAddon.writes {a : Addon} {op : Request} (h : OnAddon a op) :
    WritesOnly (· = .addon a) op := by
  intro k e
  cases h <;> cases e <;> rfl

theorem updateExtra_calls (a : Addon) (found manifest : AddonObj) :
    Uses (OnAddon a) (updateExtra a found manifest) := by
  unfold updateExtra
  split
  · rw [update_bind]
    refine ⟨.update _, fun r _ => ?_⟩
    cases r <;> trivial
  · trivial

theorem manageExtra_calls (a : Addon) (suffix : String) (service : Service) (version : String)
    (parameters : Option StringMap) :
    Uses (OnAddon a) (manageExtra a suffix service version parameters) := by
  unfold manageExtra
  dsimp only
  split
  · rw [delete_bind]
    refine ⟨.delete _, fun r _ => ?_⟩
    cases r with
    | error e => dsimp only; split <;> trivial
    | ok => trivial
  · rw [get_bind]
    refine ⟨.get _, fun r _ => ?_⟩
    cases r with
    | ok found => exact updateExtra_calls a found _
    | error e =>
      dsimp only
      split
      · rw [create_bind]
        refine ⟨.create _, fun r _ => ?_⟩
        cases r <;> trivial
      · exact updateExtra_calls a _ _

theorem manageExtra_writes (a : Addon) (suffix : String) (service : Service) (version : String)
    (parameters : Option StringMap) :
    Uses (WritesOnly (· = .addon a)) (manageExtra a suffix service version parameters) :=
  (manageExtra_calls ..).mono fun _ => OnAddon.writes

theorem manageEntry_calls (service : Service) (extraSpec : ExtraSpec) :
    Uses (fun op => ∃ a, OnAddon a op) (manageEntry service extraSpec) := by
  unfold manageEntry manageMonitoringExtra manageBackupExtra manageLoggingExtra
  split
  · exact (manageExtra_calls ..).mono fun _ h => ⟨_, h⟩
  · split
    · exact (manageExtra_calls ..).mono fun _ h => ⟨_, h⟩
    · split
      · split
        · trivial
        · exact (manageExtra_calls ..).mono fun _ h => ⟨_, h⟩
      · trivial

theorem ManageExtras_calls (service : Service) :
    Uses (fun op => ∃ a, OnAddon a op) (ManageExtras service) := by
  unfold ManageExtras
  generalize service.spec.extra = extra
  induction extra with
  | nil => trivial
  | cons extraSpec rest ih =>
    refine Uses.bind (manageEntry_calls service extraSpec) fun r => ?_
    cases r with
    | error e => trivial
    | ok => exact ih

/-- After `syncModule` there are only calls for the extras. -/
theorem finish_onAddon (synced : Synced) : Uses (fun op => ∃ a, OnAddon a op) (finish synced) := by
  cases synced with
  | finished res => trivial
  | extras service =>
    refine Uses.bind (ManageExtras_calls service) fun r => ?_
    cases r <;> trivial

theorem finish_writes (synced : Synced) : Uses (WritesOnly Kind.IsAddon) (finish synced) :=
  (finish_onAddon synced).mono fun _ ⟨a, h⟩ k e => ⟨a, h.writes k e⟩

/-- The part of `Reconcile` that copies the phase writes the Service only. -/
theorem syncStatus_writes (inst : Service) (found : Module) :
    Uses (WritesOnly (· = .service)) (syncStatus inst found) := by
  unfold syncStatus
  split
  · rw [updateStatus_bind]
    refine ⟨fun k e => (Option.some.inj e).symm, fun r _ => ?_⟩
    cases r with
    | error e => trivial
    | ok inst => exact ⟨.of_none rfl, fun _ _ => trivial⟩
  · trivial

/-- Once the Module is written, `Reconcile` leaves the Modules alone. -/
theorem syncStatus_finish_writes (inst : Service) (found : Module) :
    Uses (fun op : Request => op.writes ≠ some .module) (syncStatus inst found >>= finish) :=
  Uses.bind ((syncStatus_writes inst found).mono fun op h => h.ne (by decide)) fun synced =>
    (finish_writes synced).mono fun op h => h.ne fun ⟨a, e⟩ => nomatch e

/-! ## All calls -/

/-- The calls of `syncModule` (module doc). -/
def SyncCall (upper : Go.Upper) (P : (k : Kind) → k.Obj → Prop) : Request → Prop
  | .create .module m => ∃ platform inst, P .service inst ∧ m = renderModule upper platform inst
  | .update .module m => ∃ platform inst found, P .service inst ∧ P .module found ∧
      found.key = (renderModule upper platform inst).key ∧
      m = { found with spec := renderSpec upper platform inst }
  | .updateStatus .service _ => True
  | op => op.writes = none

/-- The calls that a reconcile of a Service may make (module doc). -/
def MayCall (upper : Go.Upper) (P : (k : Kind) → k.Obj → Prop) : Request → Prop
  | .create .module m => ∃ platform inst, P .service inst ∧ m = renderModule upper platform inst
  | .update .module m => ∃ platform inst found, P .service inst ∧ P .module found ∧
      found.key = (renderModule upper platform inst).key ∧
      m = { found with spec := renderSpec upper platform inst }
  | .updateStatus .service _ => True
  | op => WritesOnly Kind.IsAddon op

section

variable {upper : Go.Upper} {P : (k : Kind) → k.Obj → Prop}

theorem mayCall_of_writesOnly {op : Request} (h : WritesOnly Kind.IsAddon op) :
    MayCall upper P op := by
  unfold MayCall
  split
  · exact nomatch h _ rfl
  · exact nomatch h _ rfl
  · trivial
  · exact h

theorem SyncCall.mayCall {op : Request} (h : SyncCall upper P op) : MayCall upper P op := by
  unfold SyncCall at h
  split at h
  · exact h
  · exact h
  · trivial
  · exact mayCall_of_writesOnly (.of_none h)

/-- The programs that make only the calls of a reconcile of a Service. -/
abbrev Does (upper : Go.Upper) (P : (k : Kind) → k.Obj → Prop) {α : Type} (p : Ctl α) : Prop :=
  Obeys (S := Api) (Request.Returns P) (MayCall upper P) p fun _ => True

/-- The programs that make only those of `syncModule`. -/
abbrev Prepares (upper : Go.Upper) (P : (k : Kind) → k.Obj → Prop) {α : Type} (p : Ctl α) : Prop :=
  Obeys (S := Api) (Request.Returns P) (SyncCall upper P) p fun _ => True

theorem finish_calls (synced : Synced) : Does upper P (finish synced) :=
  Obeys.mono (finish_writes synced) (fun _ _ _ => trivial) (fun _ h => mayCall_of_writesOnly h)
    fun _ h => h

theorem syncStatus_calls (inst : Service) (found : Module) :
    Prepares upper P (syncStatus inst found) := by
  unfold syncStatus
  split
  · rw [updateStatus_bind]
    refine ⟨trivial, fun r _ => ?_⟩
    cases r with
    | error e => trivial
    | ok inst => exact ⟨rfl, fun _ _ => trivial⟩
  · trivial

theorem syncFound_calls {request : Key} {platform : String} {inst : Service} {found : Module}
    (hs : P .service inst) (hm : P .module found)
    (hk : found.key = (renderModule upper platform inst).key) :
    Prepares upper P (syncFound request inst found (renderModule upper platform inst)) := by
  unfold syncFound
  split
  · rw [update_bind]
    refine ⟨⟨platform, inst, found, hs, hm, hk, rfl⟩, fun r _ => ?_⟩
    cases r with
    | error e => trivial
    | ok found =>
      dsimp only
      rw [get_bind]
      refine ⟨rfl, fun r _ => ?_⟩
      cases r with
      | error e => trivial
      | ok inst => exact syncStatus_calls inst found
  · exact syncStatus_calls inst found

theorem syncModule_calls (request : Key) : Prepares upper P (syncModule upper request) := by
  unfold syncModule
  rw [get_bind]
  refine ⟨rfl, fun r hr => ?_⟩
  cases r with
  | error e => dsimp only; split <;> trivial
  | ok inst =>
    dsimp only
    rw [getenv_bind]
    refine ⟨rfl, fun platform _ => ?_⟩
    dsimp only
    rw [get_bind]
    refine ⟨rfl, fun r hr' => ?_⟩
    cases r with
    | error e =>
      dsimp only
      split
      · rw [create_bind]
        refine ⟨⟨platform, inst, (hr inst rfl).1, rfl⟩, fun r _ => ?_⟩
        cases r <;> trivial
      · trivial
    | ok found =>
      exact syncFound_calls (hr inst rfl).1 (hr' found rfl).1 (hr' found rfl).2

/-- The calls of `Reconcile`. -/
theorem Reconcile_calls (request : Key) : Does upper P (Reconcile upper request) :=
  ((syncModule_calls request).mono (fun _ _ h => h) (fun _ h => h.mayCall) fun _ h => h).bind
    fun synced _ => finish_calls synced

end

end ReconcileService

end Automium
