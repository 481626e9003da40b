import Automium.Proofs.Addons
import Automium.Proofs.AtRest
import Automium.Proofs.ModuleFidelity

/-!
# Services and extras at rest

* `service_at_rest`: the Service controller never rests for a Service whose Module is stored: it comes
  back to it after some seconds, for as long as both are stored.
* `addon_at_rest`: the controller of an extra rests when the Application of the extra has the spec that
  it is to have, or is not stored.
-/

namespace Automium

open Effect

/-! ## Services -/

namespace ReconcileService

variable {upper : Go.Upper} {req : Key} {v : (i : Kind × Key) → Cached i}
  {svc : {o : Kind.service.Obj // o.key = req}}
  {found : {o : Kind.module.Obj // o.key = ownedKey req}} {res : Except Error Result}

/-- The loop of a Service. -/
abbrev serviceLoop (upper : Go.Upper) (req : Key) : Loop Api Cached (Except Error Result) :=
  (controller upper).loop req

theorem serviceLoop_answer :
    (serviceLoop upper req).answer = Answers (serviceLoop upper req).watched := rfl

theorem serviceLoop_loud (hs : v (.service, req) = some svc) :
    (serviceLoop upper req).Loud (.service, req) (v (.service, req)) := by
  rw [hs]
  exact loud_first svc

/-- The Module is owned by the Service. -/
def OwnedModule (req : Key) (found : Module) : Prop :=
  req ∈ EnqueueRequestForOwner.getOwnerReconcileRequest Kind.service.kindName found.metadata

theorem moduleLoud (hm : v (.module, ownedKey req) = some found) (ho : OwnedModule req found.1) :
    (serviceLoop upper req).Loud (.module, ownedKey req) (v (.module, ownedKey req)) := by
  rw [hm]
  exact loud_second ho

/-- The reconcile asks for another, or goes on to the extras. -/
def GoesOn : Synced → Prop
  | .finished res => addsAgain res = true
  | .extras _ => True

theorem finish_gives {x : Synced} (h : GoesOn x) : Gives (finish x) fun res => addsAgain res = true := by
  cases x with
  | finished res => exact h
  | extras service =>
    refine Gives.of_bind _ fun r => ?_
    cases r <;> rfl

theorem syncPhase_goesOn (inst : Service) (found : Module) : GoesOn (syncPhase inst found) := by
  unfold syncPhase
  split_ifs
  · rfl
  · trivial
  · rfl

/-- The status of a Service that is stored cannot be changed here. -/
theorem syncStatus_returns {inst : Service} {x : Synced} (hs : v (.service, req) = some svc)
    (hkey : inst.key = req)
    (h : (serviceLoop upper req).MayReturn v (syncStatus inst found.1) x) : GoesOn x := by
  unfold syncStatus at h
  split_ifs at h
  · rw [updateStatus_bind] at h
    have hkey' : ({ inst with status :=
        { inst.status with phase := found.1.status.phase, moduleRef := found.1.metadata.name } } :
        Service).key = req := hkey
    obtain ⟨e, he⟩ := may_updateStatus serviceLoop_answer (by rw [hkey']; exact .inl rfl)
      (by rw [hkey']; exact serviceLoop_loud hs) h
    rw [he.ret]
    rfl
  · rw [h.ret]
    exact syncPhase_goesOn inst found.1

theorem syncFound_returns {deploy : Module} {x : Synced} (hs : v (.service, req) = some svc)
    (hm : v (.module, ownedKey req) = some found) (ho : OwnedModule req found.1)
    (h : (serviceLoop upper req).MayReturn v (syncFound req svc.1 found.1 deploy) x) :
    GoesOn x := by
  unfold syncFound at h
  split_ifs at h
  · rw [update_bind] at h
    have hkey : ({ found.1 with spec := deploy.spec } : Module).key = ownedKey req := found.2
    obtain ⟨e, he⟩ := may_update serviceLoop_answer (by rw [hkey]; exact .inr rfl)
      (by rw [hkey]; exact moduleLoud hm ho) h
    rw [he.ret]
    rfl
  · exact syncStatus_returns hs svc.2 h

/-- A reconcile that finds the Service and its Module. -/
theorem Reconcile_again (hs : v (.service, req) = some svc)
    (hm : v (.module, ownedKey req) = some found) (ho : OwnedModule req found.1)
    (h : (serviceLoop upper req).MayReturn v (Reconcile upper req) res) : addsAgain res = true := by
  obtain ⟨x, hx, h⟩ := h.bind
  refine h.of_gives (finish_gives ?_)
  unfold syncModule at hx
  rw [get_bind] at hx
  rcases may_get serviceLoop_answer (.inl rfl) hs hx with hx | ⟨e, he, hx⟩
  · dsimp only at hx
    rw [getenv_bind] at hx
    obtain ⟨platform, -, hx⟩ := hx.call
    have hkey : (renderModule upper platform svc.1).key = ownedKey req := congrArg ownedKey svc.2
    rw [get_bind, hkey] at hx
    rcases may_get serviceLoop_answer (.inr rfl) hm hx with hx | ⟨e, he, hx⟩
    · exact syncFound_returns hs hm ho hx
    · dsimp only at hx
      rw [he] at hx
      rw [hx.ret]
      rfl
  · dsimp only at hx
    rw [he] at hx
    rw [hx.ret]
    rfl

/-- A Service for which nothing is left to do has no Module (module doc). -/
theorem service_at_rest {W : Type} [DecidableEq W] {s : ControllerState Api Cached W}
    {ts : List (Trans (ControllerState Api Cached W) (Controller.Move (Kind × Key)))}
    (h : Run (controller upper).sys ts s)
    (howned : ∀ t ∈ ts, SeenOwned .service .module ownedKey req t.post)
    (hrest : (controller upper).Rests req s)
    (hs : Controller.stored s (.service, req) = some svc) :
    Controller.stored s (.module, ownedKey req) = none := by
  obtain ⟨ho, res, hreturns, hres⟩ := owner_at_rest h howned hrest hs
  cases hm : Controller.stored s (.module, ownedKey req) with
  | none => rfl
  | some found =>
    have hagain := Reconcile_again hs hm (ho found hm) hreturns
    rw [hres] at hagain
    cases hagain

/-! ### A Module that was not seen -/

abbrev lonelyService : Cached (.service, webKey) := some ⟨webService [], rfl⟩

/-- The Module that its first reconcile creates. -/
abbrev lostModule : Cached (.module, ownedKey webKey) :=
  some ⟨newObj .module (renderModule Go.asciiUpper "" (webService [])) 2, rfl⟩

/-- The informers have not delivered anything. -/
def unlistedService : ControllerState Api Cached Unit where
  delivered _ := none
  pending := Function.update (fun _ => []) (.service, webKey) [lonelyService]

/-- The Module is created, and is removed before the informer has seen it. -/
theorem lost_run : ∃ ts s, Run (controller Go.asciiUpper).sys ts s ∧
    (∀ t ∈ ts, SeenOwned (W := Unit) .service .module ownedKey webKey t.post) ∧
    (controller Go.asciiUpper).Rests webKey s ∧
    Controller.stored s (.service, webKey) = lonelyService := by
  have h₀ : Run (controller Go.asciiUpper).sys [] unlistedService := .nil ⟨_, rfl⟩
  have h₁ := h₀.snoc (.deliver (show _ = [] ++ lonelyService :: [] from rfl))
  have h₂ := h₁.snoc (.get (w := ()) rfl rfl)
  have h₃ := h₂.snoc (.call (w := ()) rfl ⟨rfl, fun _ => .inl rfl⟩)
  have h₄ := h₃.snoc (.call (w := ()) (r := "") rfl rfl)
  have h₅ := h₄.snoc (.call (w := ()) (r := (.error (.newNotFound .module "web-module") : Except Error Module)) rfl
    ⟨rfl, fun _ => ⟨_, rfl⟩⟩)
  have h₆ := h₅.snoc (.call (w := ()) (a := some ⟨(.module, ownedKey webKey), lostModule⟩) rfl
    (.inr ⟨rfl, 2, rfl, .inl rfl⟩))
  have h₇ := h₆.snoc (.finish (w := ()) 0 rfl)
  have h₈ := h₇.snoc (.edit (i := (.module, ownedKey webKey)) (o := none))
  have h₉ := h₈.snoc (.deliver (i := (.module, ownedKey webKey))
    (show _ = [lostModule] ++ none :: [] by
      simp [Controller.push, Controller.store, unlistedService]))
  refine ⟨_, _, h₉, ?_, ⟨rfl, by decide, by decide, ?_, ?_⟩, rfl⟩
  · intro t ht o ho
    simp only [List.mem_append, List.mem_singleton, List.not_mem_nil, false_or] at ht
    rcases ht with (((((((rfl | rfl) | rfl) | rfl) | rfl) | rfl) | rfl) | rfl) | rfl <;> cases ho
  · rintro p ⟨w, hw⟩
    cases hw
  · rintro i (rfl | rfl) <;> rfl

theorem service_at_rest_lost : ∃ ts s, Run ((controller Go.asciiUpper).sys (W := Unit)) ts s ∧
    (controller Go.asciiUpper).Rests webKey s ∧
    Controller.stored s (.service, webKey) = lonelyService ∧
    Controller.stored s (.module, ownedKey webKey) = none := by
  obtain ⟨ts, s, hrun, howned, hrest, hs⟩ := lost_run
  exact ⟨ts, s, hrun, hrest, hs, service_at_rest hrun howned hrest hs⟩

end ReconcileService

/-! ## Extras -/

section Addon

variable {a : Addon} {name ns : String} {req : Key} {v : (i : Kind × Key) → Cached i}
  {inst : {o : (Kind.addon a).Obj // o.key = req}}
  {app : {o : Kind.application.Obj // o.key = addonOwnedKey req}} {res : Except Error Result}

/-- The loop of an extra. -/
abbrev addonLoop (a : Addon) (name ns : String) (req : Key) :
    Loop Api Cached (Except Error Result) :=
  (addonController a name ns).loop req

theorem addonLoop_answer :
    (addonLoop a name ns req).answer = Answers (addonLoop a name ns req).watched := rfl

/-- A reconcile that does not ask for another found the desired spec. -/
theorem reconcileAddon_returns (hi : v (.addon a, req) = some inst)
    (happ : v (.application, addonOwnedKey req) = some app)
    (ho : req ∈ EnqueueRequestForOwner.getOwnerReconcileRequest a.kindName app.1.metadata)
    (h : (addonLoop a name ns req).MayReturn v (reconcileAddon a name ns req) res)
    (hres : addsAgain res = false) : app.1.spec = (addonApplication a name ns inst.1).spec := by
  have hagain : ∀ {e : Error}, (addonLoop a name ns req).MayReturn v (.ret (.error e)) res →
      False := by
    intro e h
    rw [h.ret] at hres
    cases hres
  unfold reconcileAddon at h
  rw [get_bind] at h
  rcases may_get addonLoop_answer (.inl rfl) hi h with h | ⟨e, he, h⟩
  · dsimp only at h
    have hkey : (addonApplication a name ns inst.1).key = addonOwnedKey req :=
      congrArg addonOwnedKey inst.2
    rw [get_bind, hkey] at h
    rcases may_get addonLoop_answer (.inr rfl) happ h with h | ⟨e, he, h⟩
    · dsimp only at h
      split_ifs at h with hspec
      · rw [update_bind] at h
        have hkey' : ({ app.1 with spec := (addonApplication a name ns inst.1).spec } :
            Application).key = addonOwnedKey req := app.2
        obtain ⟨e, h⟩ := may_update addonLoop_answer (by rw [hkey']; exact .inr rfl)
          (by rw [hkey', happ]; exact loud_second ho) h
        exact (hagain h).elim
      · exact (not_not.mp hspec).symm
    · dsimp only at h
      rw [he] at h
      exact (hagain h).elim
  · dsimp only at h
    rw [he] at h
    exact (hagain h).elim

/-- An extra for which nothing is left to do (module doc). -/
theorem addon_at_rest {W : Type} [DecidableEq W] {s : ControllerState Api Cached W}
    {ts : List (Trans (ControllerState Api Cached W) (Controller.Move (Kind × Key)))}
    (h : Run (addonController a name ns).sys ts s)
    (howned : ∀ t ∈ ts, SeenOwned (.addon a) .application addonOwnedKey req t.post)
    (hrest : (addonController a name ns).Rests req s)
    (hi : Controller.stored s (.addon a, req) = some inst)
    (happ : Controller.stored s (.application, addonOwnedKey req) = some app) :
    app.1.spec = (addonApplication a name ns inst.1).spec := by
  obtain ⟨ho, res, hreturns, hres⟩ := owner_at_rest h howned hrest hi
  exact reconcileAddon_returns hi happ (ho app happ) hreturns hres

/-! ### A Backup and its Application -/

abbrev deliveredExtra : Cached (.addon .backup, (prodAddon "prod-backup").key) :=
  some ⟨prodAddon "prod-backup", rfl⟩

/-- Its Application. -/
abbrev deliveredApp : Cached (.application, addonOwnedKey (prodAddon "prod-backup").key) :=
  some ⟨addonApplication .backup "automium-backup" "kube-system" (prodAddon "prod-backup"), rfl⟩

/-- The informers have not delivered anything. -/
def unlistedExtra : ControllerState Api Cached Unit where
  delivered _ := none
  pending := Function.update (Function.update (fun _ => [])
    (.addon .backup, (prodAddon "prod-backup").key) [deliveredExtra])
    (.application, addonOwnedKey (prodAddon "prod-backup").key) [deliveredApp]

/-- The extra and its Application are delivered, and the extra is reconciled once. -/
theorem backup_run : ∃ ts s, Run ReconcileBackup.controller.sys ts s ∧
    (∀ t ∈ ts, SeenOwned (W := Unit) (.addon .backup) .application addonOwnedKey
      (prodAddon "prod-backup").key t.post) ∧
    ReconcileBackup.controller.Rests (prodAddon "prod-backup").key s ∧
    Controller.stored s (.addon .backup, (prodAddon "prod-backup").key) = deliveredExtra ∧
    Controller.stored s (.application, addonOwnedKey (prodAddon "prod-backup").key) =
      deliveredApp := by
  have h₀ : Run ReconcileBackup.controller.sys [] unlistedExtra := .nil ⟨_, rfl⟩
  have h₁ := h₀.snoc (.deliver (show _ = [] ++ deliveredExtra :: [] from rfl))
  have h₂ := h₁.snoc (.deliver (show _ = [] ++ deliveredApp :: [] from rfl))
  have h₃ := h₂.snoc (.get (w := ()) rfl rfl)
  have h₄ := h₃.snoc (.call (w := ()) rfl ⟨rfl, fun _ => .inl rfl⟩)
  have h₅ := h₄.snoc (.call (w := ()) rfl ⟨rfl, fun _ => .inl rfl⟩)
  have h₆ := h₅.snoc (.finish (w := ()) 0 rfl)
  refine ⟨_, _, h₆, ?_, ⟨rfl, by decide, by decide, ?_, ?_⟩, rfl, rfl⟩
  · intro t ht o ho
    simp only [List.mem_append, List.mem_singleton, List.not_mem_nil, false_or] at ht
    rcases ht with ((((rfl | rfl) | rfl) | rfl) | rfl) | rfl <;> cases ho <;> decide
  · rintro p ⟨w, hw⟩
    cases hw
  · rintro i (rfl | rfl) <;> rfl

theorem addon_at_rest_backup : ∃ ts s app, Run (ReconcileBackup.controller.sys (W := Unit)) ts s ∧
    ReconcileBackup.controller.Rests (prodAddon "prod-backup").key s ∧
    Controller.stored s (.addon .backup, (prodAddon "prod-backup").key) = deliveredExtra ∧
    Controller.stored s (.application, addonOwnedKey (prodAddon "prod-backup").key) = some app ∧
    app.1.spec = (addonApplication .backup "automium-backup" "kube-system"
      (prodAddon "prod-backup")).spec := by
  obtain ⟨ts, s, hrun, howned, hrest, hi, happ⟩ := backup_run
  exact ⟨ts, s, _, hrun, hrest, hi, happ, addon_at_rest hrun howned hrest hi happ⟩

end Addon

end Automium
