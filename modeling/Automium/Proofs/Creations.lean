import Automium.Controller.Addon
import Automium.Proofs.Extras

/-!
# What the controllers create for the extras

`ExtraCall P service` lists the calls of `ManageExtras`: it creates the extras of the Service, if
this is a cluster with replicas whose first extra can be created (`WantsExtra`), and of the extras
it finds it changes the spec. It is called with a copy of the Service that was read, or with the one
that the API returns for a status update. So this one has to satisfy `P` too (`Request.Replies`) in
`Reconcile_manages`, which has all the calls of a reconcile. None of the extras it writes has owner
references (`MayCreate`). The extras controllers create and update the Application of their extra.
-/

namespace Automium

open Effect Data

namespace ReconcileService

/-- `ManageExtras` creates or updates the object of the entry. -/
def Creatable (extraSpec : ExtraSpec) : Prop :=
  extraSpec.name = "monitoring" ∨ extraSpec.name = "backup" ∨
    extraSpec.name = "logging" ∧ extraSpec.parameters ≠ none

/-- The Service is one for which an extra may be created: `ManageExtras` stops at the first entry
that it cannot handle. -/
def WantsExtra (service : Service) : Prop :=
  appOf service = kubernetesCluster ∧ service.spec.replicas ≠ 0 ∧
    ∃ extraSpec rest, service.spec.extra = extraSpec :: rest ∧ Creatable extraSpec

/-- The calls of `ManageExtras` (module doc). -/
def ExtraCall (P : (k : Kind) → k.Obj → Prop) (service : Service) : Request → Prop
  | .get (.addon _) _ | .delete (.addon _) _ => True
  | .create (.addon a) o => WantsExtra service ∧
      ∃ version parameters, o = extraManifest service (suffixOf a) version parameters
  | .update (.addon a) o => ∃ found, (P (.addon a) found ∨ found = zeroAddon) ∧
      o.metadata = found.metadata
  | _ => False

/-- The calls of `Reconcile`. -/
def ReconcileCall (upper : Go.Upper) (P : (k : Kind) → k.Obj → Prop) (op : Request) : Prop :=
  SyncCall upper P op ∨ ∃ service, P .service service ∧ ExtraCall P service op

/-- An extra that the call writes has no owner references. One that it creates is for a Service that
wants it. -/
def MayCreate (P : (k : Kind) → k.Obj → Prop) : Request → Prop
  | .create (.addon _) o => o.metadata.ownerReferences = [] ∧
      ∃ service, P .service service ∧ WantsExtra service
  | .update (.addon _) o => o.metadata.ownerReferences = []
  | _ => True

section

variable {P : (k : Kind) → k.Obj → Prop} {service : Service}

/-- The programs of `ManageExtras`. -/
abbrev Manages (P : (k : Kind) → k.Obj → Prop) (service : Service) {α : Type} (p : Ctl α)
    (Q : α → Prop) : Prop :=
  Obeys (S := Api) (Request.Replies P) (ExtraCall P service) p Q

theorem updateExtra_manages {a : Addon} {found manifest : AddonObj}
    (h : P (.addon a) found ∨ found = zeroAddon) :
    Manages P service (updateExtra a found manifest) fun _ => True := by
  unfold updateExtra
  split
  · rw [update_bind]
    refine ⟨⟨found, h, rfl⟩, fun r _ => ?_⟩
    cases r <;> trivial
  · trivial

theorem manageExtra_manages (hw : service.spec.replicas ≠ 0 → WantsExtra service) (a : Addon)
    (version : String) (parameters : Option StringMap) :
    Manages P service (manageExtra a (suffixOf a) service version parameters) fun _ => True := by
  unfold manageExtra
  dsimp only
  split
  · rw [delete_bind]
    refine ⟨trivial, fun r _ => ?_⟩
    cases r with
    | error e => dsimp only; split <;> trivial
    | ok => trivial
  · rename_i hr
    rw [get_bind]
    refine ⟨trivial, fun r hreply => ?_⟩
    cases r with
    | ok found => exact updateExtra_manages (.inl (hreply found rfl).1)
    | error e =>
      dsimp only
      split
      · rw [create_bind]
        refine ⟨⟨hw hr, version, parameters, rfl⟩, fun r _ => ?_⟩
        cases r <;> trivial
      · exact updateExtra_manages (.inr rfl)

theorem manageEntry_manages {extraSpec : ExtraSpec}
    (hw : service.spec.replicas ≠ 0 → Creatable extraSpec → WantsExtra service) :
    Manages P service (manageEntry service extraSpec)
      fun r => (∃ u, r = .ok u) → Creatable extraSpec := by
  have hextra : ∀ a version parameters, Creatable extraSpec →
      Manages P service (manageExtra a (suffixOf a) service version parameters)
        fun r => (∃ u, r = .ok u) → Creatable extraSpec := fun a version parameters hc =>
    (manageExtra_manages (fun hr => hw hr hc) a version parameters).mono (fun _ _ h => h)
      (fun _ h => h) fun _ _ _ => hc
  unfold manageEntry manageMonitoringExtra manageBackupExtra manageLoggingExtra
  split
  · rename_i hn
    exact hextra .monitoring _ _ (.inl hn)
  · split
    · rename_i hn
      exact hextra .backup _ _ (.inr (.inl hn))
    · split
      · rename_i hn
        split
        · trivial
        · rename_i parameters hp
          exact hextra .logging _ _ (.inr (.inr ⟨hn, by rw [hp]; nofun⟩))
      · rintro ⟨u, hu⟩
        cases hu

theorem manageEntries_manages (hw : service.spec.replicas ≠ 0 → WantsExtra service)
    (extra : List ExtraSpec) :
    Manages P service (manageEntries service extra) fun _ => True := by
  induction extra with
  | nil => trivial
  | cons extraSpec rest ih =>
    refine (manageEntry_manages fun hr _ => hw hr).bind fun r _ => ?_
    cases r with
    | error e => trivial
    | ok => exact ih

/-- `ManageExtras` creates extras only if it can handle the first entry. -/
theorem ManageExtras_manages (happ : appOf service = kubernetesCluster) :
    Manages P service (ManageExtras service) fun _ => True := by
  unfold ManageExtras
  cases hextra : service.spec.extra with
  | nil => trivial
  | cons extraSpec rest =>
    have hw : service.spec.replicas ≠ 0 → Creatable extraSpec → WantsExtra service := fun hr hc =>
      ⟨happ, hr, extraSpec, rest, hextra, hc⟩
    refine (manageEntry_manages hw).bind fun r hr => ?_
    cases r with
    | error e => trivial
    | ok u => exact manageEntries_manages (fun h => hw h (hr ⟨u, rfl⟩)) rest

/-- Where `syncModule` calls `ManageExtras`, it does so for a cluster that satisfies `P`. -/
def Synced.ForCluster (P : (k : Kind) → k.Obj → Prop) : Synced → Prop
  | .finished _ => True
  | .extras service => P .service service ∧ appOf service = kubernetesCluster

theorem syncPhase_forCluster {inst : Service} (hs : P .service inst) (found : Module) :
    (syncPhase inst found).ForCluster P := by
  unfold syncPhase
  split
  · trivial
  · split
    · rename_i h
      exact ⟨hs, h.2⟩
    · trivial

abbrev Syncs (P : (k : Kind) → k.Obj → Prop) (p : Ctl Synced) : Prop :=
  Obeys (S := Api) (Request.Replies P) (fun _ => True) p (Synced.ForCluster P)

theorem syncStatus_syncs {inst : Service} (hs : P .service inst) (found : Module) :
    Syncs P (syncStatus inst found) := by
  unfold syncStatus
  split
  · rw [updateStatus_bind]
    refine ⟨trivial, fun r hr => ?_⟩
    cases r with
    | error e => trivial
    | ok inst' => exact ⟨trivial, fun _ _ => syncPhase_forCluster (hr inst' rfl) found⟩
  · exact syncPhase_forCluster hs found

theorem syncModule_syncs (upper : Go.Upper) (request : Key) :
    Syncs P (syncModule upper request) := by
  unfold syncModule
  rw [get_bind]
  refine ⟨trivial, fun r hr => ?_⟩
  cases r with
  | error e => dsimp only; split <;> trivial
  | ok inst =>
    have hs : P .service inst := (hr inst rfl).1
    dsimp only
    rw [getenv_bind]
    refine ⟨trivial, fun platform _ => ?_⟩
    dsimp only
    rw [get_bind]
    refine ⟨trivial, fun r _ => ?_⟩
    cases r with
    | error e =>
      dsimp only
      split
      · rw [create_bind]
        refine ⟨trivial, fun r _ => ?_⟩
        cases r <;> trivial
      · trivial
    | ok found =>
      dsimp only
      unfold syncFound
      split
      · rw [update_bind]
        refine ⟨trivial, fun r _ => ?_⟩
        cases r with
        | error e => trivial
        | ok found =>
          dsimp only
          rw [get_bind]
          refine ⟨trivial, fun r hr => ?_⟩
          cases r with
          | error e => trivial
          | ok inst => exact syncStatus_syncs (hr inst rfl).1 found
      · exact syncStatus_syncs hs found

/-- All calls of a reconcile of a Service. -/
theorem Reconcile_manages (upper : Go.Upper) (request : Key) :
    Obeys (S := Api) (Request.Replies P) (ReconcileCall upper P) (Reconcile upper request)
      fun _ => True := by
  have hcalls : Obeys (S := Api) (Request.Replies P) (SyncCall upper P) (syncModule upper request)
      fun _ => True :=
    (syncModule_calls request).mono (fun _ _ h => h.returns) (fun _ h => h) fun _ h => h
  have hsync : Obeys (S := Api) (Request.Replies P) (ReconcileCall upper P)
      (syncModule upper request) (Synced.ForCluster P) :=
    (hcalls.and (syncModule_syncs upper request)).mono (fun _ _ h => h) (fun _ h => .inl h.1)
      fun _ h => h.2
  refine hsync.bind fun synced h => ?_
  cases synced with
  | finished res => trivial
  | extras service =>
    have hextras : Obeys (S := Api) (Request.Replies P) (ReconcileCall upper P)
        (ManageExtras service) fun _ => True :=
      (ManageExtras_manages h.2).mono (fun _ _ h => h) (fun _ hop => .inr ⟨service, h.1, hop⟩)
        fun _ h => h
    refine hextras.bind fun r _ => ?_
    cases r <;> trivial

theorem ExtraCall.writes {op : Request} (h : ExtraCall P service op) :
    WritesOnly Kind.IsAddon op := by
  intro k e
  unfold ExtraCall at h
  split at h
  · cases e
  · exact ⟨_, (Option.some.inj e).symm⟩
  · exact ⟨_, (Option.some.inj e).symm⟩
  · exact ⟨_, (Option.some.inj e).symm⟩
  · exact h.elim

theorem ReconcileCall.mayCall {upper : Go.Upper} {op : Request} (h : ReconcileCall upper P op) :
    MayCall upper P op := by
  rcases h with h | ⟨service, -, h⟩
  · exact h.mayCall
  · exact mayCall_of_writesOnly h.writes

/-- The extras that a call writes, when the stored ones have no owner references. -/
theorem ReconcileCall.mayCreate (hP : ∀ a o, P (.addon a) o → o.metadata.ownerReferences = [])
    {upper : Go.Upper} {op : Request} (h : ReconcileCall upper P op) : MayCreate P op := by
  unfold MayCreate
  split
  · rcases h with h | ⟨service, hs, hw, version, parameters, rfl⟩
    · exact nomatch h
    · exact ⟨rfl, service, hs, hw⟩
  · rcases h with h | ⟨service, -, found, hfound | rfl, hmeta⟩
    · exact nomatch h
    · exact hmeta ▸ hP _ found hfound
    · exact hmeta ▸ rfl
  · trivial

end

end ReconcileService

/-! ## The extras controllers -/

/-- The calls that a reconcile of an extra may make. -/
def AddonCall (a : Addon) (name ns : String) (P : (k : Kind) → k.Obj → Prop) : Request → Prop
  | .get _ _ => True
  | .create .application o => ∃ inst, P (.addon a) inst ∧ o = addonApplication a name ns inst
  | .update .application o => ∃ found spec, P .application found ∧ o = { found with spec := spec }
  | _ => False

theorem reconcileAddon_calls (P : (k : Kind) → k.Obj → Prop) (a : Addon) (name ns : String)
    (request : Key) : Obeys (S := Api) (Request.Returns P) (AddonCall a name ns P)
      (reconcileAddon a name ns request) fun _ => True := by
  unfold reconcileAddon
  rw [get_bind]
  refine ⟨trivial, fun r hr => ?_⟩
  cases r with
  | error e => dsimp only; split <;> trivial
  | ok inst =>
    dsimp only
    rw [get_bind]
    refine ⟨trivial, fun r hr' => ?_⟩
    cases r with
    | error e =>
      dsimp only
      split
      · rw [create_bind]
        refine ⟨⟨inst, (hr inst rfl).1, rfl⟩, fun r _ => ?_⟩
        cases r <;> trivial
      · trivial
    | ok found =>
      dsimp only
      split
      · rw [update_bind]
        refine ⟨⟨found, _, (hr' found rfl).1, rfl⟩, fun r _ => ?_⟩
        cases r <;> trivial
      · trivial

end Automium
