import Automium.Api.Versions
import Automium.Effect.Pool
import Automium.Proofs.ModuleCalls
import Automium.Proofs.ServiceCalls

/-!
# When the extras of a cluster are managed

Reconciles of the Module controller set the phase of a Module while users edit the Services and
reconciles of the Service controller write new specs. The phase says nothing about its spec, so
the state is `Tracked`: with each Module goes the spec that the reconcile saw which last wrote its
status. The invariant (`Sound`) ties the phase of a completed cluster Module to its present spec.
It survives every step but one: a reconcile of a Service that finds the Module completed and
writes another spec into it. In a run without these (`Steady`), the extras are managed for a
version of the Service only if its spec was the Module's and was seen by the reconcile that wrote
the phase (`extras_settled`).

The reconciles of the Services run one after the other, as the controller has one worker. Between
any two of their calls, any number of reconciles of Modules start, make calls and end
(`Effect.Pool`), and others edit.
-/

namespace Automium

open Data Effect

namespace ReconcileService

/-! ## The system -/

/-- The stored objects, and for each Module the spec that the reconcile saw which last wrote its
status. -/
structure Tracked where
  cluster : Cluster
  seen : Key → Option ModuleSpec

/-- The specs seen, after a call. The Module in a call of `updateStatus` is the copy of the
reconcile with another status. -/
def noted (seen : Key → Option ModuleSpec) : (op : Request) → op.Reply → Key → Option ModuleSpec
  | .updateStatus .module m, .ok _ => Function.update seen m.key (some m.spec)
  | _, _ => seen

/-- A step of the users and of the other controllers. They edit, create and remove objects, but
they do not write Modules. -/
structure Edits (c c' : Cluster) : Prop where
  renews : Renews c c'
  modules : ∀ m : Module, m ∈ c'.tbl .module → m ∈ c.tbl .module
  env : c'.env = c.env

/-- The world of the reconciles of Modules. -/
def tracked : World Api Tracked where
  env t t' := Edits t.cluster t'.cluster ∧ t'.seen = t.seen
  answer t op r t' := (Serves t.cluster op r t'.cluster ∨ op.Failed r ∧ t'.cluster = t.cluster) ∧
    t'.seen = noted t.seen op r

/-- The store and the reconciles of Modules that are running. -/
abbrev Site := Pool Api Tracked (Except Error Result)

/-- The world of a reconcile of a Service: between two of its calls, reconciles of Modules start,
make calls and end, and others edit. -/
def around (sort : SliceSort) : World Api Site where
  env p p' := ∃ move,
    Pool.Step tracked (fun q => ∃ request, q = ReconcileModule.Reconcile sort request) p move p'
  answer p op r p' := tracked.answer p.state op r p'.state ∧ p'.programs = p.programs

/-- What happens in a step: something around the Service controller, or one of its reconciles,
with the calls up to `ManageExtras` and what they lead to. -/
inductive Label where
  | others
  | service (request : Key) (tr : List (Event Api Site)) (o : Outcome Synced)

inductive Step (upper : Go.Upper) (sort : SliceSort) : Site → Label → Site → Prop
  | others {p p' : Site} : (around sort).env p p' → Step upper sort p .others p'
  | reconcile {request : Key} {p p₁ p' : Site} {tr tr' : List (Event Api Site)} {synced : Synced}
      {o : Outcome (Except Error Result)} :
      Exec (around sort) (syncModule upper request) p tr (.done synced) p₁ →
      Exec (around sort) (finish synced) p₁ tr' o p' →
      Step upper sort p (.service request tr (.done synced)) p'
  /-- The process stopped before `ManageExtras`. -/
  | stopped {request : Key} {p p' : Site} {tr : List (Event Api Site)} {o : Outcome Synced} :
      Exec (around sort) (syncModule upper request) p tr o p' → (∀ synced, o ≠ .done synced) →
      Step upper sort p (.service request tr o) p'

/-- Every execution of `Reconcile` is a step. -/
theorem Step.of_exec {upper : Go.Upper} {sort : SliceSort} {request : Key} {p p' : Site}
    {tr : List (Event Api Site)} {o : Outcome (Except Error Result)}
    (h : Exec (around sort) (Reconcile upper request) p tr o p') :
    ∃ tr₁ o₁, tr₁ <+: tr ∧ Step upper sort p (.service request tr₁ o₁) p' := by
  rcases h.bind_cases with ⟨synced, p₁, tr₁, tr₂, rfl, h₁, h₂⟩ | ⟨msg, rfl, h₁⟩ | ⟨rfl, h₁⟩
  · exact ⟨tr₁, _, List.prefix_append .., .reconcile h₁ h₂⟩
  · exact ⟨tr, _, List.prefix_rfl, .stopped h₁ fun _ e => nomatch e⟩
  · exact ⟨tr, _, List.prefix_rfl, .stopped h₁ fun _ e => nomatch e⟩

/-! ## Steady reconciles and settled Modules -/

/-- The copy of a Module that the call read. -/
def moduleRead {σ : Type} : Event Api σ → Option Module
  | ⟨_, .get .module _, .ok found⟩ => some found
  | _ => none

/-- The copy of a Service that the call read. -/
def serviceRead {σ : Type} : Event Api σ → Option Service
  | ⟨_, .get .service _, .ok inst⟩ => some inst
  | _ => none

/-- The spec that the call sends for a Module. -/
def specSent {σ : Type} : Event Api σ → Option ModuleSpec
  | ⟨_, .update .module m, _⟩ => some m.spec
  | _ => none

/-- The error of a call that writes the spec of a Module. -/
def pushError {σ : Type} : Event Api σ → Option Error
  | ⟨_, .update .module _, .error e⟩ => some e
  | _ => none

/-- If the reconcile reads a completed Module and a cluster Service, and its update of the Module, if
it makes one, is accepted, then every copy of the Service that it reads has the spec of that Module. -/
def Steady {σ : Type} (upper : Go.Upper) (platform : String) (tr : List (Event Api σ)) : Prop :=
  ∀ found ∈ tr.filterMap moduleRead, found.status.phase = StatusPhaseCompleted →
    (∃ inst ∈ tr.filterMap serviceRead, appOf inst = kubernetesCluster) →
      tr.filterMap pushError = [] →
        ∀ inst ∈ tr.filterMap serviceRead, found.spec = renderSpec upper platform inst

/-- The stored Module has the spec of this version of the Service, and its phase `Completed` was
written by a reconcile that saw that spec. -/
def Completed (upper : Go.Upper) (platform : String) (t : Tracked) (service : Service) : Prop :=
  ∃ m : Module, t.cluster.find? .module (moduleKey service) = some m ∧
    m.spec = renderSpec upper platform service ∧ m.status.phase = StatusPhaseCompleted ∧
      t.seen (moduleKey service) = some m.spec

/-- The Module was completed for this version of the Service when the reconcile read it, and the
reconcile has written no other spec into it. -/
def Settled (upper : Go.Upper) (platform : String) (tr : List (Event Api Site))
    (service : Service) : Prop :=
  (∃ e ∈ tr, e.op = .get .module (moduleKey service) ∧
    Completed upper platform e.state.state service) ∧
  ∀ spec ∈ tr.filterMap specSent, spec = renderSpec upper platform service

/-- The step is not a reconcile that writes another spec into a completed Module. -/
def Label.Steady (upper : Go.Upper) (platform : String) : Label → Prop
  | .others => True
  | .service _ tr _ => ReconcileService.Steady upper platform tr

/-- If the step calls `ManageExtras`, then for a version of the Service whose Module is settled. -/
def Label.Settled (upper : Go.Upper) (platform : String) : Label → Prop
  | .others => True
  | .service _ tr o => ∀ service, o = .done (.extras service) →
      ReconcileService.Settled upper platform tr service

/-! ## The invariant -/

/-- The spec is that of a cluster Service. -/
def ClusterSpec (upper : Go.Upper) (spec : ModuleSpec) : Prop :=
  ∃ platform service, appOf service = kubernetesCluster ∧ spec = renderSpec upper platform service

/-- The reconcile that wrote the phase of a completed cluster Module saw its present spec. -/
structure Sound (upper : Go.Upper) (platform : String) (t : Tracked) : Prop where
  bounded : t.cluster.Bounded
  env : t.cluster.env "PLATFORM" = platform
  seen : ∀ m : Module, m ∈ t.cluster.tbl .module → m.status.phase = StatusPhaseCompleted →
    ClusterSpec upper m.spec → t.seen m.key = some m.spec

/-- The call writes no Module but the status of a copy that was read. -/
def StatusOnly (t : Tracked) (op : Request) : Prop :=
  op.writes = some .module → ∃ inst : Module, ∃ status, Known (k := .module) t.cluster inst ∧
    op = .updateStatus .module { inst with status := status }

/-- The program is a reconcile of a Module, or what is left of it. -/
def OfModule (sort : SliceSort) (t : Tracked) (q : Ctl (Except Error Result)) : Prop :=
  (∃ request, q = ReconcileModule.Reconcile sort request) ∨
    Obeys (S := Api) (Request.Returns fun _ _ => True) (StatusOnly t) q fun _ => True

/-- The runs of both controllers, from any store with the invariant. -/
def system (upper : Go.Upper) (sort : SliceSort) (platform : String) : Sys Site Label where
  init p := Sound upper platform p.state ∧ p.programs = []
  step := Step upper sort

section

variable {upper : Go.Upper} {platform : String} {sort : SliceSort} {t t' : Tracked}
  {op : Request} {r : op.Reply}

theorem noted_eq (h : op.writes ≠ some .module) (seen : Key → Option ModuleSpec) :
    noted seen op r = seen := by
  unfold noted
  split
  · exact absurd rfl h
  · rfl

theorem tracked_renews (h : tracked.answer t op r t') : Renews t.cluster t'.cluster := by
  rcases h.1 with h | ⟨-, h⟩
  · exact h.renews
  · rw [h]
    exact .refl _

theorem tracked_returns (h : tracked.answer t op r t') : op.Returns (fun _ _ => True) r :=
  have hflaky : (flaky fun _ _ => False).answer t.cluster op r t'.cluster := h.1
  flaky_returns hflaky

theorem tracked_env (h : tracked.answer t op r t') : t'.cluster.env = t.cluster.env := by
  rcases h.1 with h | ⟨-, h⟩
  · exact h.env_eq
  · rw [h]

/-- Steps that write no Module. -/
theorem Sound.frame (h : Sound upper platform t) (hr : Renews t.cluster t'.cluster)
    (hm : ∀ m : Module, m ∈ t'.cluster.tbl .module → m ∈ t.cluster.tbl .module)
    (henv : t'.cluster.env = t.cluster.env) (hs : t'.seen = t.seen) : Sound upper platform t' where
  bounded := hr.bounded h.bounded
  env := by rw [henv, h.env]
  seen m hmem hphase hspec := by rw [hs]; exact h.seen m (hm m hmem) hphase hspec

theorem Sound.call (h : Sound upper platform t) (hw : op.writes ≠ some .module)
    (ha : tracked.answer t op r t') : Sound upper platform t' := by
  have htbl : t'.cluster.tbl .module = t.cluster.tbl .module := by
    rcases ha.1 with h | ⟨-, h⟩
    · exact h.tbl_eq hw
    · rw [h]
  exact h.frame (tracked_renews ha) (fun m hm => htbl ▸ hm) (tracked_env ha)
    (ha.2.trans (noted_eq hw _))

/-- A Module that is written, with the specs seen. -/
theorem Sound.put (h : Sound upper platform t) {m : Module}
    (hv : m.metadata.resourceVersion = t.cluster.version + 1)
    (hc : t'.cluster = t.cluster.setTbl .module ((t.cluster.tbl .module).put m))
    (hother : ∀ key, key ≠ m.key → t'.seen key = t.seen key)
    (hm : m.status.phase = StatusPhaseCompleted → ClusterSpec upper m.spec →
      t'.seen m.key = some m.spec) : Sound upper platform t' where
  bounded := by rw [hc]; exact (Renews.put (k := .module) t.cluster hv).bounded h.bounded
  env := by rw [hc]; exact h.env
  seen x hx hphase hspec := by
    rw [hc, Cluster.setTbl_self] at hx
    rcases Table.mem_put.mp hx with rfl | ⟨hx, hkey⟩
    · exact hm hphase hspec
    · rw [hother _ hkey]
      exact h.seen x hx hphase hspec

/-- A call of a Module reconcile. -/
theorem Sound.statusOnly (h : Sound upper platform t) (hop : StatusOnly t op)
    (ha : tracked.answer t op r t') : Sound upper platform t' := by
  by_cases hw : op.writes = some .module
  · obtain ⟨inst, status, hknown, rfl⟩ := hop hw
    obtain ⟨hserve, hseen⟩ := ha
    have hcases := hserve.imp (fun hs => hs.updateStatus_known hknown rfl rfl) id
    rcases hcases with (⟨hc, e, rfl⟩ | ⟨-, rfl, hc⟩) | ⟨⟨e, rfl⟩, hc⟩
    · exact h.frame (hc ▸ .refl _) (fun m hm => hc ▸ hm) (by rw [hc]) hseen
    · refine h.put rfl hc (fun key hkey => ?_) fun _ _ => ?_
      · rw [hseen]
        exact Function.update_of_ne hkey ..
      · rw [hseen]
        exact Function.update_self ..
    · exact h.frame (hc ▸ .refl _) (fun m hm => hc ▸ hm) (by rw [hc]) hseen
  · exact h.call hw ha

theorem OfModule.renews {q : Ctl (Except Error Result)} (h : OfModule sort t q)
    (hr : Renews t.cluster t'.cluster) : OfModule sort t' q := by
  refine h.imp id fun hu => hu.mono (fun _ _ h => h) (fun op hop hw => ?_) fun _ h => h
  obtain ⟨inst, status, hknown, rfl⟩ := hop hw
  exact ⟨inst, status, hknown.renews hr, rfl⟩

/-- The calls of a Module reconcile after it has read the Module. -/
theorem statusOnly_of_mayCall {inst : Module} (hknown : Known (k := .module) t.cluster inst)
    (h : ReconcileModule.MayCall (fun _ _ => True) inst op) : StatusOnly t op := by
  intro hw
  unfold ReconcileModule.MayCall at h
  split at h
  case h_7 =>
    obtain ⟨status, rfl⟩ := h
    exact ⟨inst, status, hknown, rfl⟩
  case h_11 => exact h.elim
  all_goals exact nomatch hw

/-! ## Around a reconcile of a Service -/

/-- The invariant of the store and of the reconciles of Modules. -/
abbrev SoundSite (upper : Go.Upper) (platform : String) (sort : SliceSort) (p : Site) : Prop :=
  Pool.Holds (Sound upper platform) (OfModule sort) p

variable {p p' : Site} {α : Type} {tr : List (Event Api Site)}

/-- A Module reconcile that has just read its Module. -/
theorem ofModule_of_get {request : Key} {k : Except Error Module → Ctl (Except Error Result)}
    {r : Except Error Module} (hs : Sound upper platform t)
    (hk : .call (.get .module request) k = ReconcileModule.Reconcile sort request)
    (ha : tracked.answer t (.get .module request) r t') : OfModule sort t' (k r) := by
  obtain ⟨k', hk', herr, hok⟩ := ReconcileModule.Reconcile_get (fun _ _ => True) sort request
  rw [hk'] at hk
  cases hk
  cases r with
  | error e =>
    obtain ⟨res, he⟩ := herr e
    rw [he]
    exact .inr trivial
  | ok inst =>
    obtain ⟨hc, hf⟩ := (ha.1.resolve_right fun h => nomatch h.1).get_ok
    have hknown : Known (k := .module) t'.cluster inst := by
      rw [hc]
      exact known_of_find? hs.bounded (hf inst rfl)
    exact .inr ((hok inst).mono (fun _ _ h => h)
      (fun op hop => statusOnly_of_mayCall hknown hop) fun _ h => h)

theorem SoundSite.env (hp : SoundSite upper platform sort p) (h : (around sort).env p p') :
    SoundSite upper platform sort p' := by
  obtain ⟨move, hstep⟩ := h
  refine hstep.holds (fun s q _ hq => .inl hq) ?_ ?_ hp
  · intro t op k r t' hs hq ha
    have hothers : ∀ q, OfModule sort t q → OfModule sort t' q := fun q h =>
      h.renews (tracked_renews ha)
    rcases hq with ⟨request, hk⟩ | hu
    · obtain ⟨k', hk', -⟩ := ReconcileModule.Reconcile_get (fun _ _ => True) sort request
      cases hk.trans hk'
      exact ⟨hs.call (by simp [Request.writes]) ha, ofModule_of_get hs hk ha, hothers⟩
    · obtain ⟨hop, hk⟩ := hu
      have hrest : OfModule sort t (k r) := .inr (hk r (tracked_returns ha))
      exact ⟨hs.statusOnly hop ha, hrest.renews (tracked_renews ha), hothers⟩
  · rintro t t' hs ⟨hedits, hseen⟩
    exact ⟨hs.frame hedits.renews hedits.modules hedits.env hseen, fun q h =>
      h.renews hedits.renews⟩

theorem around_renews (h : (around sort).env p p') : Renews p.state.cluster p'.state.cluster := by
  obtain ⟨move, hstep⟩ := h
  cases hstep with
  | start | stop => exact .refl _
  | call ha => exact tracked_renews ha
  | other he => exact he.1.renews

/-- What the others leave, however often they act. -/
theorem SoundSite.envs (hp : SoundSite upper platform sort p)
    (h : Relation.ReflTransGen (around sort).env p p') :
    SoundSite upper platform sort p' ∧ Renews p.state.cluster p'.state.cluster := by
  induction h with
  | refl => exact ⟨hp, .refl _⟩
  | tail _ he ih => exact ⟨ih.1.env he, ih.2.trans (around_renews he)⟩

/-- A call of a Service reconcile leaves the reconciles of Modules alone. -/
theorem SoundSite.answer (hp : SoundSite upper platform sort p)
    (ha : (around sort).answer p op r p') (hs : Sound upper platform p'.state) :
    SoundSite upper platform sort p' := by
  refine ⟨hs, fun q hq => ?_⟩
  rw [ha.2] at hq
  exact (hp.2 q hq).renews (tracked_renews ha.1)

/-- The call writes no Module, or creates one. -/
def Quiet (op : Request) : Prop := op.writes = some .module → ∃ m : Module, op = .create .module m

theorem quiet_of_writes (h : op.writes ≠ some .module) : Quiet op := fun hw => absurd hw h

theorem SoundSite.quiet (hp : SoundSite upper platform sort p)
    (ha : (around sort).answer p op r p') (hop : Quiet op) : SoundSite upper platform sort p' := by
  refine hp.answer ha ?_
  by_cases hw : op.writes = some .module
  · obtain ⟨m, rfl⟩ := hop hw
    obtain ⟨⟨hserve, hseen⟩, -⟩ := ha
    have hseen' : p'.state.seen = p.state.seen := by rw [hseen]; rfl
    have hsame : p'.state.cluster = p.state.cluster → Sound upper platform p'.state := fun hc =>
      hp.1.frame (hc ▸ .refl _) (fun m hm => hc ▸ hm) (by rw [hc]) hseen'
    rcases hserve with hserve | ⟨-, hc⟩
    · rcases hserve.create_cases with ⟨hc, -⟩ | ⟨-, -, hc⟩
      · exact hsame hc
      · refine hp.1.put rfl hc (fun key _ => by rw [hseen']) fun hphase => ?_
        have hnew : "" ≠ StatusPhaseCompleted := by decide
        exact absurd hphase hnew
    · exact hsame hc
  · exact hp.1.call hw ha.1

/-- A program that writes no Module, or creates one. -/
theorem SoundSite.exec {q : Ctl α} {Q : α → Prop} {o : Outcome α}
    (hp : SoundSite upper platform sort p) (hu : Obeys (S := Api) (fun _ _ => True) Quiet q Q)
    (he : Exec (around sort) q p tr o p') :
    SoundSite upper platform sort p' ∧ ∀ a, o = .done a → Q a := by
  have hstable : Stable (around sort) (SoundSite upper platform sort) := fun _ _ h he => h.env he
  obtain ⟨h, -, hQ⟩ := hu.invariant hstable
    (fun s op r s' hs hop ha => ⟨trivial, SoundSite.quiet hs ha hop⟩) he hp
  exact ⟨h, hQ⟩

/-- A get that succeeds returns the stored object. -/
theorem SoundSite.get_ok {k : Kind} {key : Key} {o : k.Obj} (hp : SoundSite upper platform sort p)
    (ha : (around sort).answer p (.get k key) (.ok o) p') :
    p.state.cluster.find? k key = some o ∧ Known p'.state.cluster o := by
  obtain ⟨hc, hf⟩ := (ha.1.1.resolve_right fun h => nomatch h.1).get_ok
  rw [hc]
  exact ⟨hf o rfl, known_of_find? hp.1.bounded (hf o rfl)⟩

/-- What ends without a call of `ManageExtras`. -/
theorem SoundSite.ends {q : Ctl Synced} {o : Outcome Synced} {P : Service → Prop}
    (hp : SoundSite upper platform sort p)
    (hu : Obeys (S := Api) (fun _ _ => True) Quiet q fun synced =>
      ∀ service, synced ≠ .extras service)
    (he : Exec (around sort) q p tr o p') :
    SoundSite upper platform sort p' ∧ ∀ service, o = .done (.extras service) → P service := by
  obtain ⟨h, hQ⟩ := hp.exec hu he
  exact ⟨h, fun service e => (hQ _ e service rfl).elim⟩

theorem SoundSite.finished {res : Except Error Result} {o : Outcome Synced} {P : Service → Prop}
    (hp : SoundSite upper platform sort p)
    (he : Exec (around sort) (.ret (.finished res)) p tr o p') :
    SoundSite upper platform sort p' ∧ ∀ service, o = .done (.extras service) → P service :=
  hp.ends (q := .ret (.finished res)) nofun he

theorem syncStatus_quiet (inst : Service) (found : Module) :
    Uses Quiet (syncStatus inst found) :=
  (syncStatus_writes inst found).mono fun _ h => quiet_of_writes (h.ne (by decide))

/-- The copies that a call of `syncStatus` reads or sends are none of those that count. -/
theorem syncStatus_events {inst : Service} {found : Module} {o : Outcome Synced}
    (he : Exec (around sort) (syncStatus inst found) p tr o p') :
    tr.filterMap serviceRead = [] ∧ tr.filterMap specSent = [] := by
  have hu : Uses (fun op : Request => (∃ m, op = .updateStatus .service m) ∨ ∃ msg, op = .slack msg)
      (syncStatus inst found) := by
    unfold syncStatus
    split
    · rw [updateStatus_bind]
      refine ⟨.inl ⟨_, rfl⟩, fun r _ => ?_⟩
      cases r with
      | error e => trivial
      | ok inst => exact ⟨.inr ⟨_, rfl⟩, fun _ _ => trivial⟩
    · trivial
  have hnone : ∀ e ∈ tr, serviceRead e = none ∧ specSent e = none := by
    rintro ⟨s, op, r⟩ hm
    rcases hu.events he _ hm with ⟨m, h⟩ | ⟨msg, h⟩ <;> cases h <;> exact ⟨rfl, rfl⟩
  exact ⟨List.filterMap_eq_nil_iff.mpr fun e hm => (hnone e hm).1,
    List.filterMap_eq_nil_iff.mpr fun e hm => (hnone e hm).2⟩

theorem syncPhase_extras {inst service : Service} {found : Module}
    (h : syncPhase inst found = .extras service) :
    service = inst ∧ inst.status.phase = StatusPhaseCompleted ∧ appOf inst = kubernetesCluster := by
  unfold syncPhase at h
  split at h
  · cases h
  · split at h
    · rename_i hphase
      cases h
      exact ⟨rfl, hphase⟩
    · cases h

/-- The extras are managed for the copy of the Service that `syncStatus` was called with, if the
Module is completed. -/
theorem syncStatus_extras {inst service : Service} {found : Module}
    (hp : SoundSite upper platform sort p) (hinst : Known (k := .service) p.state.cluster inst)
    (he : Exec (around sort) (syncStatus inst found) p tr (.done (.extras service)) p') :
    Same inst service ∧ appOf service = kubernetesCluster ∧
      found.status.phase = StatusPhaseCompleted := by
  unfold syncStatus at he
  split at he
  · rw [updateStatus_bind] at he
    obtain ⟨p₁, r, p₂, tr₁, henv, ha, he₁, -⟩ := he.call_done
    have hinst₁ := hinst.renews (hp.envs henv).2
    cases r with
    | error e => exact nomatch he₁.ret_done.1
    | ok inst₁ =>
      obtain ⟨_, _, _, _, _, _, he₂, -⟩ := he₁.call_done
      obtain ⟨rfl, hphase, happ⟩ := syncPhase_extras he₂.ret_done.1.symm
      have hserve := ha.1.1.resolve_right fun h => nomatch h.1
      rcases hserve.updateStatus_known hinst₁ rfl rfl with ⟨-, e, h⟩ | ⟨-, h, -⟩
      · cases h
      · cases h
        exact ⟨⟨rfl, rfl, rfl, rfl⟩, happ, hphase⟩
  · rename_i hsame
    obtain ⟨rfl, hphase, happ⟩ := syncPhase_extras he.ret_done.1.symm
    exact ⟨⟨rfl, rfl, rfl, rfl⟩, happ, (not_not.mp hsame) ▸ hphase⟩

/-! ## Specs of cluster Services -/

section LastVariable

variable (upper platform)

/-- The last variable of a cluster spec is `CLUSTER_NAME` or `ETCD`. -/
theorem lastVar_cluster {service : Service} (h : appOf service = kubernetesCluster) :
    ∃ v, (renderSpec upper platform service).env.getLast? = some v ∧
      (v.name = "CLUSTER_NAME" ∨ v.name = "ETCD" ∧ v.value = "true") := by
  simp only [renderSpec, ownEnvVars, specificEnvVars, if_pos h]
  split
  · exact ⟨{ name := "ETCD", value := "true" }, by simp [roleEnvVars], .inr ⟨rfl, rfl⟩⟩
  · exact ⟨{ name := "CLUSTER_NAME", value := service.metadata.name }, by simp, .inl rfl⟩

theorem lastVar_other {service : Service} (h : appOf service ≠ kubernetesCluster) :
    ∃ v, (renderSpec upper platform service).env.getLast? = some v ∧
      ¬ (v.name = "CLUSTER_NAME" ∨ v.name = "ETCD" ∧ v.value = "true") := by
  simp only [renderSpec, ownEnvVars, specificEnvVars, if_neg h]
  split
  · exact ⟨{ name := "ETCD", value := "false" }, by simp [roleEnvVars], by decide⟩
  · exact ⟨{ name := "NAME", value := service.metadata.name }, by simp [commonEnvVars], by simp⟩

end LastVariable

theorem appOf_of_clusterSpec {service : Service}
    (h : ClusterSpec upper (renderSpec upper platform service)) :
    appOf service = kubernetesCluster := by
  obtain ⟨platform', service', happ, heq⟩ := h
  by_contra hne
  obtain ⟨v, hv, hlast⟩ := lastVar_cluster upper platform' happ
  obtain ⟨w, hw, hother⟩ := lastVar_other upper platform hne
  rw [heq, hv] at hw
  cases hw
  exact hother hlast

/-! ## A whole reconcile -/

/-- The push of a spec into the Module that was found. -/
theorem SoundSite.push {inst : Service} {found : Module} {r : Except Error Module}
    (hp : SoundSite upper platform sort p) (hfound : Known (k := .module) p.state.cluster found)
    (hsame : ∀ found', r = .ok found' → found.status.phase = StatusPhaseCompleted →
      appOf inst = kubernetesCluster → found.spec = renderSpec upper platform inst)
    (ha : (around sort).answer p
      (.update .module { found with spec := renderSpec upper platform inst }) r p') :
    SoundSite upper platform sort p' ∧
      ∀ found', r = .ok found' → found'.status.phase = found.status.phase := by
  obtain ⟨⟨hserve, hseen⟩, -⟩ := id ha
  have hseen' : p'.state.seen = p.state.seen := by rw [hseen]; rfl
  have hfail : p'.state.cluster = p.state.cluster → SoundSite upper platform sort p' := fun hc =>
    hp.answer ha (hp.1.frame (hc ▸ .refl _) (fun m hm => hc ▸ hm) (by rw [hc]) hseen')
  rcases hserve with hserve | ⟨⟨e, rfl⟩, hc⟩
  · rcases hserve.update_known hfound rfl rfl with ⟨hc, e, rfl⟩ | ⟨hf, rfl, hc⟩
    · exact ⟨hfail hc, nofun⟩
    · refine ⟨hp.answer ha (hp.1.put rfl hc (fun key _ => by rw [hseen']) ?_), ?_⟩
      · -- The phase was written for the spec found, which is the one that is pushed.
        intro hphase hspec
        have heq : found.spec = renderSpec upper platform inst :=
          hsame _ rfl hphase (appOf_of_clusterSpec hspec)
        rw [hseen']
        refine (hp.1.seen found (find?_mem hf) hphase (heq ▸ hspec)).trans (congrArg some heq)
      · rintro found' e
        cases e
        rfl
  · exact ⟨hfail hc, nofun⟩

/-- A program that writes Services only is not refused a spec. -/
theorem pushError_nil {q : Ctl α} {o : Outcome α} (hu : Uses (WritesOnly (· = .service)) q)
    (he : Exec (around sort) q p tr o p') : tr.filterMap pushError = [] := by
  refine List.filterMap_eq_nil_iff.mpr ?_
  rintro ⟨s, op, r⟩ hm
  have hw : op.writes ≠ some .module := (hu.events he _ hm).ne (by decide)
  unfold pushError
  split
  · rename_i heq
    cases heq
    exact (hw rfl).elim
  · rfl

/-- The report to the Service, with the spec that the Module has if it is completed. -/
theorem SoundSite.report {inst : Service} {found : Module} {spec : ModuleSpec}
    {o : Outcome Synced} (hp : SoundSite upper platform sort p)
    (hinst : Known (k := .service) p.state.cluster inst)
    (hspec : found.status.phase = StatusPhaseCompleted → appOf inst = kubernetesCluster →
      spec = renderSpec upper platform inst)
    (he : Exec (around sort) (syncStatus inst found) p tr o p') :
    SoundSite upper platform sort p' ∧ ∀ service, o = .done (.extras service) →
      Same inst service ∧ appOf service = kubernetesCluster ∧
        found.status.phase = StatusPhaseCompleted ∧ spec = renderSpec upper platform service := by
  refine ⟨(hp.exec (syncStatus_quiet inst found) he).1, ?_⟩
  rintro service rfl
  obtain ⟨hsame, happ, hcompleted⟩ := syncStatus_extras hp hinst he
  have heq := hspec hcompleted (hsame.appOf_eq.symm.trans happ)
  exact ⟨hsame, happ, hcompleted, heq.trans hsame.renderSpec_eq.symm⟩

/-- From the Module on. The copies of the Service are the one read before and those of the trace. -/
theorem syncFound_exec {request : Key} {inst : Service} {found : Module} {o : Outcome Synced}
    (hp : SoundSite upper platform sort p) (hinst : Known (k := .service) p.state.cluster inst)
    (hfound : Known (k := .module) p.state.cluster found) (hreq : inst.key = request)
    (hsteady : found.status.phase = StatusPhaseCompleted →
      (∃ s ∈ inst :: tr.filterMap serviceRead, appOf s = kubernetesCluster) →
        tr.filterMap pushError = [] →
        ∀ s ∈ inst :: tr.filterMap serviceRead, found.spec = renderSpec upper platform s)
    (he : Exec (around sort)
      (syncFound request inst found (renderModule upper platform inst)) p tr o p') :
    SoundSite upper platform sort p' ∧ ∀ service, o = .done (.extras service) →
      service.key = request ∧ appOf service = kubernetesCluster ∧
        found.status.phase = StatusPhaseCompleted ∧
        found.spec = renderSpec upper platform service ∧
        ∀ spec ∈ tr.filterMap specSent, spec = renderSpec upper platform service := by
  unfold syncFound at he
  split at he
  · rw [update_bind] at he
    rcases he.call_cases with ⟨rfl, rfl, henv⟩ | ⟨p₁, r, p₂, tr₁, henv, ha, he₁, rfl⟩
    · exact ⟨(hp.envs henv).1, nofun⟩
    obtain ⟨hp₁, hr₁⟩ := hp.envs henv
    simp only [List.filterMap_cons, specSent, List.forall_mem_cons]
    have hfound₁ := hfound.renews hr₁
    cases r with
    | error e =>
      exact (hp₁.push hfound₁ (by rintro _ ⟨⟩) ha).1.finished he₁
    | ok found' =>
      dsimp only at he₁
      have haccepted : tr₁.filterMap pushError = [] := by
        refine pushError_nil ?_ he₁
        rw [get_bind]
        refine ⟨.of_none rfl, fun r _ => ?_⟩
        cases r with
        | error e => trivial
        | ok inst => exact syncStatus_writes inst found'
      simp only [List.filterMap_cons, serviceRead, pushError] at hsteady
      obtain ⟨hp₂, hphase⟩ := hp₁.push hfound₁
        (fun _ _ h₁ h₂ => hsteady h₁ ⟨inst, List.mem_cons_self, h₂⟩ haccepted inst
          List.mem_cons_self) ha
      rw [get_bind] at he₁
      rcases he₁.call_cases with ⟨rfl, rfl, henv⟩ | ⟨p₃, r, p₄, tr₂, henv, ha', he₂, rfl⟩
      · exact ⟨(hp₂.envs henv).1, nofun⟩
      have hp₃ := (hp₂.envs henv).1
      have hp₄ := hp₃.quiet ha' (quiet_of_writes nofun)
      cases r with
      | error e =>
        exact hp₄.finished he₂
      | ok inst' =>
        simp only [List.filterMap_cons, serviceRead] at hsteady
        simp only [List.filterMap_cons, specSent]
        obtain ⟨hfind, hinst'⟩ := hp₃.get_ok ha'
        have hphase' := hphase found' rfl
        have hall := fun h₁ h₂ => hsteady (hphase'.symm.trans h₁) ⟨inst', by simp, h₂⟩ haccepted
        obtain ⟨h, hextras⟩ := hp₄.report hinst' (fun h₁ h₂ => hall h₁ h₂ inst' (by simp)) he₂
        refine ⟨h, fun service e => ?_⟩
        obtain ⟨hsame, happ, hcompleted, hspec⟩ := hextras service e
        refine ⟨hsame.key_eq.trans (find?_key hfind), happ, hphase'.symm.trans hcompleted, hspec,
          ?_, ?_⟩
        · have hpushed := hall hcompleted (hsame.appOf_eq.symm.trans happ) inst List.mem_cons_self
          exact hpushed.symm.trans hspec
        · rw [(syncStatus_events he₂).2]
          simp
  · have haccepted := pushError_nil (syncStatus_writes inst found) he
    obtain ⟨h, hextras⟩ := hp.report hinst (fun h₁ h₂ =>
      hsteady h₁ ⟨inst, List.mem_cons_self, h₂⟩ haccepted inst List.mem_cons_self) he
    refine ⟨h, fun service e => ?_⟩
    obtain ⟨hsame, happ, hcompleted, hspec⟩ := hextras service e
    refine ⟨hsame.key_eq.trans hreq, happ, hcompleted, hspec, ?_⟩
    rw [(syncStatus_events he).2]
    simp

/-- A completed Module with the spec of the Service was completed for it. -/
theorem Sound.completed {service : Service} {found : Module} (h : Sound upper platform t)
    (hfind : t.cluster.find? .module (moduleKey service) = some found)
    (happ : appOf service = kubernetesCluster) (hphase : found.status.phase = StatusPhaseCompleted)
    (hspec : found.spec = renderSpec upper platform service) :
    Completed upper platform t service := by
  refine ⟨found, hfind, hspec, hphase, ?_⟩
  rw [← find?_key hfind]
  exact h.seen found (find?_mem hfind) hphase ⟨platform, service, happ, hspec⟩

/-- A reconcile up to the extras: a steady one keeps the invariant, and it manages the extras for a
settled version only. -/
theorem syncModule_exec {request : Key} {o : Outcome Synced}
    (hp : SoundSite upper platform sort p) (hsteady : Steady upper platform tr)
    (he : Exec (around sort) (syncModule upper request) p tr o p') :
    SoundSite upper platform sort p' ∧
      ∀ service, o = .done (.extras service) → Settled upper platform tr service := by
  unfold syncModule at he
  rw [get_bind] at he
  rcases he.call_cases with ⟨rfl, rfl, henv⟩ | ⟨p₁, r, p₂, tr₁, henv, ha, he₁, rfl⟩
  · exact ⟨(hp.envs henv).1, nofun⟩
  have hp₁ := (hp.envs henv).1
  have hp₂ := hp₁.quiet ha (quiet_of_writes nofun)
  cases r with
  | error e =>
    dsimp only at he₁
    split at he₁ <;> exact hp₂.finished he₁
  | ok inst =>
    obtain ⟨hfinst, hinst⟩ := hp₁.get_ok ha
    dsimp only at he₁
    rw [getenv_bind] at he₁
    rcases he₁.call_cases with ⟨rfl, rfl, henv⟩ | ⟨p₃, value, p₄, tr₂, henv, ha₂, he₂, rfl⟩
    · exact ⟨(hp₂.envs henv).1, nofun⟩
    obtain ⟨hp₃, hr₃⟩ := hp₂.envs henv
    have hp₄ := hp₃.quiet ha₂ (quiet_of_writes nofun)
    have hplatform : value = platform := by
      have hserve : serve p₃.state.cluster (.getenv "PLATFORM") = (value, p₄.state.cluster) :=
        ha₂.1.1.resolve_right fun h => h.1
      exact (Prod.mk.inj hserve).1.symm.trans hp₃.1.env
    subst hplatform
    rw [get_bind] at he₂
    rcases he₂.call_cases with ⟨rfl, rfl, henv⟩ | ⟨p₅, r, p₆, tr₃, henv, ha₃, he₃, rfl⟩
    · exact ⟨(hp₄.envs henv).1, nofun⟩
    obtain ⟨hp₅, hr₅⟩ := hp₄.envs henv
    have hp₆ := hp₅.quiet ha₃ (quiet_of_writes nofun)
    cases r with
    | error e =>
      -- The Module is created, or the error is returned.
      refine hp₆.ends ?_ he₃
      dsimp only
      split
      · rw [create_bind]
        exact ⟨fun _ => ⟨_, rfl⟩, fun r _ => by cases r <;> nofun⟩
      · nofun
    | ok found =>
      obtain ⟨hf, hfound⟩ := hp₅.get_ok ha₃
      have hreq : inst.key = request := find?_key hfinst
      have hknown := ((hinst.renews hr₃).renews (tracked_renews ha₂.1)).renews hr₅
      simp only [Steady, List.filterMap_cons, moduleRead, serviceRead, pushError] at hsteady
      obtain ⟨h, hextras⟩ := syncFound_exec hp₆ (hknown.renews (tracked_renews ha₃.1)) hfound hreq
        (hsteady found List.mem_cons_self) he₃
      refine ⟨h, fun service e => ?_⟩
      obtain ⟨hkey, happ, hphase, hspec, hsent⟩ := hextras service e
      have hmodule : moduleKey inst = moduleKey service := by
        obtain ⟨hns, hname⟩ := Key.mk.inj (hreq.trans hkey.symm)
        rw [moduleKey, moduleKey, hns, hname]
      have hfind : p₅.state.cluster.find? .module (moduleKey service) = some found :=
        hmodule ▸ hf
      refine ⟨⟨_, List.mem_cons_of_mem _ (List.mem_cons_of_mem _ List.mem_cons_self),
        congrArg (Request.get .module) hmodule, hp₅.1.completed hfind happ hphase hspec⟩, ?_⟩
      simpa only [List.filterMap_cons, specSent] using hsent

/-- In a run whose reconciles of Services are all steady, the extras are managed only for a version
of the Service whose spec the Module had and the reconcile saw that wrote the phase. -/
theorem extras_settled {ts : List (Trans Site Label)} (h : Run (system upper sort platform) ts p)
    (hsteady : ∀ t ∈ ts, t.lbl.Steady upper platform) :
    ∀ t ∈ ts, t.lbl.Settled upper platform := by
  have hinit : ∀ p, (system upper sort platform).init p → SoundSite upper platform sort p :=
    fun p hp => ⟨hp.1, by rw [hp.2]; nofun⟩
  have hstep : ∀ t : Trans Site Label, Step upper sort t.pre t.lbl t.post →
      SoundSite upper platform sort t.pre → t.lbl.Steady upper platform →
        SoundSite upper platform sort t.post ∧ t.lbl.Settled upper platform := by
    rintro ⟨p, l, p'⟩ hst hp hc
    dsimp only at hst hp hc ⊢
    cases hst with
    | others henv => exact ⟨hp.env henv, trivial⟩
    | @reconcile _ _ _ _ _ _ synced _ hsync hfinish =>
      obtain ⟨hp₁, hsettled⟩ := syncModule_exec hp hc hsync
      have hquiet : Uses Quiet (finish synced) := (finish_writes synced).mono fun op hw =>
        quiet_of_writes (hw.ne fun ⟨a, e⟩ => nomatch e)
      exact ⟨(hp₁.exec hquiet hfinish).1, hsettled⟩
    | stopped hsync => exact syncModule_exec hp hc hsync
  obtain ⟨-, hts⟩ := h.invariant hinit (fun t hst hp hc => (hstep t hst hp hc).1) hsteady
  exact fun t ht => (hstep t (hts t ht).1 (hts t ht).2.1 (hsteady t ht)).2

end

/-! ### A cluster that is scaled to zero -/

/-- A completed cluster Service with a Backup. -/
def prodService (replicas : Int) (version : Nat) : Service where
  metadata := { name := "prod", ns := "default", resourceVersion := version,
                labels := Finmap.insert "app" kubernetesCluster ∅ }
  spec := { replicas := replicas, flavor := "m1", version := "1",
            extra := [{ name := "backup", version := "2", parameters := some ∅ }] }
  status := { phase := StatusPhaseCompleted }

/-- Its Module of three replicas. -/
def prodModule : Module where
  metadata := { (renderModule Go.asciiUpper "" (prodService 3 1)).metadata with
                resourceVersion := 2 }
  spec := renderSpec Go.asciiUpper "" (prodService 3 1)
  status := { phase := StatusPhaseCompleted }

/-- A store with the two. -/
def prodStore : Cluster :=
  (Cluster.empty.setTbl .service (Table.empty.put (prodService 3 1))).setTbl .module
    (Table.empty.put prodModule)

/-- The Module reconcile saw the spec. -/
def prodSite : Site where
  state := { cluster := prodStore, seen := fun _ => some prodModule.spec }
  programs := []

/-- The user has scaled the Service to zero. -/
def editedSite : Site where
  state := { prodSite.state with
    cluster := prodStore.setTbl .service ((prodStore.tbl .service).put (prodService 0 3)) }
  programs := []

/-- Nobody acts during the reconcile, and nothing fails. -/
def serveSite (p : Site) (op : Request) : op.Reply × Site :=
  let (r, cluster) := serve p.state.cluster op
  (r, { p with state := { cluster := cluster, seen := noted p.state.seen op r } })

def syncRun (p : Site) : Ran Api Site Synced :=
  run serveSite (syncModule Go.asciiUpper ⟨"default", "prod"⟩) p

theorem sound_prodSite : Sound Go.asciiUpper "" prodSite.state where
  bounded := by
    have hservice := (Renews.put (k := .service) (o := prodService 3 1) .empty rfl).bounded
      bounded_empty
    exact (Renews.put (k := .module) (o := prodModule) _ rfl).bounded hservice
  env := rfl
  seen m hm _ _ := by
    have hm : m ∈ prodStore.tbl .module := hm
    rw [prodStore, Cluster.setTbl_self] at hm
    rcases Table.mem_put.mp hm with rfl | ⟨hm, -⟩
    · rfl
    · exact (Table.not_mem_empty hm).elim

theorem step_syncRun {p : Site} {synced : Synced} (h : (syncRun p).outcome = .done synced) :
    Step Go.asciiUpper insertionSort p
      (.service ⟨"default", "prod"⟩ (syncRun p).trace (.done synced))
      (run serveSite (finish synced) (syncRun p).final).final := by
  have hserve : ∀ p op, (around insertionSort).answer p op (serveSite p op).1 (serveSite p op).2 :=
    fun p op => ⟨⟨.inl (serves_serve _ op), rfl⟩, rfl⟩
  exact .reconcile (h ▸ Exec.of_run hserve _ _) (Exec.of_run hserve _ _)

/-- A reconcile of a Service that nobody has edited manages its extras. -/
theorem extras_settled_prod :
    Settled Go.asciiUpper "" (syncRun prodSite).trace (prodService 3 1) := by
  have hdone : (syncRun prodSite).outcome = .done (.extras (prodService 3 1)) := rfl
  have hrun := (Run.nil (S := system Go.asciiUpper insertionSort "")
    ⟨sound_prodSite, rfl⟩).snoc (step_syncRun hdone)
  refine extras_settled hrun (fun t ht => ?_) _ (List.mem_singleton.mpr rfl) _ rfl
  cases List.mem_singleton.mp ht
  show Steady Go.asciiUpper "" (syncRun prodSite).trace
  unfold Steady
  decide

/-- The replicas of the Module stored when the call reads it. -/
def replicasRead : Event Api Site → Option Int
  | ⟨p, .get .module key, _⟩ => (p.state.cluster.find? .module key).map fun m => m.spec.replicas
  | _ => none

/-- The first reconcile after the edit manages the extras for no replicas, though the Module was
completed with three. -/
theorem scaled_down_on_old_phase :
    ¬ ∀ (upper : Go.Upper) (sort : SliceSort) (platform : String) (ts : List (Trans Site Label))
      (p : Site), Run (system upper sort platform) ts p →
        ∀ t ∈ ts, t.lbl.Settled upper platform := by
  intro h
  have hedit : Pool.Step tracked
      (fun q => ∃ request, q = ReconcileModule.Reconcile insertionSort request)
      prodSite .other editedSite :=
    .other ⟨⟨.put (k := .service) _ rfl, fun m hm => hm, rfl⟩, rfl⟩
  have hdone : (syncRun editedSite).outcome = .done (.extras (prodService 0 3)) := rfl
  have hrun := ((Run.nil (S := system Go.asciiUpper insertionSort "")
    ⟨sound_prodSite, rfl⟩).snoc (.others ⟨_, hedit⟩)).snoc (step_syncRun hdone)
  have hsettled : Settled Go.asciiUpper "" (syncRun editedSite).trace (prodService 0 3) :=
    h _ _ _ _ _ hrun _ (List.mem_append_right _ (List.mem_singleton.mpr rfl)) _ rfl
  have hread : (syncRun editedSite).trace.filterMap replicasRead = [3] := by decide
  obtain ⟨⟨⟨p, op, r⟩, he, rfl, m, hm, hspec, -⟩, -⟩ := hsettled
  have hzero : (0 : Int) ∈ (syncRun editedSite).trace.filterMap replicasRead := by
    refine List.mem_filterMap.mpr ⟨_, he, ?_⟩
    show (p.state.cluster.find? .module (moduleKey (prodService 0 3))).map
      (fun m => m.spec.replicas) = some 0
    rw [hm, Option.map_some, hspec]
    rfl
  rw [hread] at hzero
  exact absurd hzero (by decide)

end ReconcileService

end Automium
