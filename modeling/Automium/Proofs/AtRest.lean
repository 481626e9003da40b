import Automium.Proofs.KeyLoops
import Automium.Runtime.Watches

/-!
# Controllers for which nothing is left to do

A controller whose requests come from the objects that it reconciles and from those that they own
(`ownerController`) is looked at when it rests: everything it reads was delivered, and the request
is neither queued nor delayed nor reconciled. `owner_at_rest`: then its last reconcile may have run
against the objects as they are stored, and it did not ask for another.

In such a run a write of an object that is stored fails, because the event of a write that succeeds
would add the request again (`may_update`, `may_updateStatus`).

`node_at_rest`: the Node controller rests only for Nodes that are not stored.
-/

namespace Automium

open Effect Data

variable {W : Type} [DecidableEq W]

/-! ## Events -/

section Owner

variable {first second : Kind} {secondKey : Key → Key} {Rec : Key → Ctl (Except Error Result)}
  {req : Key} {s : ControllerState Api Cached W}
  {ts : List (Trans (ControllerState Api Cached W) (Controller.Move (Kind × Key)))}

/-- The second object is owned by the first, as far as the controller knows it. -/
def SeenOwned (first second : Kind) (secondKey : Key → Key) (req : Key)
    (s : ControllerState Api Cached W) : Prop :=
  ∀ o, s.delivered (second, secondKey req) = some o →
    req ∈ EnqueueRequestForOwner.getOwnerReconcileRequest first.kindName o.1.metadata

theorem mem_eventMetas {i : Kind × Key} {old new : Cached i} {o : {o : i.1.Obj // o.key = i.2}}
    (h : old = some o ∨ new = some o) :
    o.1.metadata ∈ eventMetas old.metadata new.metadata := by
  rcases h with rfl | rfl <;> simp [eventMetas, Cached.metadata]

/-- An event of the first object adds its key. -/
theorem mem_requests_first {old new : Cached (first, req)} {o : {o : first.Obj // o.key = req}}
    (h : old = some o ∨ new = some o) :
    req ∈ (ownerController first second secondKey Rec).requests (first, req) old new := by
  refine List.mem_append_left _ ?_
  rw [if_pos rfl]
  exact List.mem_map.mpr ⟨_, mem_eventMetas h, o.2⟩

/-- An event of the second object adds the key of its owner. -/
theorem mem_requests_second {key : Key} {old new : Cached (second, key)}
    {o : {o : second.Obj // o.key = key}} (h : old = some o ∨ new = some o)
    (ho : req ∈ EnqueueRequestForOwner.getOwnerReconcileRequest first.kindName o.1.metadata) :
    req ∈ (ownerController first second secondKey Rec).requests (second, key) old new := by
  refine List.mem_append_right _ ?_
  rw [if_pos rfl]
  exact List.mem_flatMap.mpr ⟨_, mem_eventMetas h, ho⟩

theorem loud_first (o : {o : first.Obj // o.key = req}) :
    ((ownerController first second secondKey Rec).loop req).Loud (first, req) (some o) :=
  fun _ => decide_eq_true (mem_requests_first (.inl rfl))

theorem loud_second {o : {o : second.Obj // o.key = secondKey req}}
    (ho : req ∈ EnqueueRequestForOwner.getOwnerReconcileRequest first.kindName o.1.metadata) :
    ((ownerController first second secondKey Rec).loop req).Loud (second, secondKey req) (some o) :=
  fun _ => decide_eq_true (mem_requests_second (.inl rfl) ho)

/-- If the second object is owned whenever it is delivered, no change is dropped. -/
theorem heeds_of_owned (h : Run (ownerController first second secondKey Rec).sys ts s)
    (howned : ∀ t ∈ ts, SeenOwned first second secondKey req t.post) :
    SeenOwned first second secondKey req s ∧
      ∀ t ∈ ts, (ownerController first second secondKey Rec).Heeds req t := by
  have hinit : ∀ s : ControllerState Api Cached W,
      (ownerController first second secondKey Rec).sys.init s →
      SeenOwned first second secondKey req s := by
    rintro s ⟨pending, rfl⟩
    exact nofun
  obtain ⟨hs, hts⟩ := h.invariant hinit (fun _ _ _ hpost => hpost) howned
  refine ⟨hs, fun t ht i _ hi hnot => ?_⟩
  obtain ⟨-, hpre, hpost⟩ := hts t ht
  rcases hi with rfl | rfl
  · cases hold : t.pre.delivered (first, req) with
    | some o => exact absurd (mem_requests_first (.inl hold)) hnot
    | none =>
      cases hnew : t.post.delivered (first, req) with
      | some o => exact absurd (mem_requests_first (.inr hnew)) hnot
      | none => rfl
  · cases hold : t.pre.delivered (second, secondKey req) with
    | some o => exact absurd (mem_requests_second (.inl hold) (hpre o hold)) hnot
    | none =>
      cases hnew : t.post.delivered (second, secondKey req) with
      | some o => exact absurd (mem_requests_second (.inr hnew) (hpost o hnew)) hnot
      | none => rfl

/-- The rule for an object that is stored (module doc). -/
theorem owner_at_rest (h : Run (ownerController first second secondKey Rec).sys ts s)
    (howned : ∀ t ∈ ts, SeenOwned first second secondKey req t.post)
    (hrest : (ownerController first second secondKey Rec).Rests req s)
    {o : {o : first.Obj // o.key = req}} (ho : Controller.stored s (first, req) = some o) :
    (∀ o, Controller.stored s (second, secondKey req) = some o →
      req ∈ EnqueueRequestForOwner.getOwnerReconcileRequest first.kindName o.1.metadata) ∧
    ∃ res, ((ownerController first second secondKey Rec).loop req).MayReturn (Controller.stored s)
      (Rec req) res ∧ addsAgain res = false := by
  obtain ⟨hs, hheeds⟩ := heeds_of_owned h howned
  have hstored : Controller.stored s (second, secondKey req) =
      s.delivered (second, secondKey req) := by
    rw [Controller.stored, hrest.delivered _ (.inr rfl)]
    rfl
  refine ⟨fun o ho => hs o (hstored ▸ ho), ?_⟩
  rcases Controller.at_rest h hheeds hrest with habsent | hreturns
  · have hnone := habsent (first, req) (.inl rfl)
    rw [ho] at hnone
    cases hnone
  · exact hreturns

end Owner

/-! ## Calls against what is stored -/

section Calls

variable {L : Loop Api Cached (Except Error Result)} {v : (i : Kind × Key) → Cached i} {β : Type}
  {x : β} {k : Kind} {o : k.Obj}

/-- A get of an object that is stored returns it, or fails. -/
theorem may_get (hL : L.answer = Answers L.watched) {key : Key} {f : Except Error k.Obj → Ctl β}
    (hi : L.watched (k, key)) {o : {o : k.Obj // o.key = key}} (ho : v (k, key) = some o)
    (h : L.MayReturn v (.call (.get k key) f) x) :
    L.MayReturn v (f (.ok o.1)) x ∨
      ∃ e : Error, e.isNotFound = false ∧ L.MayReturn v (f (.error e)) x := by
  obtain ⟨r, ⟨stored, a, ha, -⟩, hk⟩ := h.call
  rw [hL] at ha
  have hr := ha.2 hi
  rw [ho] at hr
  rcases hr with rfl | ⟨e, he, rfl⟩
  · exact .inl hk
  · exact .inr ⟨e, he, hk⟩

/-- A get of an object that is not stored fails. -/
theorem may_get_none (hL : L.answer = Answers L.watched) {key : Key}
    {f : Except Error k.Obj → Ctl β} (hi : L.watched (k, key)) (ho : v (k, key) = none)
    (h : L.MayReturn v (.call (.get k key) f) x) : ∃ e, L.MayReturn v (f (.error e)) x := by
  obtain ⟨r, ⟨stored, a, ha, -⟩, hk⟩ := h.call
  rw [hL] at ha
  have hr := ha.2 hi
  rw [ho] at hr
  obtain ⟨e, rfl⟩ := hr
  exact ⟨e, hk⟩

/-- An update that would add the request again fails. -/
theorem may_update (hL : L.answer = Answers L.watched) {f : Except Error k.Obj → Ctl β}
    (hi : L.watched (k, o.key)) (hloud : L.Loud (k, o.key) (v (k, o.key)))
    (h : L.MayReturn v (.call (.update k o) f) x) : ∃ e, L.MayReturn v (f (.error e)) x := by
  obtain ⟨r, ⟨stored, a, ha, hquiet⟩, hk⟩ := h.call
  rw [hL] at ha
  rcases ha with ⟨-, e, rfl⟩ | ⟨old, -, -, n, rfl, -⟩
  · exact ⟨e, hk⟩
  · exact absurd hloud (hquiet _ _ rfl hi)

/-- The same for the status. -/
theorem may_updateStatus (hL : L.answer = Answers L.watched) {f : Except Error k.Obj → Ctl β}
    (hi : L.watched (k, o.key)) (hloud : L.Loud (k, o.key) (v (k, o.key)))
    (h : L.MayReturn v (.call (.updateStatus k o) f) x) :
    ∃ e, L.MayReturn v (f (.error e)) x := by
  obtain ⟨r, ⟨stored, a, ha, hquiet⟩, hk⟩ := h.call
  rw [hL] at ha
  rcases ha with ⟨-, e, rfl⟩ | ⟨old, -, -, n, rfl, -⟩
  · exact ⟨e, hk⟩
  · exact absurd hloud (hquiet _ _ rfl hi)

end Calls

/-! ## Nodes -/

namespace ReconcileNode

variable {inst : Node} {request : Key}

/-- Each way to end asks for another reconcile. -/
def Again (p : NodeCtl (Except Error Result)) : Prop := Gives p fun res => addsAgain res = true

theorem saveStatus_again (status : LocalStatus) :
    Again (saveStatus inst status request).inl := by
  refine Obeys.inl (Gives.of_bind _ fun r => ?_)
  cases r <;> rfl

theorem updateOrCreate_again (inst : LocalNode) : Again (updateOrCreate inst request).inl := by
  refine Obeys.inl ?_
  unfold updateOrCreate
  rw [get_bind]
  refine ⟨trivial, fun _ _ => Gives.of_bind _ fun r => ?_⟩
  cases r with
  | ok => rfl
  | error e =>
    refine ⟨trivial, fun r _ => ?_⟩
    cases r <;> rfl

theorem recordMachine_again (nodeInfo : CatalogNode) :
    Again (recordMachine inst nodeInfo request) := by
  unfold recordMachine
  rw [healthNode_bind]
  refine ⟨trivial, fun r _ => ?_⟩
  cases r with
  | error e => rfl
  | ok nodeHC =>
    dsimp only
    rw [catalogNode_bind]
    refine ⟨trivial, fun r _ => ?_⟩
    dsimp only
    split
    · trivial
    · trivial
    · exact updateOrCreate_again _

theorem askConsul_again : Again (askConsul inst request) := by
  unfold askConsul
  rw [getenv_inl_bind]
  refine ⟨trivial, fun value _ => ?_⟩
  dsimp only
  rw [newClient_bind]
  refine ⟨trivial, fun r _ => ?_⟩
  cases r with
  | error e => exact saveStatus_again _
  | ok =>
    dsimp only
    rw [catalogNode_bind]
    refine ⟨trivial, fun r _ => ?_⟩
    dsimp only
    split
    · rfl
    · exact saveStatus_again _
    · exact recordMachine_again _

/-- The part of `Reconcile` for a Node that was found. -/
theorem found_again (inst : Node) (request : Key) :
    Again (if deletable inst then do
      match ← (delete .node inst.key).inl with
      | .error e => return .error e
      | .ok _ => return .ok refreshReconcilier
    else askConsul inst request) := by
  split
  · refine ⟨trivial, fun r _ => ?_⟩
    cases r <;> rfl
  · exact askConsul_again

variable {s : ControllerState NodeApi Cached W} {req : Key}
  {ts : List (Trans (ControllerState NodeApi Cached W) (Controller.Move (Kind × Key)))}

omit [DecidableEq W] in
/-- No event of the Node is dropped. -/
theorem heeds (t : Trans (ControllerState NodeApi Cached W) (Controller.Move (Kind × Key))) :
    controller.Heeds req t := by
  intro i _ hi hnot
  obtain rfl : i = (.node, req) := hi
  have hmem : ∀ o : {o : Node // o.key = req}, t.pre.delivered (.node, req) = some o ∨
      t.post.delivered (.node, req) = some o → False := by
    intro o ho
    have hrequests : controller.requests (.node, req) = fun old new =>
        EnqueueRequestForObject.requests old.metadata new.metadata := by
      funext old new
      simp [controller]
    rw [hrequests] at hnot
    exact hnot (List.mem_map.mpr ⟨_, mem_eventMetas ho, o.2⟩)
  cases hold : t.pre.delivered (.node, req) with
  | some o => exact (hmem o (.inl hold)).elim
  | none =>
    cases hnew : t.post.delivered (.node, req) with
    | some o => exact (hmem o (.inr hnew)).elim
    | none => rfl

/-- The Node controller never rests for a Node that is stored (module doc). -/
theorem node_at_rest (h : Run controller.sys ts s) (hrest : controller.Rests req s) :
    Controller.stored s (.node, req) = none := by
  cases hnode : Controller.stored s (.node, req) with
  | none => rfl
  | some n =>
    exfalso
    rcases Controller.at_rest h (fun t _ => heeds t) hrest with habsent | ⟨res, hret, hagain⟩
    · have hnone := habsent (.node, req) rfl
      rw [hnode] at hnone
      cases hnone
    · obtain ⟨r, ⟨stored, a, ha, -⟩, hk⟩ := hret.call
      have hr := ha.2 rfl
      rw [hnode] at hr
      change addsAgain res = false at hagain
      rcases hr with rfl | ⟨e, he, rfl⟩
      · have hres := hk.of_gives (found_again n.1 req)
        rw [hagain] at hres
        cases hres
      · change (controller.loop req).MayReturn _ (if e.isNotFound = true then Prog.ret (.ok {})
          else Prog.ret (.error e)) res at hk
        rw [he] at hk
        rw [hk.ret] at hagain
        cases hagain

/-! ### A Node that is removed -/

/-- A Node that was created and removed, of which the informer knows nothing yet. -/
def removedNode : Node where
  metadata := { name := "web-node-0", ns := "default" }
  spec := { hostname := "web-0" }
  status := {}

abbrev createdNode : Cached (.node, removedNode.key) := some ⟨removedNode, rfl⟩

def unlistedNode : ControllerState NodeApi Cached Unit where
  delivered _ := none
  pending := Function.update (fun _ => []) (.node, removedNode.key) [createdNode, none]

/-- Its removal is delivered before it is reconciled. -/
theorem removed_run : ∃ ts s, Run (controller.sys (W := Unit)) ts s ∧
    (∃ t ∈ ts, t.post.delivered (.node, removedNode.key) = createdNode) ∧
    controller.Rests removedNode.key s := by
  have h₀ : Run controller.sys [] unlistedNode := .nil ⟨_, rfl⟩
  have h₁ := h₀.snoc (.deliver (show _ = [] ++ createdNode :: [none] from rfl))
  have h₂ := h₁.snoc (.deliver (i := (.node, removedNode.key)) (show _ = [] ++ none :: [] from rfl))
  have h₃ := h₂.snoc (.get (w := ()) rfl rfl)
  have h₄ := h₃.snoc (.call (w := ())
    (r := (.error (.newNotFound .node "web-node-0") : Except Error Node)) rfl
    ⟨rfl, fun _ => ⟨_, rfl⟩⟩)
  have h₅ := h₄.snoc (.finish (w := ()) 0 rfl)
  refine ⟨_, _, h₅, ⟨_, List.mem_cons_self, rfl⟩, rfl, by decide, by decide, ?_, ?_⟩
  · rintro p ⟨w, hw⟩
    cases hw
  · rintro i rfl
    rfl

theorem node_at_rest_removed : ∃ ts s, Run (controller.sys (W := Unit)) ts s ∧
    (∃ t ∈ ts, t.post.delivered (.node, removedNode.key) = createdNode) ∧
    controller.Rests removedNode.key s ∧
    Controller.stored s (.node, removedNode.key) = none := by
  obtain ⟨ts, s, hrun, hcreated, hrest⟩ := removed_run
  exact ⟨ts, s, hrun, hcreated, hrest, node_at_rest hrun hrest⟩

end ReconcileNode

end Automium
