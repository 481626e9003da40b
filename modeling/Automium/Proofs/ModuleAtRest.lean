import Automium.Proofs.AtRest
import Automium.Proofs.Choice
import Automium.Proofs.ReplicaRuns

/-!
# A Module at rest is reported

The Module controller comes back to a Module until its Job is over and its status says so.
`module_at_rest`: when nothing is left to do for a stored Module, its Job is stored, was made from the
present spec of the Module, and is over; and the status of the Module says how it ended. This is so
with any number of workers, and whatever the other actors did, as long as the Jobs with the name of
the Module's Job are owned by the Module.
-/

namespace Automium

open Effect Data

namespace ReconcileModule

/-- The Job is the one for the present spec of the Module: it has its variables, and it removes the
machines exactly if none are wanted. -/
structure MadeFor (inst : Module) (job : Job) : Prop where
  env : ∃ c rest, job.spec.containers = c :: rest ∧ c.env = batchEnvVars inst ∧
    (c.command = ["./remove"] ↔ inst.spec.replicas = 0)

/-- The status of the Module says how the Job ended. A completed Job is reported if the Module has its
replicas. -/
structure Concludes (inst : Module) (job : Job) : Prop where
  phase : retrieveJobStatus job = .ok inst.status.phase
  ended : inst.status.phase = StatusPhaseCompleted ∧
      inst.status.updatedReplicas = inst.spec.replicas ∨ inst.status.phase = StatusPhaseFailed
  replicas : inst.status.replicas = inst.spec.replicas

variable {sort : SliceSort} {req : Key} {v : (i : Kind × Key) → Cached i}
  {m : {o : Kind.module.Obj // o.key = req}} {inst : Module} {found : Job} {action phase : String}
  {res : Except Error Result}

/-- The loop of a Module. -/
abbrev moduleLoop (sort : SliceSort) (req : Key) : Loop Api Cached (Except Error Result) :=
  (controller sort).loop req

theorem moduleLoop_answer :
    (moduleLoop sort req).answer = Answers (moduleLoop sort req).watched := rfl

theorem moduleLoop_loud (hm : v (.module, req) = some m) :
    (moduleLoop sort req).Loud (.module, req) (v (.module, req)) := by
  rw [hm]
  exact loud_first m

theorem desiredJob_key (hkey : inst.key = req) (command : List String) :
    (desiredJob inst command).key = ownedKey req := by
  rw [← hkey]
  rfl

/-! ## The action -/

/-- What is known of the action: its command removes the machines if no replicas are wanted, and only
then. -/
theorem actionFor_command (inst : Module) (nodes : List Node) {command : List String}
    (h : jobCommand (actionFor inst nodes) = some command) : command ≠ ["./remove"] := by
  rcases actionFor_cases inst nodes with e | e <;> rw [e] at h <;> cases h <;> decide

theorem chooseModuleAction_gives (inst : Module) :
    Gives (chooseModuleAction inst) fun r => ∀ action command, r = .ok action →
      jobCommand action = some command → (command = ["./remove"] ↔ inst.spec.replicas = 0) := by
  unfold chooseModuleAction
  split
  · rename_i hzero
    rintro action command e hc
    cases e
    cases hc
    simp [hzero]
  · rename_i hne
    refine Gives.of_bind _ fun r => ?_
    cases r with
    | error e => exact nofun
    | ok nodes =>
      rintro action command e hc
      cases e
      simp [hne, actionFor_command inst nodes hc]

/-! ## The Job has to be recreated -/

theorem recreateJob_again : Gives (recreateJob inst action found) fun res => addsAgain res = true := by
  unfold recreateJob
  split
  · rfl
  · refine Gives.of_bind _ fun _ => ?_
    rw [delete_bind]
    refine ⟨trivial, fun r _ => ?_⟩
    cases r with
    | error e => rfl
    | ok =>
      refine Gives.of_bind _ fun r => ?_
      cases r <;> rfl

/-! ## The Job is as desired -/

/-- A status that is reported without an error was there before. -/
theorem updateModuleStatus_returns {u : Unit} (hm : v (.module, req) = some m)
    (h : (moduleLoop sort req).MayReturn v (updateModuleStatus m.1 action phase) (.ok u)) :
    m.1.status.phase = phase ∧ m.1.status.replicas = m.1.spec.replicas := by
  obtain ⟨r, -, h⟩ := h.bind
  cases r with
  | error e => cases h.ret
  | ok counts =>
    obtain ⟨cur, upd⟩ := counts
    dsimp only at h
    split at h
    · rename_i hstatus
      rw [hstatus]
      exact ⟨rfl, rfl⟩
    · rw [updateStatus_bind] at h
      have hkey : ({ m.1 with status :=
          ({ phase := phase, replicas := m.1.spec.replicas, currentReplicas := cur,
             updatedReplicas := upd } : ModuleStatus) } : Module).key = req := m.2
      obtain ⟨e, he⟩ := may_updateStatus moduleLoop_answer (by rw [hkey]; exact .inl rfl)
        (by rw [hkey]; exact moduleLoop_loud hm) h
      cases he.ret

/-- A phase that is not reported as pending is the one of the Job. -/
theorem phaseToReport_cases (status : ModuleStatus) (phase : String)
    (h : phaseToReport status phase ≠ StatusPhasePending) :
    phaseToReport status phase = phase ∧
      (phase = StatusPhaseCompleted → status.updatedReplicas = status.replicas) := by
  unfold phaseToReport at h ⊢
  split_ifs at h ⊢ with hcond
  · exact absurd rfl h
  · exact ⟨rfl, fun hp => not_not.mp fun hne => hcond ⟨hne, hp⟩⟩

theorem retrieveJobStatus_cases {phase : String} (h : retrieveJobStatus found = .ok phase) :
    phase = StatusPhasePending ∨ phase = StatusPhaseRunning ∨ phase = StatusPhaseCompleted ∨
      phase = StatusPhaseFailed := by
  unfold retrieveJobStatus at h
  split_ifs at h
  · cases h; simp
  · cases h; simp
  · split at h
    · cases h
    · split_ifs at h <;> cases h <;> simp

theorem reportJob_returns (hm : v (.module, req) = some m)
    (h : (moduleLoop sort req).MayReturn v (reportJob sort m.1 action found) res)
    (hres : addsAgain res = false) : Concludes m.1 found := by
  obtain ⟨r, -, h⟩ := h.bind
  cases r with
  | error e =>
    rw [h.ret] at hres
    cases hres
  | ok =>
    cases hstatus : retrieveJobStatus found with
    | error e =>
      simp only [hstatus] at h
      rw [h.ret] at hres
      cases hres
    | ok phase =>
      simp only [hstatus] at h
      obtain ⟨r, hr, h⟩ := h.bind
      cases r with
      | error e =>
        rw [h.ret] at hres
        cases hres
      | ok =>
        obtain ⟨hphase, hreplicas⟩ := updateModuleStatus_returns hm hr
        dsimp only at h
        split at h
        · rw [h.ret] at hres
          cases hres
        · rename_i hover
          obtain ⟨hpending, hrunning⟩ := not_or.mp hover
          obtain ⟨hsame, hupdated⟩ := phaseToReport_cases _ _ hpending
          rw [hsame] at hphase hpending hrunning
          refine ⟨by rw [hstatus, hphase], ?_, hreplicas⟩
          rw [hphase]
          rcases retrieveJobStatus_cases hstatus with e | e | e | e
          · exact absurd e hpending
          · exact absurd e hrunning
          · exact .inl ⟨e, (hupdated e).trans hreplicas⟩
          · exact .inr e

/-- The part of `Reconcile` after the desired Job is known. -/
theorem syncJob_returns {command : List String} (hm : v (.module, req) = some m)
    (h : (moduleLoop sort req).MayReturn v (syncJob sort m.1 action (desiredJob m.1 command)) res)
    (hres : addsAgain res = false) :
    ∃ j, v (.job, ownedKey req) = some j ∧ Concludes m.1 j.1 ∧
      ∃ c rest, j.1.spec.containers = c :: rest ∧ c.env = batchEnvVars m.1 ∧ c.command = command := by
  have hagain : ∀ {r : Except Error Result}, (moduleLoop sort req).MayReturn v (.ret r) res →
      addsAgain r = true → False := by
    intro r h hr
    rw [h.ret, hr] at hres
    cases hres
  unfold syncJob at h
  rw [get_bind, desiredJob_key m.2] at h
  cases hj : v (.job, ownedKey req) with
  | none =>
    obtain ⟨e, h⟩ := may_get_none moduleLoop_answer (.inr rfl) hj h
    dsimp only at h
    split at h
    · rw [create_bind] at h
      obtain ⟨r, -, h⟩ := h.call
      cases r with
      | error e => exact (hagain h rfl).elim
      | ok => exact (hagain h rfl).elim
    · exact (hagain h rfl).elim
  | some j =>
    rcases may_get moduleLoop_answer (.inr rfl) hj h with h | ⟨e, he, h⟩
    · refine ⟨j, rfl, ?_⟩
      cases hc : j.1.spec.containers with
      | nil =>
        simp only [hc, desiredJob] at h
        exact (hagain h rfl).elim
      | cons c rest =>
        simp only [hc, desiredJob] at h
        split at h
        · have := h.of_gives recreateJob_again
          rw [hres] at this
          cases this
        · rename_i hsame
          obtain ⟨henv, hcommand⟩ : (provisioner m.1 command).env = c.env ∧
              (provisioner m.1 command).command = c.command := by
            simpa [jobDiffers] using hsame
          exact ⟨reportJob_returns hm h hres, c, rest, rfl, henv.symm, hcommand.symm⟩
    · dsimp only at h
      rw [he] at h
      exact (hagain h rfl).elim

/-- What a reconcile that does not ask for another found. -/
theorem Reconcile_returns (hm : v (.module, req) = some m)
    (h : (moduleLoop sort req).MayReturn v (Reconcile sort req) res)
    (hres : addsAgain res = false) :
    ∃ j, v (.job, ownedKey req) = some j ∧ MadeFor m.1 j.1 ∧ Concludes m.1 j.1 := by
  unfold Reconcile at h
  rw [get_bind] at h
  rcases may_get moduleLoop_answer (.inl rfl) hm h with h | ⟨e, he, h⟩
  · obtain ⟨r, haction, h⟩ := h.bind
    cases r with
    | error e =>
      rw [h.ret] at hres
      cases hres
    | ok action =>
      cases hcommand : jobCommand action with
      | none =>
        simp only [hcommand] at h
        rw [h.ret] at hres
        cases hres
      | some command =>
        simp only [hcommand] at h
        obtain ⟨j, hj, hconcludes, c, rest, hc, henv, rfl⟩ := syncJob_returns hm h hres
        have hremove := haction.of_gives (chooseModuleAction_gives m.1) action c.command rfl hcommand
        exact ⟨j, hj, ⟨c, rest, hc, henv, hremove⟩, hconcludes⟩
  · dsimp only at h
    rw [he] at h
    rw [h.ret] at hres
    cases hres

/-- A Module for which nothing is left to do (module doc). -/
theorem module_at_rest {W : Type} [DecidableEq W] {s : ControllerState Api Cached W}
    {ts : List (Trans (ControllerState Api Cached W) (Controller.Move (Kind × Key)))}
    (h : Run (controller sort).sys ts s)
    (howned : ∀ t ∈ ts, SeenOwned .module .job ownedKey req t.post)
    (hrest : (controller sort).Rests req s)
    (hm : Controller.stored s (.module, req) = some m) :
    ∃ j, Controller.stored s (.job, ownedKey req) = some j ∧ MadeFor m.1 j.1 ∧
      Concludes m.1 j.1 := by
  obtain ⟨-, res, hreturns, hres⟩ := owner_at_rest h howned hrest hm
  exact Reconcile_returns hm hreturns hres

/-! ### A Module without machines -/

/-- A Module whose machines were removed. -/
def removedModule : Module :=
  { scaled nginxModule 0 with status := { phase := StatusPhaseCompleted } }

/-- The Job that removed them. -/
def removalJob : Job :=
  { desiredJob removedModule ["./remove"] with
    status := { startTime := some "2019-01-01T00:00:00Z", conditions := ["Complete"] } }

abbrev removed : Cached (.module, removedModule.key) := some ⟨removedModule, rfl⟩

abbrev removal : Cached (.job, ownedKey removedModule.key) := some ⟨removalJob, rfl⟩

/-- The informers have not delivered anything. -/
def unlisted : ControllerState Api Cached Unit where
  delivered _ := none
  pending := Function.update (Function.update (fun _ => [])
    (.module, removedModule.key) [removed])
    (.job, ownedKey removedModule.key) [removal]

/-- The Module and its Job are delivered, and the Module is reconciled once. -/
theorem removed_run : ∃ ts s, Run (controller insertionSort).sys ts s ∧
    (∀ t ∈ ts, SeenOwned (W := Unit) .module .job ownedKey removedModule.key t.post) ∧
    (controller insertionSort).Rests removedModule.key s ∧
    Controller.stored s (.module, removedModule.key) = removed := by
  have h₀ : Run (controller insertionSort).sys [] unlisted := .nil ⟨_, rfl⟩
  have h₁ := h₀.snoc (.deliver (show _ = [] ++ removed :: [] from rfl))
  have h₂ := h₁.snoc (.deliver (show _ = [] ++ removal :: [] from rfl))
  have h₃ := h₂.snoc (.get (w := ()) rfl rfl)
  have h₄ := h₃.snoc (.call (w := ()) rfl ⟨rfl, fun _ => .inl rfl⟩)
  have h₅ := h₄.snoc (.call (w := ()) rfl ⟨rfl, fun _ => .inl rfl⟩)
  have h₆ := h₅.snoc (.call (w := ()) (r := (.ok [] : Except Error (List Node))) rfl rfl)
  have h₇ := h₆.snoc (.call (w := ()) (r := (.ok [] : Except Error (List Node))) rfl rfl)
  have h₈ := h₇.snoc (.finish (w := ()) 0 rfl)
  refine ⟨_, _, h₈, ?_, ⟨rfl, by decide, by decide, ?_, ?_⟩, rfl⟩
  · intro t ht o ho
    simp only [List.mem_append, List.mem_singleton, List.not_mem_nil, false_or] at ht
    rcases ht with ((((((rfl | rfl) | rfl) | rfl) | rfl) | rfl) | rfl) | rfl <;> cases ho <;> decide
  · rintro p ⟨w, hw⟩
    cases hw
  · rintro i (rfl | rfl) <;> rfl

theorem module_at_rest_removed : ∃ ts s j, Run ((controller insertionSort).sys (W := Unit)) ts s ∧
    (controller insertionSort).Rests removedModule.key s ∧
    Controller.stored s (.module, removedModule.key) = removed ∧
    Controller.stored s (.job, ownedKey removedModule.key) = some j ∧
    MadeFor removedModule j.1 ∧ Concludes removedModule j.1 := by
  obtain ⟨ts, s, hrun, howned, hrest, hm⟩ := removed_run
  obtain ⟨j, hj⟩ := module_at_rest hrun howned hrest hm
  exact ⟨ts, s, j, hrun, hrest, hm, hj⟩

end ReconcileModule

end Automium
