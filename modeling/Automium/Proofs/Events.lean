import Automium.Effect.Watch
import Automium.Proofs.Decision

/-!
# Changes of an Application that are not reconciled

The Application controller drops the events that change the status, because it writes the status
itself. An informer may put several writes into one event, so an event may change the status and
the spec. And a reconcile that fails is not run again.

`spec_changes_kept`: a change of the spec is not lost as long as no such event is delivered at a
time when the Application is not going to be read anyway. `spec_change_lost` is a run in which one
is delivered after a reconcile that failed.
-/

namespace Automium

open Effect

namespace ReconcileApplication

variable {vars : String → String} {texts : LibTexts} {request : Key}

/-- `processNextWorkItem`: an error and a result that asks for it bring the key back. -/
def requeues : Except Error Result → Bool
  | .error _ => true
  | .ok res => 0 < res.requeueAfter || res.requeue

/-- A user changes the spec. -/
def SpecEdit (old new : Application) : Prop :=
  new.key = old.key ∧ new.status = old.status ∧
    old.metadata.resourceVersion < new.metadata.resourceVersion

/-- The calls of a reconcile: it reads from the informer's cache, its writes of the status need the
current version, and Rancher may reply anything. -/
def AppAnswer (vars : String → String) (delivered stored : Application) :
    (op : AppApi.Op) → AppApi.Reply op → Access Application → Prop
  | .inl (.get .application _), r, access =>
    (r = .ok delivered ∧ access = .read) ∨
      ((∃ e : Error, e.isNotFound = false ∧ r = .error e) ∧ access = .none)
  | .inl (.updateStatus .application item), r, access =>
    ((∃ e, r = .error e) ∧ access = .none) ∨
      (item.key = stored.key ∧
        item.metadata.resourceVersion = stored.metadata.resourceVersion ∧
        ∃ version, stored.metadata.resourceVersion < version ∧
          r = .ok (statusObj .application stored item version) ∧
          access = .write (statusObj .application stored item version))
  | .inl (.getenv name), r, access => r = vars name ∧ access = .none
  | _, _, access => access = .none

/-- The states of the controller and of the Application. -/
abbrev AppState : Type := Watched AppApi Application (Except Error Result)

/-- The controller, for one Application. -/
def appWatch (vars : String → String) (texts : LibTexts) (request : Key) :
    Watch AppApi Application (Except Error Result) where
  program := Reconcile texts request
  passes := updateEvent
  requeues := requeues
  edit := SpecEdit
  answer := AppAnswer vars

theorem updateEvent_eq_false {old new : Application} (h : updateEvent old new = false) :
    old.status ≠ new.status := by
  unfold updateEvent at h
  split at h
  · assumption
  · cases h

theorem appWatch_readsFirst : (appWatch vars texts request).ReadsFirst := by
  refine ⟨.inl (.get .application request), _, rfl, ?_⟩
  rintro delivered stored r access (⟨-, rfl⟩ | ⟨⟨e, he, rfl⟩, -⟩)
  · exact .inl rfl
  · refine .inr ⟨.error e, ?_, rfl⟩
    change (if e.isNotFound = true then Prog.ret (Except.ok ({} : Result))
      else Prog.ret (Except.error e)) = _
    rw [he]
    rfl

/-- A change of the spec is not lost (module doc). -/
theorem spec_changes_kept {ts : List (Trans AppState Watch.Move)} {s : AppState}
    (h : Run (appWatch vars texts request).sys ts s)
    (hevents : ∀ t ∈ ts, t.lbl = .deliver →
      t.pre.delivered.status ≠ t.post.delivered.status →
      t.post.delivered.spec ≠ t.pre.delivered.spec → (appWatch vars texts request).Due t.pre) :
    Watch.Kept Object.spec s ∧ ∀ t ∈ ts, Watch.Kept Object.spec t.pre :=
  Watch.kept_of_run appWatch_readsFirst h fun t ht hdeliver hpass hspec =>
    hevents t ht hdeliver (updateEvent_eq_false hpass) hspec

/-- A user changes the version of an Application. -/
def withVersion (app : Application) (version : String) : Application where
  metadata := { app.metadata with resourceVersion := app.metadata.resourceVersion + 1 }
  spec := { app.spec with version := version }
  status := app.status

/-- `loggingApp` when Rancher cannot be reached. -/
def failedApp : Application :=
  statusObj .application loggingApp
    { loggingApp with status := { phase := "Failed", error := "cannot get ID for cluster: timeout" } } 1

/-- The version is changed before the reconcile reads the Application, and once more before the
informer has seen the status that the reconcile writes: both come in one event, while the key is
queued. -/
theorem withVersion_kept :
    ∃ ts s, Run (appWatch prodVars prodTexts loggingApp.key).sys ts s ∧
      (∃ t ∈ ts, t.lbl = .finish) ∧
      (∃ t ∈ ts, t.lbl = .deliver ∧ t.pre.delivered.status ≠ t.post.delivered.status ∧
        t.post.delivered.spec ≠ t.pre.delivered.spec) ∧
      s.delivered.spec.version = "1.2" ∧ Watch.Kept Object.spec s := by
  have hinit : Run (appWatch prodVars prodTexts loggingApp.key).sys [] { delivered := loggingApp } :=
    .nil ⟨loggingApp, rfl⟩
  have htake := hinit.snoc (.take rfl rfl)
  let first := withVersion loggingApp "1.1"
  have hedit := htake.snoc (.edit (o := first) ⟨rfl, rfl, by decide⟩)
  have hdeliver := hedit.snoc (@Watch.Step.deliver _ _ _ _ _ [] [] first rfl)
  have hget := hdeliver.snoc (.call rfl (.inl ⟨rfl, rfl⟩))
  have hhost := hget.snoc (.call rfl ⟨rfl, rfl⟩)
  have htoken := hhost.snoc (.call rfl ⟨rfl, rfl⟩)
  let timeout : Except Error Response := .error (.new "timeout")
  have hlist := htoken.snoc (@Watch.Step.call AppApi _ _ _ _ (.inr _) _ timeout _ rfl rfl)
  have hfail := hlist.snoc (.call rfl (.inr ⟨rfl, rfl, 2, by decide, rfl, rfl⟩))
  have hfinish := hfail.snoc (.finish rfl)
  let written := statusObj .application first failedApp 2
  let second := withVersion written "1.2"
  have hedit' := hfinish.snoc (.edit (o := second) ⟨rfl, rfl, by decide⟩)
  have hdeliver' := hedit'.snoc (@Watch.Step.deliver _ _ _ _ _ [written] [] second rfl)
  refine ⟨_, _, hdeliver', ?_, ⟨_, List.mem_concat_self, rfl, ?_, ?_⟩, rfl, ?_⟩
  · exact ⟨_, List.mem_append_left _ (List.mem_append_left _ List.mem_concat_self), rfl⟩
  · decide +kernel
  · decide +kernel
  · refine (spec_changes_kept hdeliver' fun t ht hlbl hstatus _ => ?_).1
    simp only [List.nil_append, List.mem_append, List.mem_singleton] at ht
    rcases ht with (((((((((rfl | rfl) | rfl) | rfl) | rfl) | rfl) | rfl) | rfl) | rfl) | rfl) | rfl <;>
      cases hlbl
    · exact absurd rfl hstatus
    · exact .inl rfl

/-- A reconcile fails and writes the status, the spec is changed, and both come in one event. -/
theorem spec_change_lost :
    ∃ ts s, Run (appWatch prodVars prodTexts loggingApp.key).sys ts s ∧
      ¬ Watch.Kept Object.spec s := by
  have hinit : Run (appWatch prodVars prodTexts loggingApp.key).sys [] { delivered := loggingApp } :=
    .nil ⟨loggingApp, rfl⟩
  have htake := hinit.snoc (.take rfl rfl)
  have hget := htake.snoc (.call rfl (.inl ⟨rfl, rfl⟩))
  have hhost := hget.snoc (.call rfl ⟨rfl, rfl⟩)
  have htoken := hhost.snoc (.call rfl ⟨rfl, rfl⟩)
  let timeout : Except Error Response := .error (.new "timeout")
  have hlist := htoken.snoc (@Watch.Step.call AppApi _ _ _ _ (.inr _) _ timeout _ rfl rfl)
  have hfail := hlist.snoc (.call rfl (.inr ⟨rfl, rfl, 1, by decide, rfl, rfl⟩))
  have hfinish := hfail.snoc (.finish rfl)
  let edited := withVersion failedApp "1.1"
  have hedit := hfinish.snoc (.edit (o := edited) ⟨rfl, rfl, by decide⟩)
  have hdeliver := hedit.snoc (@Watch.Step.deliver _ _ _ _ _ [failedApp] [] edited rfl)
  refine ⟨_, _, hdeliver, fun hkept => ?_⟩
  have hspec : some loggingApp.spec ≠ some edited.spec := by decide +kernel
  have hdropped : updateEvent loggingApp edited = false := by decide +kernel
  rcases hkept rfl hspec with hqueued | hrunning | hscheduled
  · have hpassed : updateEvent loggingApp edited = true := hqueued
    rw [hdropped] at hpassed
    cases hpassed
  · exact hrunning rfl
  · cases hscheduled

end ReconcileApplication

end Automium
