import Automium.Effect.Prog
import Automium.Effect.Runs

/-!
# A controller that watches an object

An informer tells a controller of the versions of an object, and the controller runs a program for
it. The object is stored elsewhere, where the program and other actors write it.

* The informer delivers any version that is later than the last one it delivered, and skips those
  in between. A filter looks at the two versions, and the key of the object is queued if it lets
  the event pass.
* A worker takes the key from the queue and runs the program. The key may be queued again
  meanwhile. The program reads the version that was delivered last.
* By its result the program may ask for another run, which is then scheduled.
* A process that crashes or is killed is replaced by one that knows nothing, lists the object, and
  so has its key in the queue.

`Watch.kept_of_run`: if the program reads the object first, and if an event that changes what is
looked at (`view`) is dropped only while the object is going to be read anyway (`Due`), then no
change is lost (`Kept`).
-/

namespace Effect

/-- What a call does to the object. -/
inductive Access (Obj : Type) where
  | none
  /-- The reply is the version delivered last. -/
  | read
  /-- A new version is stored. -/
  | write (o : Obj)

/-- A controller and what it watches (module doc). -/
structure Watch (S : Sig) (Obj α : Type) where
  program : Prog S α
  /-- The filter: the last version delivered, and the next. -/
  passes : Obj → Obj → Bool
  /-- Another run is scheduled after the result. -/
  requeues : α → Bool
  /-- What other actors make of the stored object. -/
  edit : Obj → Obj → Prop
  /-- Calls, by the version delivered last and the stored one. -/
  answer : Obj → Obj → (op : S.Op) → S.Reply op → Access Obj → Prop

/-- The state of the controller and of the object. -/
structure Watched (S : Sig) (Obj α : Type) where
  /-- The version that the informer delivered last. -/
  delivered : Obj
  /-- The versions stored since, oldest first. -/
  pending : List Obj := []
  queued : Bool := true
  scheduled : Bool := false
  /-- What is left of the program that is running. -/
  running : Option (Prog S α) := none
  /-- The version that was read last. -/
  seen : Option Obj := none

namespace Watched

variable {S : Sig} {Obj α : Type}

/-- The stored object. -/
def stored (s : Watched S Obj α) : Obj := s.pending.getLastD s.delivered

def access (s : Watched S Obj α) : Access Obj → Watched S Obj α
  | .none => s
  | .read => { s with seen := some s.delivered }
  | .write o => { s with pending := s.pending ++ [o] }

end Watched

namespace Watch

variable {S : Sig} {Obj α γ : Type} {W : Watch S Obj α} {s s' : Watched S Obj α}

/-- Which kind of step is taken. -/
inductive Move where
  | edit | deliver | take | call | finish | expire | restart

/-- The steps (module doc). -/
inductive Step (W : Watch S Obj α) : Watched S Obj α → Move → Watched S Obj α → Prop
  | edit {s : Watched S Obj α} {o : Obj} : W.edit s.stored o →
      Step W s .edit { s with pending := s.pending ++ [o] }
  | deliver {s : Watched S Obj α} {skipped rest : List Obj} {o : Obj} :
      s.pending = skipped ++ o :: rest →
      Step W s .deliver { s with delivered := o, pending := rest,
                                 queued := s.queued || W.passes s.delivered o }
  | take {s : Watched S Obj α} : s.queued = true → s.running = none →
      Step W s .take { s with queued := false, running := some W.program }
  | call {s : Watched S Obj α} {op : S.Op} {k : S.Reply op → Prog S α} {r : S.Reply op}
      {a : Access Obj} : s.running = some (.call op k) → W.answer s.delivered s.stored op r a →
      Step W s .call { s.access a with running := some (k r) }
  | finish {s : Watched S Obj α} {x : α} : s.running = some (.ret x) →
      Step W s .finish { s with running := none, scheduled := s.scheduled || W.requeues x }
  | expire {s : Watched S Obj α} : s.scheduled = true →
      Step W s .expire { s with scheduled := false, queued := true }
  | restart {s : Watched S Obj α} :
      Step W s .restart { delivered := s.stored, seen := s.seen }

/-- The runs start when the controller has listed the object. -/
def sys (W : Watch S Obj α) : Sys (Watched S Obj α) Move where
  init s := ∃ o, s = { delivered := o }
  step := W.Step

/-- The object is going to be read: the key is queued, a run is scheduled or will be, or the program
has not made its first call. -/
def Due (W : Watch S Obj α) (s : Watched S Obj α) : Prop :=
  s.queued = true ∨ s.scheduled = true ∨ s.running = some W.program ∨
    ∃ x, s.running = some (.ret x) ∧ W.requeues x = true

/-- The first call of the program reads the object, or the program asks for another run. -/
def ReadsFirst (W : Watch S Obj α) : Prop :=
  ∃ op k, W.program = .call op k ∧ ∀ delivered stored r a, W.answer delivered stored op r a →
    a = .read ∨ ∃ x, k r = .ret x ∧ W.requeues x = true

/-- If everything was delivered and the stored object is not the one that was read last, the key is
queued, a program is running, or a run is scheduled. -/
def Kept (view : Obj → γ) (s : Watched S Obj α) : Prop :=
  s.pending = [] → s.seen.map view ≠ some (view s.stored) →
    s.queued = true ∨ s.running ≠ none ∨ s.scheduled = true

/-- The object is going to be read, or was read as it was delivered. -/
def Fresh (W : Watch S Obj α) (view : Obj → γ) (s : Watched S Obj α) : Prop :=
  W.Due s ∨ s.seen.map view = some (view s.delivered)

/-- The step drops no change, or the object is going to be read anyway. -/
def Heeds (W : Watch S Obj α) (view : Obj → γ) (t : Trans (Watched S Obj α) Move) : Prop :=
  t.lbl = .deliver → W.passes t.pre.delivered t.post.delivered = false →
    view t.post.delivered ≠ view t.pre.delivered → W.Due t.pre

theorem Fresh.kept {view : Obj → γ} (h : W.Fresh view s) : Kept view s := by
  intro hpending hseen
  have hstored : s.stored = s.delivered := by rw [Watched.stored, hpending]; rfl
  rcases h with (hq | hs | hr | ⟨x, hr, -⟩) | h
  · exact .inl hq
  · exact .inr (.inr hs)
  · exact .inr (.inl (by simp [hr]))
  · exact .inr (.inl (by simp [hr]))
  · exact absurd (hstored ▸ h) hseen

/-- A call of the program. -/
theorem Fresh.call {view : Obj → γ} (hfirst : W.ReadsFirst) {op : S.Op}
    {k : S.Reply op → Prog S α} {r : S.Reply op} {a : Access Obj} (h : W.Fresh view s)
    (hr : s.running = some (.call op k)) (ha : W.answer s.delivered s.stored op r a) :
    W.Fresh view { s.access a with running := some (k r) } := by
  cases a with
  | read => exact .inr rfl
  | none | write =>
    rcases h with (hq | hs | hp | ⟨x, hx, -⟩) | h
    · exact .inl (.inl hq)
    · exact .inl (.inr (.inl hs))
    · obtain ⟨op', k', hprogram, hreads⟩ := hfirst
      rw [hp, hprogram] at hr
      cases hr
      obtain hread | ⟨x, hx, hrequeues⟩ := hreads _ _ _ _ ha
      · cases hread
      · exact .inl (.inr (.inr (.inr ⟨x, congrArg some hx, hrequeues⟩)))
    · rw [hr] at hx
      cases hx
    · exact .inr h

theorem Step.fresh {view : Obj → γ} (hfirst : W.ReadsFirst) {move : Move} (h : W.Step s move s')
    (hs : W.Fresh view s) (hheeds : W.Heeds view ⟨s, move, s'⟩) : W.Fresh view s' := by
  cases h with
  | edit => exact hs
  | @deliver _ rest o _ =>
    cases hpass : W.passes s.delivered o with
    | true => exact .inl (.inl (by simp))
    | false =>
      have hdue : W.Due s →
          W.Due { s with delivered := o, pending := rest, queued := s.queued || false } := by
        simp [Due]
      by_cases hview : view o = view s.delivered
      · exact hs.imp hdue fun h => h.trans (congrArg some hview.symm)
      · exact .inl (hdue (hheeds rfl hpass hview))
  | take => exact .inl (.inr (.inr (.inl rfl)))
  | call hr ha => exact hs.call hfirst hr ha
  | @finish x hr =>
    rcases hs with (hq | hs | hp | ⟨y, hy, hrequeues⟩) | h
    · exact .inl (.inl hq)
    · exact .inl (.inr (.inl (by simp [hs])))
    · obtain ⟨op, k, hprogram, -⟩ := hfirst
      rw [hp, hprogram] at hr
      cases hr
    · rw [hr] at hy
      cases hy
      exact .inl (.inr (.inl (by simp [hrequeues])))
    · exact .inr h
  | expire | restart => exact .inl (.inl rfl)

/-- No change is lost (module doc). -/
theorem kept_of_run {view : Obj → γ} (hfirst : W.ReadsFirst)
    {ts : List (Trans (Watched S Obj α) Move)} (h : Run W.sys ts s)
    (hheeds : ∀ t ∈ ts, W.Heeds view t) : Kept view s ∧ ∀ t ∈ ts, Kept view t.pre := by
  have hinit : ∀ s, W.sys.init s → W.Fresh view s := by
    rintro s ⟨o, rfl⟩
    exact .inl (.inl rfl)
  obtain ⟨hs, hts⟩ := h.invariant hinit (fun t ht hI hc => Step.fresh hfirst ht hI hc) hheeds
  exact ⟨hs.kept, fun t ht => (hts t ht).2.1.kept⟩

end Watch

end Effect
