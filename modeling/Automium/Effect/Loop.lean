import Automium.Effect.Exec
import Automium.Effect.Runs
import Mathlib.Logic.Function.Basic

/-!
# A control loop at rest

A control loop keeps copies of stored objects and runs a program for a key whenever one of them
changes. The objects are a family, and the program and other actors store new versions of them.

* The versions of an object are delivered in order, and a delivery may skip some. The handler of the
  event looks at the version delivered before and at the new one, and queues the key or not
  (`wakes`). The key may also be queued for no reason that matters here.
* A worker takes the key and runs the program. The key may be queued again meanwhile. The replies
  depend on what was delivered of the `watched` objects.
* By its result the program may ask for another run, which is queued or scheduled.
* A process that crashes or is killed is replaced by one to which nothing was delivered yet.

The loop rests when the key is not queued, nothing is scheduled or running, and the watched objects
were delivered as they are stored. `Loop.at_rest`: then the program, run to its end against the
stored objects in a world in which nothing changes (`still`), may return a result that does not ask
for another run. So whatever every such run establishes holds whenever the loop rests.
-/

namespace Effect

/-- Whatever is replied, the results of the program are in `Q`. -/
abbrev Gives {S : Sig} {α : Type} (p : Prog S α) (Q : α → Prop) : Prop :=
  Obeys (fun _ _ => True) (fun _ => True) p Q

/-- The end of a program decides. -/
theorem Gives.of_bind {S : Sig} {α β : Type} (p : Prog S α) {f : α → Prog S β} {Q : β → Prop}
    (h : ∀ a, Gives (f a) Q) : Gives (p >>= f) Q := by
  induction p with
  | ret a => exact h a
  | crash => trivial
  | call op k ih => exact ⟨trivial, fun r _ => ih r⟩

/-- A control loop for one key (module doc). -/
structure Loop (S : Sig) {ι : Type} (Obj : ι → Type) (α : Type) where
  program : Prog S α
  /-- Another run is asked for by this result. -/
  requeues : α → Bool
  /-- What was delivered of an object before its first version. -/
  absent : (i : ι) → Obj i
  watched : ι → Prop
  /-- The handler, given the version delivered before and the new one. -/
  wakes : (i : ι) → Obj i → Obj i → Bool
  /-- Calls, by the versions delivered and the stored ones, with the version that they store. -/
  answer : ((i : ι) → Obj i) → ((i : ι) → Obj i) → (op : S.Op) → S.Reply op →
    Option (Sigma Obj) → Prop
  answer_congr : ∀ {v w : (i : ι) → Obj i}, (∀ i, watched i → v i = w i) →
    ∀ stored op r a, answer v stored op r a → answer w stored op r a

/-- The state of the loop and of the objects. -/
structure Looped (S : Sig) {ι : Type} (Obj : ι → Type) (α : Type) where
  /-- The version of each object that was delivered last. -/
  delivered : (i : ι) → Obj i
  /-- The versions stored since, oldest first. -/
  pending : (i : ι) → List (Obj i)
  queued : Bool := false
  scheduled : Bool := false
  /-- What is left of the program that is running. -/
  running : Option (Prog S α) := none

variable {S : Sig} {ι : Type} {Obj : ι → Type} {α : Type}

namespace Looped

/-- The stored objects. -/
def stored (s : Looped S Obj α) (i : ι) : Obj i := (s.pending i).getLastD (s.delivered i)

variable [DecidableEq ι]

/-- A new version of an object is stored. -/
def push (s : Looped S Obj α) (i : ι) (o : Obj i) : Looped S Obj α :=
  { s with pending := Function.update s.pending i (s.pending i ++ [o]) }

/-- What a call stores. -/
def store (s : Looped S Obj α) : Option (Sigma Obj) → Looped S Obj α
  | none => s
  | some ⟨i, o⟩ => s.push i o

@[simp] theorem push_pending_self (s : Looped S Obj α) (i : ι) (o : Obj i) :
    (s.push i o).pending i = s.pending i ++ [o] := Function.update_self ..

theorem push_pending_ne_nil {s : Looped S Obj α} {i : ι} (j : ι) (o : Obj j)
    (h : s.pending i ≠ []) : (s.push j o).pending i ≠ [] := by
  by_cases hij : i = j
  · subst hij; simp
  · simpa [push, Function.update_of_ne hij] using h

@[simp] theorem store_delivered (s : Looped S Obj α) (a : Option (Sigma Obj)) :
    (s.store a).delivered = s.delivered := by
  cases a <;> rfl

@[simp] theorem store_queued (s : Looped S Obj α) (a : Option (Sigma Obj)) :
    (s.store a).queued = s.queued := by
  cases a <;> rfl

@[simp] theorem store_scheduled (s : Looped S Obj α) (a : Option (Sigma Obj)) :
    (s.store a).scheduled = s.scheduled := by
  cases a <;> rfl

theorem store_pending_ne_nil {s : Looped S Obj α} {i : ι} (a : Option (Sigma Obj))
    (h : s.pending i ≠ []) : (s.store a).pending i ≠ [] := by
  cases a with
  | none => exact h
  | some x => exact push_pending_ne_nil x.1 x.2 h

end Looped

namespace Loop

/-- Which kind of step is taken. -/
inductive Move (ι : Type) where
  | edit | deliver (i : ι) | nudge | take | call | finish | expire | restart

variable {L : Loop S Obj α} {s s' : Looped S Obj α}

section Steps

variable [DecidableEq ι]

/-- The steps (module doc). -/
inductive Step (L : Loop S Obj α) : Looped S Obj α → Move ι → Looped S Obj α → Prop
  | edit {s : Looped S Obj α} {i : ι} {o : Obj i} : Step L s .edit (s.push i o)
  | deliver {s : Looped S Obj α} {i : ι} {skipped rest : List (Obj i)} {o : Obj i} :
      s.pending i = skipped ++ o :: rest →
      Step L s (.deliver i) { s with delivered := Function.update s.delivered i o,
                                     pending := Function.update s.pending i rest,
                                     queued := s.queued || L.wakes i (s.delivered i) o }
  | nudge {s : Looped S Obj α} : Step L s .nudge { s with queued := true }
  | take {s : Looped S Obj α} : s.queued = true → s.running = none →
      Step L s .take { s with queued := false, running := some L.program }
  | call {s : Looped S Obj α} {op : S.Op} {k : S.Reply op → Prog S α} {r : S.Reply op}
      {a : Option (Sigma Obj)} : s.running = some (.call op k) →
      L.answer s.delivered s.stored op r a →
      Step L s .call { s.store a with running := some (k r) }
  | finish {s : Looped S Obj α} {x : α} {soon : Bool} : s.running = some (.ret x) →
      Step L s .finish { s with running := none, queued := s.queued || L.requeues x && soon,
                                scheduled := s.scheduled || L.requeues x && !soon }
  | expire {s : Looped S Obj α} {again : Bool} : s.scheduled = true →
      Step L s .expire { s with scheduled := again, queued := true }
  | restart {s : Looped S Obj α} :
      Step L s .restart { delivered := L.absent, pending := fun i => [s.stored i] }

/-- The runs start before anything was delivered. -/
def sys (L : Loop S Obj α) : Sys (Looped S Obj α) (Move ι) where
  init s := ∃ pending, s = { delivered := L.absent, pending := pending }
  step := L.Step

end Steps

/-- The next delivery of the object queues the key, whatever it is. -/
def Loud (L : Loop S Obj α) (i : ι) (o : Obj i) : Prop := ∀ o', L.wakes i o o' = true

/-- The world in which nothing else is delivered. A version that a call stores may go unnoticed if the
object is not watched or not loud. -/
def still (L : Loop S Obj α) (v : (i : ι) → Obj i) : World S Unit where
  env _ _ := False
  answer _ op r _ := ∃ stored a, L.answer v stored op r a ∧
    ∀ i o, a = some ⟨i, o⟩ → L.watched i → ¬ L.Loud i (v i)

/-- There is something left to do. -/
def Due (L : Loop S Obj α) (s : Looped S Obj α) : Prop :=
  s.queued = true ∨ s.scheduled = true ∨
    ∃ i, L.watched i ∧ s.pending i ≠ [] ∧ L.Loud i (s.delivered i)

/-- In the world in which nothing else is delivered, `p` may return `x`. -/
def MayReturn (L : Loop S Obj α) (v : (i : ι) → Obj i) {β : Type} (p : Prog S β) (x : β) : Prop :=
  ∃ tr, Exec (L.still v) p () tr (.done x) ()

/-- The program may return without asking for another run, or there was nothing to run it for. -/
def Done (L : Loop S Obj α) (v : (i : ι) → Obj i) : Prop :=
  (∀ i, L.watched i → v i = L.absent i) ∨ ∃ x, L.MayReturn v L.program x ∧ L.requeues x = false

/-- As `p` may end, the whole program may. -/
def Continues (L : Loop S Obj α) (v : (i : ι) → Obj i) (p : Prog S α) : Prop :=
  ∀ tr o, Exec (L.still v) p () tr o () → ∃ tr', Exec (L.still v) L.program () tr' o ()

/-- The program was run, or is running, against the versions that were delivered last. -/
def Settled (L : Loop S Obj α) (s : Looped S Obj α) : Prop :=
  match s.running with
  | none => L.Done s.delivered
  | some p => L.Continues s.delivered p

/-- An event that the handler drops is not one of a change. -/
def Heeds (L : Loop S Obj α) (t : Trans (Looped S Obj α) (Move ι)) : Prop :=
  ∀ i, t.lbl = .deliver i → L.watched i →
    L.wakes i (t.pre.delivered i) (t.post.delivered i) = false →
    t.post.delivered i = t.pre.delivered i

/-- Nothing is left to do (module doc). -/
structure Rests (L : Loop S Obj α) (s : Looped S Obj α) : Prop where
  queued : s.queued = false
  scheduled : s.scheduled = false
  running : s.running = none
  delivered : ∀ i, L.watched i → s.pending i = []

section Congr

variable {v w : (i : ι) → Obj i}

theorem still_congr (h : ∀ i, L.watched i → v i = w i) {op : S.Op} {r : S.Reply op} :
    (L.still v).answer () op r () → (L.still w).answer () op r () := by
  rintro ⟨stored, a, ha, hquiet⟩
  refine ⟨stored, a, L.answer_congr h stored op r a ha, fun i o e hi => ?_⟩
  rw [← h i hi]
  exact hquiet i o e hi

theorem exec_congr (h : ∀ i, L.watched i → v i = w i) {p : Prog S α} {tr : List (Event S Unit)}
    {o : Outcome α} (he : Exec (L.still v) p () tr o ()) : Exec (L.still w) p () tr o () :=
  he.mono (fun _ _ h => h) fun _ _ _ _ => still_congr h

theorem Done.congr (h : ∀ i, L.watched i → v i = w i) : L.Done v → L.Done w
  | .inl hv => .inl fun i hi => (h i hi).symm.trans (hv i hi)
  | .inr ⟨x, ⟨tr, he⟩, hx⟩ => .inr ⟨x, ⟨tr, exec_congr h he⟩, hx⟩

theorem Continues.congr (h : ∀ i, L.watched i → v i = w i) {p : Prog S α}
    (hp : L.Continues v p) : L.Continues w p := by
  intro tr o he
  obtain ⟨tr', he'⟩ := hp tr o (exec_congr (fun i hi => (h i hi).symm) he)
  exact ⟨tr', exec_congr h he'⟩

/-- Only what was delivered of the watched objects matters. -/
theorem Settled.congr (hs : L.Settled s) (hrunning : s'.running = s.running)
    (h : ∀ i, L.watched i → s.delivered i = s'.delivered i) : L.Settled s' := by
  unfold Settled at hs ⊢
  rw [hrunning]
  cases hr : s.running with
  | none => rw [hr] at hs; exact hs.congr h
  | some p => rw [hr] at hs; exact hs.congr h

end Congr

namespace MayReturn

variable {v : (i : ι) → Obj i} {β γ : Type}

theorem ret {x y : β} (h : L.MayReturn v (.ret x) y) : y = x :=
  h.choose_spec.ret_done.1

theorem call {op : S.Op} {k : S.Reply op → Prog S β} {x : β}
    (h : L.MayReturn v (.call op k) x) :
    ∃ r, (L.still v).answer () op r () ∧ L.MayReturn v (k r) x := by
  obtain ⟨tr, he⟩ := h
  obtain ⟨_, r, _, tr', _, ha, hk, _⟩ := he.call_done
  exact ⟨r, ha, tr', hk⟩

theorem bind {p : Prog S β} {f : β → Prog S γ} {x : γ} (h : L.MayReturn v (p >>= f) x) :
    ∃ y, L.MayReturn v p y ∧ L.MayReturn v (f y) x := by
  obtain ⟨tr, he⟩ := h
  obtain ⟨y, _, tr₁, tr₂, _, hp, hf⟩ := he.bind_done
  exact ⟨y, ⟨tr₁, hp⟩, tr₂, hf⟩

theorem of_gives {p : Prog S β} {x : β} {Q : β → Prop} (h : L.MayReturn v p x)
    (hp : Gives p Q) : Q x := by
  obtain ⟨tr, he⟩ := h
  have hI : Stable (L.still v) fun _ => True := fun _ _ _ _ => trivial
  exact (hp.invariant hI (fun _ _ _ _ _ _ _ => ⟨trivial, trivial⟩) he trivial).2.2 x rfl

end MayReturn

/-- The stored objects are those that were delivered. -/
theorem Rests.stored (hs : L.Rests s) {i : ι} (hi : L.watched i) : s.stored i = s.delivered i := by
  rw [Looped.stored, hs.delivered i hi]
  rfl

variable [DecidableEq ι]

/-- A call that cannot go unnoticed leaves something to do. -/
theorem Settled.call {op : S.Op} {k : S.Reply op → Prog S α} {r : S.Reply op}
    {a : Option (Sigma Obj)} (hs : L.Settled s) (hr : s.running = some (.call op k))
    (ha : L.answer s.delivered s.stored op r a) :
    L.Due { s.store a with running := some (k r) } ∨
      L.Settled { s.store a with running := some (k r) } := by
  by_cases hquiet : ∀ i o, a = some ⟨i, o⟩ → L.watched i → ¬ L.Loud i (s.delivered i)
  · right
    intro tr o he
    unfold Settled at hs
    rw [hr] at hs
    simp only [Looped.store_delivered] at he ⊢
    exact hs _ _ (.call ⟨s.stored, a, ha, hquiet⟩ he)
  · left
    simp only [not_forall, not_not] at hquiet
    obtain ⟨i, o, rfl, hi, hloud⟩ := hquiet
    exact .inr (.inr ⟨i, hi, by simp [Looped.store], by simpa using hloud⟩)

/-- What a delivery leaves to do. -/
theorem Step.deliver_settled {i : ι} {skipped rest : List (Obj i)} {o : Obj i}
    (hp : s.pending i = skipped ++ o :: rest) (hs : L.Due s ∨ L.Settled s)
    (hdropped : L.watched i → L.wakes i (s.delivered i) o = false → o = s.delivered i) :
    L.Due { s with delivered := Function.update s.delivered i o,
                   pending := Function.update s.pending i rest,
                   queued := s.queued || L.wakes i (s.delivered i) o } ∨
      L.Settled { s with delivered := Function.update s.delivered i o,
                         pending := Function.update s.pending i rest,
                         queued := s.queued || L.wakes i (s.delivered i) o } := by
  cases hwakes : L.wakes i (s.delivered i) o with
  | true => exact .inl (.inl (by simp))
  | false =>
    rcases hs with (hq | hsch | ⟨j, hj, hpending, hloud⟩) | hs
    · exact .inl (.inl (by simp [hq]))
    · exact .inl (.inr (.inl hsch))
    · -- The delivery of a loud object is not dropped, so this is another object.
      have hne : j ≠ i := by
        rintro rfl
        rw [hloud o] at hwakes
        cases hwakes
      refine .inl (.inr (.inr ⟨j, hj, ?_, ?_⟩))
      · simpa [Function.update_of_ne hne] using hpending
      · simpa [Function.update_of_ne hne] using hloud
    · refine .inr (hs.congr rfl fun j hj => ?_)
      by_cases hji : j = i
      · subst hji
        simpa using (hdropped hj hwakes).symm
      · simp [Function.update_of_ne hji]

theorem Step.settled {move : Move ι} (h : L.Step s move s') (hs : L.Due s ∨ L.Settled s)
    (hheeds : L.Heeds ⟨s, move, s'⟩) : L.Due s' ∨ L.Settled s' := by
  cases h with
  | @edit i o =>
    rcases hs with (hq | hsch | ⟨j, hj, hpending, hloud⟩) | hs
    · exact .inl (.inl hq)
    · exact .inl (.inr (.inl hsch))
    · exact .inl (.inr (.inr ⟨j, hj, Looped.push_pending_ne_nil i o hpending, hloud⟩))
    · exact .inr (hs.congr rfl fun _ _ => rfl)
  | @deliver i skipped rest o hp =>
    refine Step.deliver_settled hp hs fun hi hwakes => ?_
    have := hheeds i rfl hi
    simp only [Function.update_self] at this
    exact this hwakes
  | nudge | expire => exact .inl (.inl rfl)
  | take => exact .inr fun tr o he => ⟨tr, he⟩
  | @call op k r a hr ha =>
    rcases hs with (hq | hsch | ⟨j, hj, hpending, hloud⟩) | hs
    · exact .inl (.inl (by simp [hq]))
    · exact .inl (.inr (.inl (by simp [hsch])))
    · exact .inl (.inr (.inr ⟨j, hj, Looped.store_pending_ne_nil a hpending, by simpa using hloud⟩))
    · exact hs.call hr ha
  | @finish x soon hr =>
    rcases hs with (hq | hsch | hpending) | hs
    · exact .inl (.inl (by simp [hq]))
    · exact .inl (.inr (.inl (by simp [hsch])))
    · exact .inl (.inr (.inr hpending))
    · cases hx : L.requeues x with
      | true =>
        cases soon with
        | true => exact .inl (.inl (by simp))
        | false => exact .inl (.inr (.inl (by simp)))
      | false =>
        unfold Settled at hs
        rw [hr] at hs
        obtain ⟨tr, he⟩ := hs _ _ (.ret x ())
        exact .inr (.inr ⟨x, ⟨tr, he⟩, hx⟩)
  | restart => exact .inr (.inl fun _ _ => rfl)

/-- In a loop that rests the program may return without asking for another run (module doc). -/
theorem at_rest {ts : List (Trans (Looped S Obj α) (Move ι))} (h : Run L.sys ts s)
    (hheeds : ∀ t ∈ ts, L.Heeds t) (hs : L.Rests s) : L.Done s.delivered := by
  have hinit : ∀ s, L.sys.init s → L.Due s ∨ L.Settled s := by
    rintro s ⟨pending, rfl⟩
    exact .inr (.inl fun _ _ => rfl)
  have hstep : ∀ t : Trans (Looped S Obj α) (Move ι), L.sys.step t.pre t.lbl t.post →
      L.Due t.pre ∨ L.Settled t.pre → L.Heeds t → L.Due t.post ∨ L.Settled t.post :=
    fun t ht hI hc => Step.settled ht hI hc
  rcases (h.invariant hinit hstep hheeds).1 with (hq | hsch | ⟨i, hi, hpending, -⟩) | hdone
  · rw [hs.queued] at hq; cases hq
  · rw [hs.scheduled] at hsch; cases hsch
  · exact absurd (hs.delivered i hi) hpending
  · unfold Settled at hdone
    rw [hs.running] at hdone
    exact hdone

end Loop

end Effect
