import Automium.Effect.Prog
import Mathlib.Logic.Relation

/-!
# Executions of a program in a world

A `World` says how the operations of an interface are answered and what other actors may do to
the shared state between two calls. Both are relations, so a world can lose a call, answer from
an old copy, or return a list in any order.

* `Exec W p s tr o s'`: from state `s`, the program `p` makes the calls `tr` and ends with the
  outcome `o` in state `s'`. An execution may stop before any call (`Outcome.halted`: the process
  was killed), so a property of all executions is also a property of all unfinished ones.
* `Obeys rely ok p Q`: as long as the replies are in `rely`, the calls of `p` are in `ok` and its
  result is in `Q`. It needs no state; with an invariant that makes the replies good and that the
  calls in `ok` keep, it gives what a whole execution keeps (`Obeys.invariant`). `Uses ok p` is
  the case of any replies, which gives the frame of a program: what no call in `ok` changes is
  unchanged.
* `run`: the execution in a world that is a function of the state. It can be evaluated.
-/

namespace Effect

variable {S : Sig} {σ α β : Type}

/-- One call of a program: the state it met, the operation and the reply. -/
structure Event (S : Sig) (σ : Type) where
  state : σ
  op : S.Op
  reply : S.Reply op

/-- The call without the state it met. -/
def Event.forget (e : Event S σ) : Event S Unit := ⟨(), e.op, e.reply⟩

/-- How an execution ends. -/
inductive Outcome (α : Type) where
  | done (a : α)
  | crashed (msg : String)
  /-- The process stopped before its next call. -/
  | halted
  deriving DecidableEq

/-- The surroundings of a program (module doc). -/
structure World (S : Sig) (σ : Type) where
  /-- A step of another actor. -/
  env : σ → σ → Prop
  /-- `op` in the first state may be answered with the reply, and leaves the second state. -/
  answer : σ → (op : S.Op) → S.Reply op → σ → Prop

/-- The executions of a program (module doc). -/
inductive Exec (W : World S σ) : Prog S α → σ → List (Event S σ) → Outcome α → σ → Prop
  | ret (a : α) (s : σ) : Exec W (.ret a) s [] (.done a) s
  | crash (msg : String) (s : σ) : Exec W (.crash msg) s [] (.crashed msg) s
  | halt (p : Prog S α) (s : σ) : Exec W p s [] .halted s
  | env {p : Prog S α} {s s₁ s' : σ} {tr : List (Event S σ)} {o : Outcome α} :
      W.env s s₁ → Exec W p s₁ tr o s' → Exec W p s tr o s'
  | call {op : S.Op} {k : S.Reply op → Prog S α} {s s₁ s' : σ} {r : S.Reply op}
      {tr : List (Event S σ)} {o : Outcome α} :
      W.answer s op r s₁ → Exec W (k r) s₁ tr o s' →
        Exec W (.call op k) s (⟨s, op, r⟩ :: tr) o s'

namespace Exec

variable {W : World S σ} {p : Prog S α} {f : α → Prog S β} {s s₁ s' : σ}
  {tr tr₁ tr₂ : List (Event S σ)}

/-- An execution that returns `b` from `ret a`: only the other actors act. -/
theorem ret_done {a b : α} (h : Exec W (.ret a) s tr (.done b) s') :
    b = a ∧ Relation.ReflTransGen W.env s s' ∧ tr = [] := by
  generalize hq : Prog.ret a = q at h
  generalize ho : Outcome.done b = o at h
  induction h with
  | ret => cases hq; cases ho; exact ⟨rfl, .refl, rfl⟩
  | crash | halt => cases ho
  | env he _ ih =>
    obtain ⟨e, hs, ht⟩ := ih hq ho
    exact ⟨e, hs.head he, ht⟩
  | call => cases hq

theorem crash_done {msg : String} {a : α} (h : Exec W (.crash msg) s tr (.done a) s') : False := by
  generalize hq : Prog.crash msg = q at h
  generalize ho : Outcome.done a = o at h
  induction h with
  | ret | call => cases hq
  | crash | halt => cases ho
  | env _ _ ih => exact ih hq ho

/-- An execution of a call: the other actors act, and it stops, or the call is answered and the
program goes on with the reply. -/
theorem call_cases {op : S.Op} {k : S.Reply op → Prog S α} {o : Outcome α}
    (h : Exec W (.call op k) s tr o s') :
    (o = .halted ∧ tr = [] ∧ Relation.ReflTransGen W.env s s') ∨
      ∃ s₁ r s₂ tr', Relation.ReflTransGen W.env s s₁ ∧ W.answer s₁ op r s₂ ∧
        Exec W (k r) s₂ tr' o s' ∧ tr = ⟨s₁, op, r⟩ :: tr' := by
  generalize hq : Prog.call op k = q at h
  induction h with
  | ret | crash => cases hq
  | halt => exact .inl ⟨rfl, rfl, .refl⟩
  | env he _ ih =>
    rcases ih hq with ⟨ho, ht, hs⟩ | ⟨s₁, r, s₂, tr', hs, rest⟩
    · exact .inl ⟨ho, ht, hs.head he⟩
    · exact .inr ⟨s₁, r, s₂, tr', hs.head he, rest⟩
  | call ha hk =>
    cases hq
    exact .inr ⟨_, _, _, _, .refl, ha, hk, rfl⟩

theorem call_done {op : S.Op} {k : S.Reply op → Prog S α} {a : α}
    (h : Exec W (.call op k) s tr (.done a) s') :
    ∃ s₁ r s₂ tr', Relation.ReflTransGen W.env s s₁ ∧ W.answer s₁ op r s₂ ∧
      Exec W (k r) s₂ tr' (.done a) s' ∧ tr = ⟨s₁, op, r⟩ :: tr' :=
  h.call_cases.resolve_left fun h => nomatch h.1

theorem ret_trace {a : α} {o : Outcome α} (h : Exec W (.ret a) s tr o s') : tr = [] := by
  generalize hq : Prog.ret a = q at h
  induction h with
  | ret | crash | halt => rfl
  | env _ _ ih => exact ih hq
  | call => cases hq

/-- The world answered each call of an execution. -/
theorem answered {o : Outcome α} (h : Exec W p s tr o s') :
    ∀ e ∈ tr, ∃ s₁, W.answer e.state e.op e.reply s₁ := by
  induction h with
  | ret | crash | halt => simp
  | env _ _ ih => exact ih
  | call ha _ ih => exact List.forall_mem_cons.mpr ⟨⟨_, ha⟩, ih⟩

/-- An execution in another world that allows the answers of its trace. -/
theorem mono_trace {W' : World S σ} {o : Outcome α} (ok : Event S σ → Prop) (h : Exec W p s tr o s')
    (henv : ∀ s s', W.env s s' → W'.env s s')
    (hans : ∀ s op r s', ok ⟨s, op, r⟩ → W.answer s op r s' → W'.answer s op r s')
    (htr : ∀ e ∈ tr, ok e) : Exec W' p s tr o s' := by
  induction h with
  | ret a s => exact .ret a s
  | crash msg s => exact .crash msg s
  | halt p s => exact .halt p s
  | env he _ ih => exact .env (henv _ _ he) (ih htr)
  | call ha _ ih =>
    obtain ⟨hok, hrest⟩ := List.forall_mem_cons.mp htr
    exact .call (hans _ _ _ _ hok ha) (ih hrest)

/-- A world that allows more has more executions. -/
theorem mono {W' : World S σ} {o : Outcome α} (h : Exec W p s tr o s')
    (henv : ∀ s s', W.env s s' → W'.env s s')
    (hans : ∀ s op r s', W.answer s op r s' → W'.answer s op r s') : Exec W' p s tr o s' :=
  h.mono_trace (fun _ => True) henv (fun s op r s' _ => hans s op r s') fun _ _ => trivial

/-- In a world without a state the replies are all that matters. -/
theorem forget {W' : World S Unit} {o : Outcome α} (h : Exec W p s tr o s')
    (hans : ∀ e ∈ tr, W'.answer () e.op e.reply ()) :
    Exec W' p () (tr.map Event.forget) o () := by
  induction h with
  | ret a => exact .ret a ()
  | crash msg => exact .crash msg ()
  | halt p => exact .halt p ()
  | env _ _ ih => exact ih hans
  | call _ _ ih =>
    obtain ⟨hcall, hrest⟩ := List.forall_mem_cons.mp hans
    exact .call hcall (ih hrest)

/-- An execution of `p >>= f` goes through the result of `p`, or `p` does not return. -/
theorem bind_cases {o : Outcome β} (h : Exec W (p >>= f) s tr o s') :
    (∃ a s₁ tr₁ tr₂, tr = tr₁ ++ tr₂ ∧ Exec W p s tr₁ (.done a) s₁ ∧ Exec W (f a) s₁ tr₂ o s') ∨
    (∃ msg, o = .crashed msg ∧ Exec W p s tr (.crashed msg) s') ∨
    (o = .halted ∧ Exec W p s tr .halted s') := by
  generalize hq : p >>= f = q at h
  induction h generalizing p with
  | ret b s =>
    cases p with
    | ret a =>
      refine .inl ⟨a, s, [], [], rfl, .ret a s, ?_⟩
      rw [← Prog.ret_bind a f, hq]
      exact .ret b s
    | crash => cases hq
    | call => cases hq
  | crash msg s =>
    cases p with
    | ret a =>
      refine .inl ⟨a, s, [], [], rfl, .ret a s, ?_⟩
      rw [← Prog.ret_bind a f, hq]
      exact .crash msg s
    | crash => cases hq; exact .inr (.inl ⟨msg, rfl, .crash msg s⟩)
    | call => cases hq
  | halt q s => exact .inr (.inr ⟨rfl, .halt p s⟩)
  | env he _ ih =>
    rcases ih hq with ⟨a, s₁, tr₁, tr₂, e, h₁, h₂⟩ | ⟨msg, e, h₁⟩ | ⟨e, h₁⟩
    · exact .inl ⟨a, s₁, tr₁, tr₂, e, .env he h₁, h₂⟩
    · exact .inr (.inl ⟨msg, e, .env he h₁⟩)
    · exact .inr (.inr ⟨e, .env he h₁⟩)
  | @call op k s s₂ s' r tr o ha hk ih =>
    cases p with
    | ret a =>
      refine .inl ⟨a, s, [], _, rfl, .ret a s, ?_⟩
      rw [← Prog.ret_bind a f, hq]
      exact .call ha hk
    | crash => cases hq
    | call op' k' =>
      cases hq
      rcases ih rfl with ⟨a, s₁, tr₁, tr₂, e, h₁, h₂⟩ | ⟨msg, e, h₁⟩ | ⟨e, h₁⟩
      · exact .inl ⟨a, s₁, _, tr₂, by rw [e]; rfl, .call ha h₁, h₂⟩
      · exact .inr (.inl ⟨msg, e, .call ha h₁⟩)
      · exact .inr (.inr ⟨e, .call ha h₁⟩)

/-- An execution of `p >>= f` that returns goes through the result of `p`. -/
theorem bind_done {b : β} (h : Exec W (p >>= f) s tr (.done b) s') :
    ∃ a s₁ tr₁ tr₂, tr = tr₁ ++ tr₂ ∧ Exec W p s tr₁ (.done a) s₁ ∧
      Exec W (f a) s₁ tr₂ (.done b) s' := by
  rcases bind_cases h with h | ⟨_, e, _⟩ | ⟨e, _⟩
  · exact h
  · cases e
  · cases e

/-- An execution of `p >>= f` is one of `p`, which may be followed by one of `f`. -/
theorem bind_split {o : Outcome β} (h : Exec W (p >>= f) s tr o s') :
    ∃ tr₁ tr₂ o₁ s₁, tr = tr₁ ++ tr₂ ∧ Exec W p s tr₁ o₁ s₁ ∧
      (tr₂ = [] ∨ ∃ a, o₁ = .done a ∧ Exec W (f a) s₁ tr₂ o s') := by
  rcases bind_cases h with ⟨a, s₁, tr₁, tr₂, rfl, h₁, h₂⟩ | ⟨msg, rfl, h₁⟩ | ⟨rfl, h₁⟩
  · exact ⟨tr₁, tr₂, _, s₁, rfl, h₁, .inr ⟨a, rfl, h₂⟩⟩
  · exact ⟨tr, [], _, s', (List.append_nil tr).symm, h₁, .inl rfl⟩
  · exact ⟨tr, [], _, s', (List.append_nil tr).symm, h₁, .inl rfl⟩

/-- A bind whose second part makes no call. -/
theorem bind_trace {o : Outcome β} (h : Exec W (p >>= f) s tr o s') (hf : ∀ a, ∃ b, f a = .ret b) :
    ∃ o₁ s₁, Exec W p s tr o₁ s₁ := by
  obtain ⟨tr₁, tr₂, o₁, s₁, rfl, h₁, h₂⟩ := h.bind_split
  have hnil : tr₂ = [] := by
    rcases h₂ with h₂ | ⟨a, -, h₂⟩
    · exact h₂
    · obtain ⟨b, hb⟩ := hf a
      rw [hb] at h₂
      exact h₂.ret_trace
  rw [hnil, List.append_nil]
  exact ⟨o₁, s₁, h₁⟩

end Exec

/-- Other actors keep `P`. -/
def Stable (W : World S σ) (P : σ → Prop) : Prop := ∀ s s', P s → W.env s s' → P s'

/-! ## The calls a program can make -/

/-- `Obeys rely ok p Q` (module doc). -/
def Obeys (rely : (op : S.Op) → S.Reply op → Prop) (ok : S.Op → Prop) :
    Prog S α → (α → Prop) → Prop
  | .ret a, Q => Q a
  | .crash _, _ => True
  | .call op k, Q => ok op ∧ ∀ r, rely op r → Obeys rely ok (k r) Q

/-- Whatever the replies, the calls of the program are in `ok`. -/
abbrev Uses (ok : S.Op → Prop) (p : Prog S α) : Prop :=
  Obeys (fun _ _ => True) ok p fun _ => True

namespace Obeys

variable {rely rely' : (op : S.Op) → S.Reply op → Prop} {ok ok' : S.Op → Prop} {p : Prog S α}
  {Q Q' : α → Prop} {W : World S σ} {I : σ → Prop}

theorem bind {f : α → Prog S β} {R : β → Prop} (hp : Obeys rely ok p Q)
    (hf : ∀ a, Q a → Obeys rely ok (f a) R) : Obeys rely ok (p >>= f) R := by
  induction p with
  | ret a => exact hf a hp
  | crash msg => trivial
  | call op k ih => exact ⟨hp.1, fun r hr => ih r (hp.2 r hr)⟩

/-- Better replies, more calls and more results. -/
theorem mono (h : Obeys rely ok p Q) (hr : ∀ op r, rely' op r → rely op r)
    (hok : ∀ op, ok op → ok' op) (hQ : ∀ a, Q a → Q' a) : Obeys rely' ok' p Q' := by
  induction p with
  | ret a => exact hQ a h
  | crash => trivial
  | call op k ih => exact ⟨hok _ h.1, fun r hr' => ih r (h.2 r (hr _ _ hr'))⟩

theorem and (h : Obeys rely ok p Q) (h' : Obeys rely ok' p Q') :
    Obeys rely (fun op => ok op ∧ ok' op) p fun a => Q a ∧ Q' a := by
  induction p with
  | ret a => exact ⟨h, h'⟩
  | crash => trivial
  | call op k ih => exact ⟨⟨h.1, h'.1⟩, fun r hr => ih r (h.2 r hr) (h'.2 r hr)⟩

/-- An assertion that the other actors keep, and that the calls in `ok` keep and answer with a
reply in `rely`, holds throughout. -/
theorem invariant (hu : Obeys rely ok p Q) (hI : Stable W I)
    (ha : ∀ s op r s', I s → ok op → W.answer s op r s' → rely op r ∧ I s') {s s' : σ}
    {tr : List (Event S σ)} {o : Outcome α} (he : Exec W p s tr o s') (hs : I s) :
    I s' ∧ (∀ e ∈ tr, I e.state ∧ ok e.op) ∧ ∀ a, o = .done a → Q a := by
  induction he with
  | ret a => exact ⟨hs, by simp, fun b e => by cases e; exact hu⟩
  | crash | halt => exact ⟨hs, by simp, by simp⟩
  | env hw _ ih => exact ih hu (hI _ _ hs hw)
  | call hans _ ih =>
    obtain ⟨hok, hk⟩ := hu
    obtain ⟨hr, hs'⟩ := ha _ _ _ _ hs hok hans
    obtain ⟨h₁, h₂, h₃⟩ := ih (hk _ hr) hs'
    refine ⟨h₁, fun e he => ?_, h₃⟩
    rcases List.mem_cons.mp he with rfl | he
    · exact ⟨hs, hok⟩
    · exact h₂ e he

/-- An assertion that nobody takes away: if it holds at a call, it holds at the end. -/
theorem persists (hu : Obeys rely ok p Q) (hI : Stable W I)
    (ha : ∀ s op r s', ok op → W.answer s op r s' → rely op r ∧ (I s → I s')) {s s' : σ}
    {tr : List (Event S σ)} {o : Outcome α} (he : Exec W p s tr o s') :
    (I s → I s') ∧ ∀ e ∈ tr, I e.state → I s' := by
  induction he with
  | ret | crash | halt => exact ⟨id, by simp⟩
  | env hw _ ih =>
    obtain ⟨h₁, h₂⟩ := ih hu
    exact ⟨fun hs => h₁ (hI _ _ hs hw), h₂⟩
  | call hans _ ih =>
    obtain ⟨hok, hk⟩ := hu
    obtain ⟨hr, hs'⟩ := ha _ _ _ _ hok hans
    obtain ⟨h₁, h₂⟩ := ih (hk _ hr)
    exact ⟨fun hs => h₁ (hs' hs), List.forall_mem_cons.mpr ⟨fun hs => h₁ (hs' hs), h₂⟩⟩

end Obeys

namespace Uses

variable {ok ok' : S.Op → Prop} {p : Prog S α}

theorem bind {f : α → Prog S β} (hp : Uses ok p) (hf : ∀ a, Uses ok (f a)) :
    Uses ok (p >>= f) :=
  Obeys.bind hp fun a _ => hf a

theorem mono (h : Uses ok p) (hok : ∀ op, ok op → ok' op) : Uses ok' p :=
  Obeys.mono h (fun _ _ h => h) hok fun _ h => h

/-- The calls of an execution. -/
theorem events {W : World S σ} (h : Uses ok p) {s s' : σ} {tr : List (Event S σ)} {o : Outcome α}
    (he : Exec W p s tr o s') : ∀ e ∈ tr, ok e.op := by
  have hI : Stable W fun _ => True := fun _ _ _ _ => trivial
  intro e hm
  exact ((h.invariant hI (fun _ _ _ _ _ _ _ => ⟨trivial, trivial⟩) he trivial).2.1 e hm).2

end Uses

/-! ## Runs in a world that is a function -/

/-- A run: its calls, its outcome and the state it leaves. -/
structure Ran (S : Sig) (σ α : Type) where
  trace : List (Event S σ)
  outcome : Outcome α
  final : σ

/-- The run of a program whose calls `h` answers. -/
def run (h : σ → (op : S.Op) → S.Reply op × σ) : Prog S α → σ → Ran S σ α
  | .ret a, s => ⟨[], .done a, s⟩
  | .crash msg, s => ⟨[], .crashed msg, s⟩
  | .call op k, s =>
    let (r, s₁) := h s op
    let rest := run h (k r) s₁
    ⟨⟨s, op, r⟩ :: rest.trace, rest.outcome, rest.final⟩

section Run

variable {h : σ → (op : S.Op) → S.Reply op × σ} {s : σ}

@[simp] theorem run_ret (a : α) : run h (.ret a) s = ⟨[], .done a, s⟩ := rfl

@[simp] theorem run_crash (msg : String) :
    run h (.crash msg : Prog S α) s = ⟨[], .crashed msg, s⟩ := rfl

theorem run_call (op : S.Op) (k : S.Reply op → Prog S α) :
    run h (.call op k) s = ⟨⟨s, op, (h s op).1⟩ :: (run h (k (h s op).1) (h s op).2).trace,
      (run h (k (h s op).1) (h s op).2).outcome, (run h (k (h s op).1) (h s op).2).final⟩ := rfl

/-- A run does not stop before its end. -/
theorem run_ne_halted (p : Prog S α) (s : σ) : (run h p s).outcome ≠ .halted := by
  induction p generalizing s with
  | ret | crash => simp
  | call op k ih => exact ih _ _

/-- The events of a run have the answers of `h`. -/
theorem reply_of_run {p : Prog S α} {e : Event S σ} (he : e ∈ (run h p s).trace) :
    e.reply = (h e.state e.op).1 := by
  induction p generalizing s with
  | ret | crash => simp at he
  | call op k ih =>
    rcases List.mem_cons.mp he with rfl | he
    · rfl
    · exact ih _ he

/-- The run of `p >>= f` when `p` returns. -/
theorem run_bind_done {p : Prog S α} {f : α → Prog S β} {a : α}
    (hp : (run h p s).outcome = .done a) :
    run h (p >>= f) s = ⟨(run h p s).trace ++ (run h (f a) (run h p s).final).trace,
      (run h (f a) (run h p s).final).outcome, (run h (f a) (run h p s).final).final⟩ := by
  induction p generalizing s with
  | ret b => cases hp; rfl
  | crash => cases hp
  | call op k ih =>
    have hk := ih (h s op).1 (s := (h s op).2) hp
    rw [Prog.call_bind, run_call, hk]
    rfl

/-- What the calls in `ok` keep, a run of a program that uses only these keeps. -/
theorem Uses.run {ok : S.Op → Prop} {p : Prog S α} (hu : Uses ok p) {I : σ → Prop}
    (hI : ∀ s op, I s → ok op → I (h s op).2) (hs : I s) :
    I (run h p s).final ∧ ∀ e ∈ (run h p s).trace, ok e.op := by
  induction p generalizing s with
  | ret | crash => exact ⟨hs, by simp⟩
  | call op k ih =>
    obtain ⟨hok, hk⟩ := hu
    obtain ⟨h₁, h₂⟩ := ih _ (hk (h s op).1 trivial) (hI s op hs hok)
    rw [run_call]
    exact ⟨h₁, by simpa using ⟨hok, h₂⟩⟩

/-- A run is an execution in every world that allows the answers of `h`. -/
theorem Exec.of_run {W : World S σ} (hW : ∀ s op, W.answer s op (h s op).1 (h s op).2)
    (p : Prog S α) (s : σ) :
    Exec W p s (run h p s).trace (run h p s).outcome (run h p s).final := by
  induction p generalizing s with
  | ret a => exact .ret a s
  | crash msg => exact .crash msg s
  | call op k ih => exact .call (hW s op) (ih _ _)

end Run

end Effect
