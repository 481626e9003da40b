import Automium.Effect.Exec

/-!
# Assertions before and after a program

`Triple W P p Q`: an execution of `p` from a state in `P` ends in a state in `Q`, which also says
how it ends. An unfinished execution has the outcome `halted`, so `Q` speaks about these too. The
rules follow the program: `ret`, `call` and `bind`. The assertion before a call has to be one that
the other actors keep.

`Yields W s p Q`: from the state `s`, `p` returns with a result and a state in `Q` if it is not
stopped. It is for worlds in which nobody else acts (`World.Closed`). In `Emits`, `Q` also speaks of
the calls.
-/

namespace Effect

variable {S : Sig} {σ α β : Type}

/-- The judgement (module doc). -/
def Triple (W : World S σ) (P : σ → Prop) (p : Prog S α) (Q : Outcome α → σ → Prop) : Prop :=
  ∀ ⦃s tr o s'⦄, P s → Exec W p s tr o s' → Q o s'

/-- What the other actors keep, they keep however often they act. -/
theorem Stable.star {W : World S σ} {P : σ → Prop} (h : Stable W P) {s s' : σ}
    (hs : Relation.ReflTransGen W.env s s') (hP : P s) : P s' := by
  induction hs with
  | refl => exact hP
  | tail _ he ih => exact h _ _ ih he

namespace Triple

variable {W : World S σ} {P P' : σ → Prop} {p : Prog S α} {Q Q' : Outcome α → σ → Prop}

theorem ret {a : α} (hP : Stable W P) (hQ : ∀ s, P s → Q (.done a) s ∧ Q .halted s) :
    Triple W P (.ret a) Q := by
  intro s tr o s' hs he
  generalize hp : Prog.ret a = p at he
  induction he with
  | ret => cases hp; exact (hQ _ hs).1
  | halt => exact (hQ _ hs).2
  | env hw _ ih => exact ih (hP _ _ hs hw) hp
  | crash | call => cases hp

theorem call {op : S.Op} {k : S.Reply op → Prog S α} {R : S.Reply op → σ → Prop}
    (hP : Stable W P) (hQ : ∀ s, P s → Q .halted s)
    (ha : ∀ s r s', P s → W.answer s op r s' → R r s') (hk : ∀ r, Triple W (R r) (k r) Q) :
    Triple W P (.call op k) Q := by
  intro s tr o s' hs he
  rcases he.call_cases with ⟨rfl, -, henv⟩ | ⟨s₁, r, s₂, tr', henv, hans, hrest, -⟩
  · exact hQ _ (hP.star henv hs)
  · exact hk r (ha _ _ _ (hP.star henv hs) hans) hrest

/-- A program that does not return `a` ends as `p >>= f` does. -/
theorem bind {f : α → Prog S β} {R : Outcome β → σ → Prop} (hp : Triple W P p Q)
    (hf : ∀ a, Triple W (Q (.done a)) (f a) R) (hc : ∀ msg s, Q (.crashed msg) s → R (.crashed msg) s)
    (hh : ∀ s, Q .halted s → R .halted s) : Triple W P (p >>= f) R := by
  intro s tr o s' hs he
  rcases he.bind_cases with ⟨a, s₁, tr₁, tr₂, -, h₁, h₂⟩ | ⟨msg, rfl, h₁⟩ | ⟨rfl, h₁⟩
  · exact hf a (hp hs h₁) h₂
  · exact hc _ _ (hp hs h₁)
  · exact hh _ (hp hs h₁)

theorem mono (h : Triple W P p Q) (hP : ∀ s, P' s → P s) (hQ : ∀ o s, Q o s → Q' o s) :
    Triple W P' p Q' :=
  fun _ _ _ _ hs he => hQ _ _ (h (hP _ hs) he)

/-- What the calls of a program keep, the program keeps. -/
theorem of_obeys {rely : (op : S.Op) → S.Reply op → Prop} {ok : S.Op → Prop} {R : α → Prop}
    (hu : Obeys rely ok p R) (hP : Stable W P)
    (ha : ∀ s op r s', P s → ok op → W.answer s op r s' → rely op r ∧ P s') :
    Triple W P p fun _ => P :=
  fun _ _ _ _ hs he => (hu.invariant hP ha he hs).1

end Triple

/-! ## Programs that return -/

/-- The judgement (module doc). -/
def Yields (W : World S σ) (s : σ) (p : Prog S α) (Q : α → σ → Prop) : Prop :=
  ∀ ⦃tr o s'⦄, Exec W p s tr o s' → o ≠ .halted → ∃ a, o = .done a ∧ Q a s'

/-- Nobody else acts. -/
def World.Closed (W : World S σ) : Prop := ∀ s s', ¬ W.env s s'

theorem World.Closed.star_eq {W : World S σ} (hW : W.Closed) {s s' : σ}
    (h : Relation.ReflTransGen W.env s s') : s' = s := by
  rcases h.cases_head with he | ⟨s₁, hs, -⟩
  · exact he.symm
  · exact (hW _ _ hs).elim

theorem World.Closed.call_cases {W : World S σ} (hW : W.Closed) {op : S.Op}
    {k : S.Reply op → Prog S α} {s s' : σ} {tr : List (Event S σ)} {o : Outcome α}
    (h : Exec W (.call op k) s tr o s') :
    (tr = [] ∧ s' = s) ∨
      ∃ r s₁ tr', W.answer s op r s₁ ∧ Exec W (k r) s₁ tr' o s' ∧ tr = ⟨s, op, r⟩ :: tr' := by
  rcases h.call_cases with ⟨-, htr, henv⟩ | ⟨s₀, r, s₁, tr', henv, ha, hk, htr⟩
  · exact .inl ⟨htr, hW.star_eq henv⟩
  · obtain rfl := hW.star_eq henv
    exact .inr ⟨r, s₁, tr', ha, hk, htr⟩

theorem World.Closed.ret_cases {W : World S σ} (hW : W.Closed) {a : α} {s s' : σ}
    {tr : List (Event S σ)} {o : Outcome α} (h : Exec W (.ret a) s tr o s') :
    tr = [] ∧ s' = s := by
  cases h with
  | ret | halt => exact ⟨rfl, rfl⟩
  | env he => exact (hW _ _ he).elim

theorem World.Closed.crash_cases {W : World S σ} (hW : W.Closed) {msg : String} {s s' : σ}
    {tr : List (Event S σ)} {o : Outcome α} (h : Exec W (.crash msg : Prog S α) s tr o s') :
    tr = [] ∧ s' = s := by
  cases h with
  | crash | halt => exact ⟨rfl, rfl⟩
  | env he => exact (hW _ _ he).elim

namespace Yields

variable {W : World S σ} {s s₁ : σ} {p : Prog S α} {Q Q' : α → σ → Prop}

theorem ret (hW : W.Closed) {a : α} (h : Q a s) : Yields W s (.ret a) Q := by
  intro tr o s' he ho
  cases he with
  | ret => exact ⟨a, rfl, h⟩
  | halt => exact absurd rfl ho
  | env hw => exact (hW _ _ hw).elim

theorem call (hW : W.Closed) {op : S.Op} {k : S.Reply op → Prog S α}
    (h : ∀ r s₁, W.answer s op r s₁ → Yields W s₁ (k r) Q) : Yields W s (.call op k) Q := by
  intro tr o s' he ho
  cases he with
  | halt => exact absurd rfl ho
  | env hw => exact (hW _ _ hw).elim
  | call ha hk => exact h _ _ ha hk ho

theorem of_ret {a : α} (h : Yields W s (.ret a) Q) : Q a s := by
  obtain ⟨b, hb, hQ⟩ := h (.ret a s) nofun
  cases hb
  exact hQ

/-- What is left of a program after a call. -/
theorem of_call {op : S.Op} {k : S.Reply op → Prog S α} (h : Yields W s (.call op k) Q)
    {r : S.Reply op} (ha : W.answer s op r s₁) : Yields W s₁ (k r) Q :=
  fun _ _ _ he ho => h (.call ha he) ho

theorem bind {f : α → Prog S β} {R : β → σ → Prop} (hp : Yields W s p Q)
    (hf : ∀ a s₁, Q a s₁ → Yields W s₁ (f a) R) : Yields W s (p >>= f) R := by
  intro tr o s' he ho
  rcases he.bind_cases with ⟨a, s₁, tr₁, tr₂, -, h₁, h₂⟩ | ⟨msg, rfl, h₁⟩ | ⟨rfl, -⟩
  · obtain ⟨b, hb, hQ⟩ := hp h₁ nofun
    cases hb
    exact hf _ _ hQ h₂ ho
  · obtain ⟨b, hb, -⟩ := hp h₁ nofun
    cases hb
  · exact absurd rfl ho

theorem mono (h : Yields W s p Q) (hQ : ∀ a s, Q a s → Q' a s) : Yields W s p Q' := by
  intro tr o s' he ho
  obtain ⟨a, ha, h⟩ := h he ho
  exact ⟨a, ha, hQ _ _ h⟩

/-- A run is one of the executions. -/
theorem run (h : Yields W s p Q) {f : σ → (op : S.Op) → S.Reply op × σ}
    (hf : ∀ s op, W.answer s op (f s op).1 (f s op).2) :
    ∃ a, (Effect.run f p s).outcome = .done a ∧ Q a (Effect.run f p s).final :=
  h (Exec.of_run hf p s) (run_ne_halted p s)

end Yields

/-! ## With the calls -/

/-- The judgement (module doc). -/
def Emits (W : World S σ) (s : σ) (p : Prog S α) (Q : α → σ → List (Event S σ) → Prop) : Prop :=
  ∀ ⦃tr o s'⦄, Exec W p s tr o s' → o ≠ .halted → ∃ a, o = .done a ∧ Q a s' tr

namespace Emits

variable {W : World S σ} {s : σ} {p : Prog S α} {Q : α → σ → List (Event S σ) → Prop}

theorem ret (hW : W.Closed) {a : α} (h : Q a s []) : Emits W s (.ret a) Q := by
  intro tr o s' he ho
  cases he with
  | ret => exact ⟨a, rfl, h⟩
  | halt => exact absurd rfl ho
  | env hw => exact (hW _ _ hw).elim

theorem call (hW : W.Closed) {op : S.Op} {k : S.Reply op → Prog S α}
    (h : ∀ r s₁, W.answer s op r s₁ →
      Emits W s₁ (k r) fun a s' tr => Q a s' (⟨s, op, r⟩ :: tr)) : Emits W s (.call op k) Q := by
  intro tr o s' he ho
  cases he with
  | halt => exact absurd rfl ho
  | env hw => exact (hW _ _ hw).elim
  | call ha hk => exact h _ _ ha hk ho

theorem bind {f : α → Prog S β} {R : β → σ → List (Event S σ) → Prop} (hp : Emits W s p Q)
    (hf : ∀ a s₁ tr₁, Q a s₁ tr₁ → Emits W s₁ (f a) fun b s' tr => R b s' (tr₁ ++ tr)) :
    Emits W s (p >>= f) R := by
  intro tr o s' he ho
  rcases he.bind_cases with ⟨a, s₁, tr₁, tr₂, rfl, h₁, h₂⟩ | ⟨msg, rfl, h₁⟩ | ⟨rfl, -⟩
  · obtain ⟨b, hb, hQ⟩ := hp h₁ nofun
    cases hb
    exact hf _ _ _ hQ h₂ ho
  · obtain ⟨b, hb, -⟩ := hp h₁ nofun
    cases hb
  · exact absurd rfl ho

end Emits

end Effect
