import Automium.Effect.Crash
import Automium.Effect.Pool
import Automium.Effect.Sum
import Automium.Effect.Triple

/-!
# Programs that keep an invariant

`Preserves W I p Q`: if the replies to the calls of `p` come from states in `I`, then its calls keep
`I`, and its result is in `Q`. The replies may come from different states, so this is a property
of `p` alone: it holds however others that keep `I` interfere (`Preserves.exec`), and also when many
such programs run at the same time (`Preserves.pool`).

`Leaves W s p Q`: from `s`, `p` leaves a state in `Q` however it ends, if it is not stopped.
-/

namespace Effect

variable {S T : Sig} {σ α β : Type} {W : World S σ} {I : σ → Prop} {p : Prog S α} {Q Q' : α → Prop}

/-- The reply may have come from a state in `I`. -/
def World.Heard (W : World S σ) (I : σ → Prop) (op : S.Op) (r : S.Reply op) : Prop :=
  ∃ s s', I s ∧ W.answer s op r s'

/-- The call keeps `I`. -/
def World.Keeps (W : World S σ) (I : σ → Prop) (op : S.Op) : Prop :=
  ∀ s r s', I s → W.answer s op r s' → I s'

/-- The judgement (module doc). -/
abbrev Preserves (W : World S σ) (I : σ → Prop) (p : Prog S α) (Q : α → Prop) : Prop :=
  Obeys (W.Heard I) (W.Keeps I) p Q

namespace Preserves

/-- The program and the others keep the invariant. -/
theorem exec (h : Preserves W I p Q) (hI : Stable W I) {s s' : σ} {tr : List (Event S σ)}
    {o : Outcome α} (he : Exec W p s tr o s') (hs : I s) : I s' ∧ ∀ a, o = .done a → Q a := by
  have hinv := h.invariant hI (fun s op r s' hs hop ha => ⟨⟨s, s', hs, ha⟩, hop s r s' hs ha⟩) he hs
  exact ⟨hinv.1, hinv.2.2⟩

/-- Programs that run at the same time keep it. -/
theorem pool {starts : Prog S α → Prop} {init : σ → Prop} (hI : Stable W I)
    (hstart : ∀ p, starts p → Preserves W I p fun _ => True) (hinit : ∀ s, init s → I s)
    {ts : List (Trans (Pool S σ α) Pool.Move)} {p : Pool S σ α}
    (h : Run (Pool.sys W starts init) ts p) : I p.state :=
  Pool.invariant hI (fun s _ r s' hs hop ha => ⟨⟨s, s', hs, ha⟩, hop s r s' hs ha⟩) hstart hinit h

/-- A program that is lifted to a world with another service. -/
theorem inl {W' : World (S.sum T) σ} (h : Preserves W I p Q)
    (hW : ∀ s op r s', W'.answer s (.inl op) r s' ↔ W.answer s op r s') :
    Preserves W' I p.inl Q := by
  refine Obeys.inl (h.mono ?_ (fun _ hop s r s' hs ha => ?_) fun _ h => h)
  · rintro op r ⟨s, s', hs, ha⟩
    exact ⟨s, s', hs, (hW s op r s').mp ha⟩
  · exact hop s r s' hs ((hW _ _ _ _).mp ha)

end Preserves

/-! ## What is left at the end -/

/-- The judgement (module doc). -/
def Leaves (W : World S σ) (s : σ) (p : Prog S α) (Q : σ → Prop) : Prop :=
  ∀ ⦃tr o s'⦄, Exec W p s tr o s' → o ≠ .halted → Q s'

namespace Leaves

variable {s : σ} {P : σ → Prop} {R : α → σ → Prop}

theorem ret (hW : W.Closed) {a : α} (h : P s) : Leaves W s (.ret a) P := by
  intro tr o s' he _
  obtain ⟨-, rfl⟩ := hW.ret_cases he
  exact h

/-- A program that returns, and then another one. -/
theorem bind {f : α → Prog S β} (hp : Yields W s p R)
    (hf : ∀ a s₁, R a s₁ → Leaves W s₁ (f a) P) : Leaves W s (p >>= f) P := by
  intro tr o s' he ho
  rcases he.bind_cases with ⟨a, s₁, tr₁, tr₂, -, h₁, h₂⟩ | ⟨msg, rfl, h₁⟩ | ⟨rfl, -⟩
  · obtain ⟨b, hb, hR⟩ := hp h₁ nofun
    cases hb
    exact hf _ _ hR h₂ ho
  · obtain ⟨b, hb, -⟩ := hp h₁ nofun
    cases hb
  · exact absurd rfl ho

theorem call (hW : W.Closed) {op : S.Op} {k : S.Reply op → Prog S α}
    (h : ∀ r s₁, W.answer s op r s₁ → Leaves W s₁ (k r) P) : Leaves W s (.call op k) P := by
  intro tr o s' he ho
  cases he with
  | halt => exact absurd rfl ho
  | env hw => exact (hW _ _ hw).elim
  | call ha hk => exact h _ _ ha hk ho

/-- What all calls of the program keep. -/
theorem of_uses {ok : S.Op → Prop} (hu : Uses ok p) (hW : W.Closed)
    (hok : ∀ op, ok op → W.Keeps P op) (hs : P s) : Leaves W s p P := by
  intro tr o s' he _
  have hP : Stable W P := fun s s' _ he => (hW s s' he).elim
  have hp : Preserves W P p fun _ => True :=
    Obeys.mono hu (fun _ _ _ => trivial) hok fun _ h => h
  exact (hp.exec hP he hs).1

end Leaves

end Effect
