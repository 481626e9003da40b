import Automium.Effect.Triple

/-!
# Programs that crash

`Crashes W s p`: some execution of `p` from the state `s` ends in a run-time error. In a world in
which nobody else acts, a rule for each construct says exactly when that is so. `NoCrash p` says
that no path of `p` leads to a run-time error, whatever the replies are.
-/

namespace Effect

variable {S : Sig} {σ α β : Type}

/-- The judgement (module doc). -/
def Crashes (W : World S σ) (s : σ) (p : Prog S α) : Prop :=
  ∃ tr msg s', Exec W p s tr (.crashed msg) s'

/-- No path ends in a run-time error. -/
def NoCrash : Prog S α → Prop
  | .ret _ => True
  | .crash _ => False
  | .call _ k => ∀ r, NoCrash (k r)

theorem NoCrash.bind {p : Prog S α} {f : α → Prog S β} (hp : NoCrash p) (hf : ∀ a, NoCrash (f a)) :
    NoCrash (p >>= f) := by
  induction p with
  | ret a => exact hf a
  | crash => exact hp.elim
  | call op k ih => exact fun r => ih r (hp r)

/-- An execution of `p` that returns, and one of `f` with the result. -/
theorem Exec.bind {W : World S σ} {p : Prog S α} {f : α → Prog S β} {s s₁ s' : σ}
    {tr tr' : List (Event S σ)} {a : α} {o : Outcome β} (hp : Exec W p s tr (.done a) s₁)
    (hf : Exec W (f a) s₁ tr' o s') : Exec W (p >>= f) s (tr ++ tr') o s' := by
  generalize ho : Outcome.done a = out at hp
  induction hp with
  | ret => cases ho; exact hf
  | crash | halt => cases ho
  | env he _ ih => exact .env he (ih hf ho)
  | call ha _ ih => exact .call ha (ih hf ho)

namespace Crashes

variable {W : World S σ} {s : σ} {p : Prog S α} {f : α → Prog S β}

theorem not_of_noCrash (h : NoCrash p) : ¬ Crashes W s p := by
  rintro ⟨tr, msg, s', he⟩
  generalize ho : Outcome.crashed msg = out at he
  induction he with
  | ret | halt => cases ho
  | crash => exact h
  | env _ _ ih => exact ih h ho
  | call _ _ ih => exact ih (h _) ho

theorem ret (a : α) : ¬ Crashes W s (.ret a) := not_of_noCrash trivial

theorem crash (msg : String) : Crashes W s (.crash msg : Prog S α) := ⟨[], msg, s, .crash msg s⟩

/-- A call is answered, and the rest crashes. -/
theorem call_iff (hW : W.Closed) {op : S.Op} {k : S.Reply op → Prog S α} :
    Crashes W s (.call op k) ↔ ∃ r s₁, W.answer s op r s₁ ∧ Crashes W s₁ (k r) := by
  constructor
  · rintro ⟨tr, msg, s', he⟩
    rcases he.call_cases with ⟨ho, -⟩ | ⟨s₁, r, s₂, tr', henv, ha, hk, -⟩
    · cases ho
    · rw [hW.star_eq henv] at ha
      exact ⟨r, s₂, ha, tr', msg, s', hk⟩
  · rintro ⟨r, s₁, ha, tr, msg, s', hk⟩
    exact ⟨_, msg, s', .call ha hk⟩

/-- The first part crashes, or it returns and the second part crashes. -/
theorem bind_iff : Crashes W s (p >>= f) ↔
    Crashes W s p ∨ ∃ tr a s₁, Exec W p s tr (.done a) s₁ ∧ Crashes W s₁ (f a) := by
  constructor
  · rintro ⟨tr, msg, s', he⟩
    rcases he.bind_cases with ⟨a, s₁, tr₁, tr₂, -, h₁, h₂⟩ | ⟨msg', ho, h₁⟩ | ⟨ho, -⟩
    · exact .inr ⟨tr₁, a, s₁, h₁, tr₂, msg, s', h₂⟩
    · exact .inl ⟨tr, msg', s', h₁⟩
    · cases ho
  · rintro (⟨tr, msg, s', he⟩ | ⟨tr, a, s₁, he, tr', msg, s', hf⟩)
    · refine ⟨tr, msg, s', ?_⟩
      generalize ho : Outcome.crashed msg = out at he
      induction he with
      | ret | halt => cases ho
      | crash => cases ho; exact .crash msg _
      | env henv _ ih => exact .env henv (ih ho)
      | call ha _ ih => exact .call ha (ih ho)
    · exact ⟨_, msg, s', he.bind hf⟩

/-- Only the first part can crash. -/
theorem bind_of_noCrash (hf : ∀ a, NoCrash (f a)) : Crashes W s (p >>= f) ↔ Crashes W s p := by
  rw [bind_iff]
  refine or_iff_left ?_
  rintro ⟨tr, a, s₁, -, hcrash⟩
  exact not_of_noCrash (hf a) hcrash

end Crashes

end Effect
