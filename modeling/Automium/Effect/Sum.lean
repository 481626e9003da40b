import Automium.Effect.Exec

/-!
# Programs over two interfaces

A program may talk to two services at once. `Sig.sum S T` has the operations of both, and a
program that talks to the first only is lifted to it by `Prog.inl`. What the program calls is not
changed (`Obeys.inl`), and it runs as before (`run_inl`).
-/

namespace Effect

/-- The interface with the operations of `S` and of `T`. -/
abbrev Sig.sum (S T : Sig) : Sig where
  Op := S.Op ⊕ T.Op
  Reply
    | .inl op => S.Reply op
    | .inr op => T.Reply op

variable {S T : Sig} {σ α β : Type}

namespace Prog

/-- A program that uses the first interface only. -/
def inl : Prog S α → Prog (S.sum T) α
  | .ret a => .ret a
  | .crash msg => .crash msg
  | .call op k => .call (.inl op) fun r => (k r).inl

@[simp] theorem inl_ret (a : α) : (.ret a : Prog S α).inl = (.ret a : Prog (S.sum T) α) := rfl

@[simp] theorem inl_crash (msg : String) :
    (.crash msg : Prog S α).inl = (.crash msg : Prog (S.sum T) α) := rfl

@[simp] theorem inl_call (op : S.Op) (k : S.Reply op → Prog S α) :
    (Prog.call op k).inl = (.call (.inl op) fun r => (k r).inl : Prog (S.sum T) α) := rfl

end Prog

/-- What holds of the calls and replies of a program, holds of them after lifting. -/
theorem Obeys.inl {rely : (op : (S.sum T).Op) → (S.sum T).Reply op → Prop}
    {ok : (S.sum T).Op → Prop} {p : Prog S α} {Q : α → Prop}
    (h : Obeys (S := S) (fun op => rely (.inl op)) (fun op => ok (.inl op)) p Q) :
    Obeys rely ok p.inl Q := by
  induction p with
  | ret | crash => exact h
  | call op k ih => exact ⟨h.1, fun r hr => ih r (h.2 r hr)⟩

/-- A lifted program calls the first interface only. -/
theorem uses_inl (p : Prog S α) : Uses (fun op : (S.sum T).Op => ∃ op', op = .inl op') p.inl := by
  induction p with
  | ret | crash => trivial
  | call op k ih => exact ⟨⟨op, rfl⟩, fun r _ => ih r⟩

/-- An event of the first interface. -/
def Event.inl (e : Event S σ) : Event (S.sum T) σ := ⟨e.state, .inl e.op, e.reply⟩

/-- The run of a lifted program, whose calls are answered as before. -/
theorem run_inl {h : σ → (op : S.Op) → S.Reply op × σ}
    {h' : σ → (op : (S.sum T).Op) → (S.sum T).Reply op × σ} (hh : ∀ s op, h' s (.inl op) = h s op)
    (p : Prog S α) (s : σ) :
    run h' p.inl s = ⟨(run h p s).trace.map Event.inl, (run h p s).outcome, (run h p s).final⟩ := by
  induction p generalizing s with
  | ret | crash => rfl
  | call op k ih =>
    rw [Prog.inl_call, run_call, run_call, hh, ih]
    rfl

end Effect
