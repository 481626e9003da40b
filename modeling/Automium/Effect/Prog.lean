/-!
# Programs that call operations

A controller, a client or a worker computes, and from time to time it calls an operation of its
surroundings (a server, a clock, a queue) and goes on with the reply. `Prog S α` is such a
program over the interface `S`: a tree that returns, crashes, or calls one operation and has one
subtree for each possible reply. The program says nothing about what the operations do, so the
same program can be run against a server that never fails, a server that loses writes, or a
server whose state other actors change between two calls.
-/

namespace Effect

/-- An interface: the operations a program may call, and the type of the reply to each. -/
structure Sig where
  Op : Type
  Reply : Op → Type

/-- A program over the interface `S` that returns an `α` (module doc). -/
inductive Prog (S : Sig) (α : Type) : Type where
  | ret (a : α)
  /-- A run-time error that the program does not handle (an index out of range). -/
  | crash (msg : String)
  | call (op : S.Op) (k : S.Reply op → Prog S α)

namespace Prog

variable {S : Sig} {α β γ : Type}

/-- `p`, then `f` of its result. -/
def bind : Prog S α → (α → Prog S β) → Prog S β
  | .ret a, f => f a
  | .crash msg, _ => .crash msg
  | .call op k, f => .call op fun r => (k r).bind f

instance : Monad (Prog S) where
  pure := .ret
  bind := Prog.bind

@[simp] theorem ret_bind (a : α) (f : α → Prog S β) : (.ret a : Prog S α) >>= f = f a := rfl

@[simp] theorem crash_bind (msg : String) (f : α → Prog S β) :
    (.crash msg : Prog S α) >>= f = .crash msg := rfl

@[simp] theorem call_bind (op : S.Op) (k : S.Reply op → Prog S α) (f : α → Prog S β) :
    (.call op k : Prog S α) >>= f = .call op fun r => k r >>= f := rfl

theorem bind_ret (p : Prog S α) : p >>= Prog.ret = p := by
  induction p with
  | ret a => rfl
  | crash msg => rfl
  | call op k ih => rw [call_bind]; congr 1; funext r; exact ih r

theorem bind_assoc (p : Prog S α) (f : α → Prog S β) (g : β → Prog S γ) :
    p >>= f >>= g = p >>= fun a => f a >>= g := by
  induction p with
  | ret a => rfl
  | crash msg => rfl
  | call op k ih => simp only [call_bind]; congr 1; funext r; exact ih r

instance : LawfulMonad (Prog S) :=
  LawfulMonad.mk' _ bind_ret (fun _ _ => rfl) bind_assoc

end Prog

end Effect
