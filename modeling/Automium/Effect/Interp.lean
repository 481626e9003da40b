import Automium.Effect.Exec

/-!
# Operations that are programs

An operation of an interface may itself be a program over a lower interface: a client library that
makes HTTP requests, a driver. A `Handler` has this program for each operation, and `Prog.interp` puts
the programs in the place of the operations.

If every execution of a handler is one that a world allows of the operation (`Carries`), then what a
program does below, it does in that world (`Exec.refines`). The events below are those of the programs
for the events above, one after the other (`CarriedOut`).
-/

namespace Effect

variable {S T : Sig} {σ α β : Type}

/-- A program over `T` for each operation of `S`. -/
abbrev Handler (S T : Sig) : Type := (op : S.Op) → Prog T (S.Reply op)

/-- The program, with the operations carried out by the handler. -/
def Prog.interp (h : Handler S T) : Prog S α → Prog T α
  | .ret a => .ret a
  | .crash msg => .crash msg
  | .call op k => h op >>= fun r => (k r).interp h

/-- Only the other actors act. -/
abbrev World.Waits (W : World S σ) : σ → σ → Prop := Relation.ReflTransGen W.env

/-- The world allows of an operation what the handler does. A handler that is stopped has not begun, or
it leaves what the operation may leave. -/
structure Carries (W : World S σ) (h : Handler S T) (V : World T σ) : Prop where
  env : ∀ s s', V.env s s' → W.env s s'
  done : ∀ {op : S.Op} {s s' : σ} {tr : List (Event T σ)} {r : S.Reply op},
    Exec V (h op) s tr (.done r) s' →
      ∃ s₁ s₂, W.Waits s s₁ ∧ W.answer s₁ op r s₂ ∧ W.Waits s₂ s'
  halted : ∀ {op : S.Op} {s s' : σ} {tr : List (Event T σ)}, Exec V (h op) s tr .halted s' →
    tr = [] ∧ W.Waits s s' ∨
      ∃ s₁ r s₂, W.Waits s s₁ ∧ W.answer s₁ op r s₂ ∧ W.Waits s₂ s'
  crashed : ∀ {op : S.Op} {s s' : σ} {tr : List (Event T σ)} {msg : String},
    ¬ Exec V (h op) s tr (.crashed msg) s'

/-- The events below are those of the programs for the events above. If `halted`, the last of these may
have been stopped. -/
inductive CarriedOut (h : Handler S T) (V : World T σ) (halted : Prop) :
    List (Event S σ) → List (Event T σ) → Prop
  | nil : CarriedOut h V halted [] []
  | cons {e : Event S σ} {evs : List (Event S σ)} {s s' : σ} {tr tr' : List (Event T σ)} :
      Exec V (h e.op) s tr (.done e.reply) s' → CarriedOut h V halted evs tr' →
        CarriedOut h V halted (e :: evs) (tr ++ tr')
  | stopped {e : Event S σ} {s s' : σ} {tr : List (Event T σ)} :
      halted → Exec V (h e.op) s tr .halted s' → CarriedOut h V halted [e] tr

section

variable {W : World S σ} {V : World T σ} {h : Handler S T} {s s₁ s' : σ} {evs evs' : List (Event S σ)}
  {tr : List (Event T σ)} {halted : Prop}

theorem Exec.wait {p : Prog S α} {tr : List (Event S σ)} {o : Outcome α} (hs : W.Waits s s₁)
    (he : Exec W p s₁ tr o s') : Exec W p s tr o s' := by
  induction hs using Relation.ReflTransGen.head_induction_on with
  | refl => exact he
  | head henv _ ih => exact .env henv ih

/-- A program whose calls leave the state alone. -/
theorem Exec.waits {p : Prog S α} {evs : List (Event S σ)} {o : Outcome α} {ok : S.Op → Prop}
    (he : Exec W p s evs o s') (hp : Uses ok p)
    (hok : ∀ s op r s', ok op → W.answer s op r s' → s' = s) : W.Waits s s' := by
  induction he with
  | ret | crash | halt => exact .refl
  | env hw _ ih => exact .head hw (ih hp)
  | call ha _ ih =>
    obtain ⟨hop, hk⟩ := hp
    exact hok _ _ _ _ hop ha ▸ ih (hk _ trivial)

/-- A program that returns does so in both worlds. -/
theorem Exec.ret_refines {a : α} {o : Outcome α} (henv : ∀ s s', V.env s s' → W.env s s')
    (he : Exec V (.ret a) s tr o s') : Exec W (.ret a) s [] o s' ∧ tr = [] := by
  generalize hp : Prog.ret a = p at he
  induction he with
  | ret => cases hp; exact ⟨.ret _ _, rfl⟩
  | crash | call => cases hp
  | halt => exact ⟨.halt _ _, rfl⟩
  | env hw _ ih =>
    obtain ⟨he', ht⟩ := ih hp
    exact ⟨.env (henv _ _ hw) he', ht⟩

theorem Exec.crash_refines {msg : String} {o : Outcome α} (henv : ∀ s s', V.env s s' → W.env s s')
    (he : Exec V (.crash msg) s tr o s') : Exec W (.crash msg) s [] o s' ∧ tr = [] := by
  generalize hp : Prog.crash msg = p at he
  induction he with
  | crash => cases hp; exact ⟨.crash _ _, rfl⟩
  | ret | call => cases hp
  | halt => exact ⟨.halt _ _, rfl⟩
  | env hw _ ih =>
    obtain ⟨he', ht⟩ := ih hp
    exact ⟨.env (henv _ _ hw) he', ht⟩

/-- What a program does below, it does in the world (module doc). -/
theorem Exec.refines (hc : Carries W h V) {p : Prog S α} {o : Outcome α}
    (he : Exec V (p.interp h) s tr o s') :
    ∃ evs, Exec W p s evs o s' ∧ CarriedOut h V (o = .halted) evs tr := by
  induction p generalizing s tr with
  | ret a =>
    obtain ⟨he', rfl⟩ := he.ret_refines hc.env
    exact ⟨[], he', .nil⟩
  | crash msg =>
    obtain ⟨he', rfl⟩ := he.crash_refines hc.env
    exact ⟨[], he', .nil⟩
  | call op k ih =>
    rcases he.bind_cases with ⟨r, s₁, tr₁, tr₂, rfl, hop, hrest⟩ | ⟨msg, -, hop⟩ | ⟨rfl, hop⟩
    · obtain ⟨s₂, s₃, hwait, ha, hwait'⟩ := hc.done hop
      obtain ⟨evs, hexec, hcarried⟩ := ih r hrest
      exact ⟨⟨s₂, op, r⟩ :: evs, .wait hwait (.call ha (.wait hwait' hexec)),
        .cons (e := ⟨s₂, op, r⟩) hop hcarried⟩
    · exact (hc.crashed hop).elim
    · rcases hc.halted hop with ⟨rfl, hwait⟩ | ⟨s₂, r, s₃, hwait, ha, hwait'⟩
      · exact ⟨[], .wait hwait (.halt _ _), .nil⟩
      · exact ⟨[⟨s₂, op, r⟩], .wait hwait (.call ha (.wait hwait' (.halt _ _))),
          .stopped (e := ⟨s₂, op, r⟩) rfl hop⟩

/-- The events below for the first events above, and those for the others. -/
theorem CarriedOut.split (hc : CarriedOut h V halted (evs ++ evs') tr) :
    ∃ tr₁ tr₂, tr = tr₁ ++ tr₂ ∧ CarriedOut h V halted evs tr₁ ∧ CarriedOut h V halted evs' tr₂ := by
  induction evs generalizing tr with
  | nil => exact ⟨[], tr, rfl, .nil, hc⟩
  | cons e evs ih =>
    generalize hl : e :: evs ++ evs' = l at hc
    cases hc with
    | nil => cases hl
    | cons hop hrest =>
      cases hl
      obtain ⟨tr₁, tr₂, rfl, h₁, h₂⟩ := ih hrest
      exact ⟨_, tr₂, (List.append_assoc ..).symm, .cons hop h₁, h₂⟩
    | stopped hh hop =>
      obtain ⟨rfl, hnil⟩ := List.cons.inj hl
      obtain ⟨rfl, rfl⟩ := List.append_eq_nil_iff.mp hnil
      exact ⟨_, [], (List.append_nil _).symm, .stopped hh hop, .nil⟩

/-- The events below for the first event, and those for the others. -/
theorem CarriedOut.cons_cases {e : Event S σ} (hc : CarriedOut h V halted (e :: evs) tr) :
    ∃ s s' o tr₁ tr₂, tr = tr₁ ++ tr₂ ∧ Exec V (h e.op) s tr₁ o s' ∧
      CarriedOut h V halted evs tr₂ ∧ (halted ∧ evs = [] ∨ o = .done e.reply) := by
  generalize hl : e :: evs = l at hc
  cases hc with
  | nil => cases hl
  | cons hop hrest =>
    cases hl
    exact ⟨_, _, _, _, _, rfl, hop, hrest, .inr rfl⟩
  | stopped hh hop =>
    cases hl
    exact ⟨_, _, _, _, [], (List.append_nil _).symm, hop, .nil, .inl ⟨hh, rfl⟩⟩

/-- What holds of the events of every operation, holds of all events below. -/
theorem CarriedOut.forall_mem {P : Event T σ → Prop} (hc : CarriedOut h V halted evs tr)
    (hP : ∀ e ∈ evs, ∀ s tr o s', Exec V (h e.op) s tr o s' → halted ∨ o = .done e.reply →
      ∀ e' ∈ tr, P e') :
    ∀ e' ∈ tr, P e' := by
  induction hc with
  | nil => exact List.forall_mem_nil _
  | cons hop _ ih =>
    obtain ⟨he, hrest⟩ := List.forall_mem_cons.mp hP
    exact List.forall_mem_append.mpr ⟨he _ _ _ _ hop (.inr rfl), ih hrest⟩
  | stopped hh hop => exact hP _ List.mem_cons_self _ _ _ _ hop (.inl hh)

end

end Effect
