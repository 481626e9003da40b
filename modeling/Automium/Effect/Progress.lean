import Automium.Effect.Runs

/-!
# Progress along a run

A run makes progress when certain steps are taken in a certain order, whatever else happens between
them. `Passes hs ts` says that the run `ts` takes a step of each of the kinds `hs`, in this order.
`Leads S P hs Q` says that steps of these kinds lead from `P` to `Q`: one after the other
they establish assertions that no step takes away. So a run from `P` that passes `hs` ends in `Q`
(`Leads.reached`), and stays there.
-/

namespace Effect

variable {St Lbl : Type}

/-- The run takes steps of these kinds (module doc). -/
inductive Passes : List (Trans St Lbl → Prop) → List (Trans St Lbl) → Prop
  | nil : Passes [] []
  | skip {hs : List (Trans St Lbl → Prop)} {ts : List (Trans St Lbl)} {t : Trans St Lbl} :
      Passes hs ts → Passes hs (ts ++ [t])
  | take {hs : List (Trans St Lbl → Prop)} {ts : List (Trans St Lbl)} {t : Trans St Lbl}
      {h : Trans St Lbl → Prop} : Passes hs ts → h t → Passes (hs ++ [h]) (ts ++ [t])

/-- A run that takes steps of these kinds ends in this state. -/
def Reaches (S : Sys St Lbl) (hs : List (Trans St Lbl → Prop)) (s : St) : Prop :=
  ∃ ts, Run S ts s ∧ Passes hs ts

theorem Reaches.nil {S : Sys St Lbl} {s : St} (h : S.init s) : Reaches S [] s :=
  ⟨[], .nil h, .nil⟩

theorem Reaches.snoc {S : Sys St Lbl} {hs : List (Trans St Lbl → Prop)} {s s' : St} {l : Lbl}
    (hreach : Reaches S hs s) (h : Trans St Lbl → Prop) (hstep : S.step s l s')
    (ht : h ⟨s, l, s'⟩) : Reaches S (hs ++ [h]) s' := by
  obtain ⟨ts, hrun, hpass⟩ := hreach
  exact ⟨_, hrun.snoc hstep, hpass.take ht⟩

/-- No step takes `P` away. -/
def Sys.Keeps (S : Sys St Lbl) (P : St → Prop) : Prop := ∀ s l s', S.step s l s' → P s → P s'

/-- Steps of these kinds lead from one assertion to the other (module doc). -/
inductive Leads (S : Sys St Lbl) (P : St → Prop) : List (Trans St Lbl → Prop) → (St → Prop) → Prop
  | nil : S.Keeps P → Leads S P [] P
  | snoc {hs : List (Trans St Lbl → Prop)} {h : Trans St Lbl → Prop} {Q R : St → Prop} :
      Leads S P hs Q → S.Keeps R →
      (∀ t : Trans St Lbl, S.step t.pre t.lbl t.post → Q t.pre → h t → R t.post) →
      Leads S P (hs ++ [h]) R

namespace Leads

variable {S : Sys St Lbl} {P Q R : St → Prop} {hs hs' : List (Trans St Lbl → Prop)}
  {ts : List (Trans St Lbl)} {s : St}

theorem keeps (h : Leads S P hs Q) : S.Keeps Q := by
  cases h with
  | nil h => exact h
  | snoc _ h _ => exact h

theorem trans (h : Leads S P hs Q) (h' : Leads S Q hs' R) : Leads S P (hs ++ hs') R := by
  induction h' with
  | nil => rwa [List.append_nil]
  | snoc _ hkeeps hstep ih =>
    rw [← List.append_assoc]
    exact ih.snoc hkeeps hstep

/-- One step. -/
theorem single {h : Trans St Lbl → Prop} (hP : S.Keeps P) (hR : S.Keeps R)
    (hstep : ∀ t : Trans St Lbl, S.step t.pre t.lbl t.post → P t.pre → h t → R t.post) :
    Leads S P [h] R :=
  (Leads.nil hP).snoc hR hstep

/-- Steps that are numbered. -/
theorem range {h : Nat → Trans St Lbl → Prop} {Q : Nat → St → Prop} (hQ : ∀ i, S.Keeps (Q i)) (n : Nat)
    (hstep : ∀ i < n, ∀ t : Trans St Lbl, S.step t.pre t.lbl t.post → Q i t.pre → h i t →
      Q (i + 1) t.post) :
    Leads S (Q 0) ((List.range n).map h) (Q n) := by
  induction n with
  | zero => exact .nil (hQ 0)
  | succ n ih =>
    rw [List.range_succ, List.map_append]
    exact (ih fun i hi => hstep i (by omega)).snoc (hQ _) (hstep n (by omega))

end Leads

end Effect
