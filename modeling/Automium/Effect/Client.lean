/-!
# Clients

A client asks one question at a time, and what it asks next depends on the replies so far. It is given
by its stages: what is asked at a stage, and the stage after a reply (`Client`). `Talks` are the whole
conversations from a stage on. A program that talks to a server is specified by a client: whatever the
server replies, what the program asks and hears is a conversation of the client.

`Talks.invariant` is the rule for what is known at a stage of the exchanges before it.
-/

namespace Effect

/-- A client (module doc). Nothing is asked at the last stages. -/
structure Client (St Req Rep : Type) where
  request : St → Option Req
  next : St → Rep → St

namespace Client

variable {St Req Rep : Type} {C : Client St Req Rep} {s : St} {past l : List (Req × Rep)}

/-- The conversations from a stage on. -/
inductive Talks (C : Client St Req Rep) : St → List (Req × Rep) → Prop
  | ended {s : St} : C.request s = none → Talks C s []
  | ask {s : St} {req : Req} {r : Rep} {rest : List (Req × Rep)} :
      C.request s = some req → Talks C (C.next s r) rest → Talks C s ((req, r) :: rest)

/-- What is known of the past at a stage, is known at every stage of a conversation. -/
theorem Talks.invariant {I : List (Req × Rep) → St → Prop} (h : C.Talks s l) (hs : I past s)
    (hI : ∀ past s req r, I past s → C.request s = some req →
      I (past ++ [(req, r)]) (C.next s r)) {l₁ l₂ : List (Req × Rep)} {e : Req × Rep}
    (hl : l = l₁ ++ e :: l₂) :
    ∃ s', I (past ++ l₁) s' ∧ C.request s' = some e.1 ∧ C.Talks (C.next s' e.2) l₂ := by
  induction h generalizing past l₁ with
  | ended => simp at hl
  | @ask s req r rest hreq hrest ih =>
    cases l₁ with
    | nil =>
      cases hl
      exact ⟨s, by simpa using hs, hreq, hrest⟩
    | cons e₁ l₁ =>
      cases hl
      obtain ⟨s', hI', h'⟩ := ih (hI past s req r hs hreq) rfl
      exact ⟨s', by simpa using hI', h'⟩

/-- The same for a conversation that starts. -/
theorem Talks.known {I : List (Req × Rep) → St → Prop} (h : C.Talks s l) (hs : I [] s)
    (hI : ∀ past s req r, I past s → C.request s = some req →
      I (past ++ [(req, r)]) (C.next s r)) {l₁ l₂ : List (Req × Rep)} {e : Req × Rep}
    (hl : l = l₁ ++ e :: l₂) :
    ∃ s', I l₁ s' ∧ C.request s' = some e.1 ∧ C.Talks (C.next s' e.2) l₂ :=
  h.invariant hs hI hl

/-- Nothing follows the last stage. -/
theorem Talks.eq_nil (h : C.Talks s l) (hs : C.request s = none) : l = [] := by
  cases h with
  | ended => rfl
  | ask hreq =>
    rw [hs] at hreq
    cases hreq

end Client

end Effect
