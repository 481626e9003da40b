import Automium.Effect.Exec
import Automium.Effect.Runs
import Mathlib.Order.Defs.PartialOrder

/-!
# Programs that run at the same time

A pool is a state and the programs that are running on it. In one step a new program starts, one
of the programs makes its next call, a program ends (it has returned or crashed, or the process
was killed), or another actor acts. So the calls of the programs are interleaved in any order.

`Step.holds` is the rule for an invariant of the state and of every program in it.
`Pool.invariant` is the rely/guarantee rule: an assertion that every program keeps by its own
calls, as long as its replies are in `rely`, is kept by all of them together. `Step.learns` is the
same for programs that call what they may by what is known, which grows. `Pool.run_all` gives
a run of a pool: the programs of a list one after the other, in a world that is a function.
-/

namespace Effect

/-- The programs that are running, and the state they share. -/
structure Pool (S : Sig) (σ α : Type) where
  state : σ
  programs : List (Prog S α)

namespace Pool

variable {S : Sig} {σ α : Type}

/-- Which kind of step is taken. -/
inductive Move where
  | start | call | stop | other

/-- The steps of a pool (module doc). -/
inductive Step (W : World S σ) (starts : Prog S α → Prop) : Pool S σ α → Move → Pool S σ α → Prop
  | start {s : σ} {ps : List (Prog S α)} {p : Prog S α} : starts p →
      Step W starts ⟨s, ps⟩ .start ⟨s, p :: ps⟩
  | call {s s' : σ} {ps qs : List (Prog S α)} {op : S.Op} {k : S.Reply op → Prog S α}
      {r : S.Reply op} : W.answer s op r s' →
      Step W starts ⟨s, ps ++ .call op k :: qs⟩ .call ⟨s', ps ++ k r :: qs⟩
  | stop {s : σ} {ps qs : List (Prog S α)} {p : Prog S α} :
      Step W starts ⟨s, ps ++ p :: qs⟩ .stop ⟨s, ps ++ qs⟩
  | other {s s' : σ} {ps : List (Prog S α)} : W.env s s' →
      Step W starts ⟨s, ps⟩ .other ⟨s', ps⟩

/-- The runs of pools that start without programs. -/
def sys (W : World S σ) (starts : Prog S α → Prop) (init : σ → Prop) : Sys (Pool S σ α) Move where
  init p := init p.state ∧ p.programs = []
  step := Step W starts

/-- `I` holds of the state, and `Φ` of every program in it. -/
def Holds (I : σ → Prop) (Φ : σ → Prog S α → Prop) (p : Pool S σ α) : Prop :=
  I p.state ∧ ∀ q ∈ p.programs, Φ p.state q

/-- What every call keeps, for the program that makes it and for the others, every step keeps. -/
theorem Step.holds {W : World S σ} {starts : Prog S α → Prop} {I : σ → Prop}
    {Φ : σ → Prog S α → Prop} (hstart : ∀ s q, I s → starts q → Φ s q)
    (hcall : ∀ s op k r s', I s → Φ s (.call op k) → W.answer s op r s' →
      I s' ∧ Φ s' (k r) ∧ ∀ q, Φ s q → Φ s' q)
    (henv : ∀ s s', I s → W.env s s' → I s' ∧ ∀ q, Φ s q → Φ s' q)
    {p p' : Pool S σ α} {move : Move} (h : Step W starts p move p') (hp : Holds I Φ p) :
    Holds I Φ p' := by
  obtain ⟨hs, hall⟩ := hp
  cases h with
  | start hq => exact ⟨hs, List.forall_mem_cons.mpr ⟨hstart _ _ hs hq, hall⟩⟩
  | call ha =>
    obtain ⟨hps, hrest⟩ := List.forall_mem_append.mp hall
    obtain ⟨hq, hqs⟩ := List.forall_mem_cons.mp hrest
    obtain ⟨hs', hk, hothers⟩ := hcall _ _ _ _ _ hs hq ha
    exact ⟨hs', List.forall_mem_append.mpr ⟨fun q hm => hothers q (hps q hm),
      List.forall_mem_cons.mpr ⟨hk, fun q hm => hothers q (hqs q hm)⟩⟩⟩
  | stop =>
    obtain ⟨hps, hrest⟩ := List.forall_mem_append.mp hall
    exact ⟨hs, List.forall_mem_append.mpr ⟨hps, (List.forall_mem_cons.mp hrest).2⟩⟩
  | other he =>
    obtain ⟨hs', hothers⟩ := henv _ _ hs he
    exact ⟨hs', fun q hm => hothers q (hall q hm)⟩

/-- The rely/guarantee rule (module doc). -/
theorem invariant {W : World S σ} {starts : Prog S α → Prop} {init : σ → Prop} {I : σ → Prop}
    {rely : (op : S.Op) → S.Reply op → Prop} {ok : S.Op → Prop} (hI : Stable W I)
    (ha : ∀ s op r s', I s → ok op → W.answer s op r s' → rely op r ∧ I s')
    (hstart : ∀ p, starts p → Obeys rely ok p fun _ => True) (hinit : ∀ s, init s → I s)
    {ts : List (Trans (Pool S σ α) Move)} {p : Pool S σ α} (h : Run (sys W starts init) ts p) :
    I p.state := by
  let Φ (_ : σ) (q : Prog S α) : Prop := Obeys rely ok q fun _ => True
  have hinit' : ∀ p, (sys W starts init).init p → Holds I Φ p := fun p hp =>
    ⟨hinit _ hp.1, by rw [hp.2]; nofun⟩
  have hstep : ∀ t : Trans (Pool S σ α) Move, Step W starts t.pre t.lbl t.post →
      Holds I Φ t.pre → Holds I Φ t.post := by
    intro t ht hp
    refine ht.holds (fun s q _ hq => hstart q hq) ?_ (fun s s' hs he => ⟨hI _ _ hs he, ?_⟩) hp
    · rintro s op k r s' hs ⟨hok, hk⟩ hans
      obtain ⟨hr, hs'⟩ := ha _ _ _ _ hs hok hans
      exact ⟨hs', hk r hr, fun _ hq => hq⟩
    · exact fun _ hq => hq
  exact (h.invariant' hinit' hstep).1.1

/-- Whatever is learned from now on, the program makes only calls that it may make by then. -/
def Learns {κ : Type} [Preorder κ] (know : σ → κ) (rely : κ → (op : S.Op) → S.Reply op → Prop)
    (ok : κ → S.Op → Prop) (s : σ) (p : Prog S α) : Prop :=
  ∀ K, know s ≤ K → Obeys (rely K) (ok K) p fun _ => True

/-- The rule for programs whose calls depend on what is known (module doc). -/
theorem Step.learns {κ : Type} [Preorder κ] {W : World S σ} {starts : Prog S α → Prop}
    {I : σ → Prop} {know : σ → κ} {rely : κ → (op : S.Op) → S.Reply op → Prop}
    {ok : κ → S.Op → Prop} (hrely : ∀ K K' op r, K ≤ K' → rely K op r → rely K' op r)
    (hstart : ∀ q, starts q → ∀ K, Obeys (rely K) (ok K) q fun _ => True)
    (ha : ∀ s op r s', I s → ok (know s) op → W.answer s op r s' →
      I s' ∧ know s ≤ know s' ∧ rely (know s') op r)
    (henv : ∀ s s', I s → W.env s s' → I s' ∧ know s ≤ know s') {p p' : Pool S σ α} {move : Move}
    (h : Step W starts p move p') (hp : Holds I (Learns know rely ok) p) :
    Holds I (Learns know rely ok) p' := by
  have hgrow : ∀ {s s' : σ}, know s ≤ know s' → ∀ q : Prog S α,
      Learns know rely ok s q → Learns know rely ok s' q := fun hle q hq K hK =>
    hq K (le_trans hle hK)
  refine h.holds (fun s q _ hq K _ => hstart q hq K) ?_ (fun s s' hs he => ?_) hp
  · intro s op k r s' hs hq hans
    obtain ⟨hs', hle, hr⟩ := ha s op r s' hs (hq _ le_rfl).1 hans
    exact ⟨hs', fun K hK => (hq K (le_trans hle hK)).2 r (hrely _ _ _ _ hK hr), hgrow hle⟩
  · obtain ⟨hs', hle⟩ := henv s s' hs he
    exact ⟨hs', hgrow hle⟩

section Run

variable {W : World S σ} {starts : Prog S α → Prop} {init : σ → Prop}
  {h : σ → (op : S.Op) → S.Reply op × σ} {ts : List (Trans (Pool S σ α) Move)} {s : σ}

theorem call_last {s' : σ} {op : S.Op} {k : S.Reply op → Prog S α} {r : S.Reply op}
    (ha : W.answer s op r s') : Step W starts ⟨s, [.call op k]⟩ .call ⟨s', [k r]⟩ :=
  show Step W starts ⟨s, [] ++ .call op k :: []⟩ .call ⟨s', [] ++ k r :: []⟩ from .call ha

theorem stop_last {p : Prog S α} : Step W starts ⟨s, [p]⟩ .stop ⟨s, []⟩ :=
  show Step W starts ⟨s, [] ++ p :: []⟩ .stop ⟨s, [] ++ []⟩ from .stop

/-- The only program of the pool runs to its end. -/
theorem run_last (hW : ∀ s op, W.answer s op (h s op).1 (h s op).2) (p : Prog S α)
    (hr : Run (sys W starts init) ts ⟨s, [p]⟩) :
    ∃ ts', Run (sys W starts init) ts' ⟨(run h p s).final, []⟩ := by
  induction p generalizing s ts with
  | ret | crash => exact ⟨_, hr.snoc stop_last⟩
  | call op k ih => exact ih _ (hr.snoc (call_last (hW s op)))

/-- Programs that run one after the other. -/
theorem run_all (hW : ∀ s op, W.answer s op (h s op).1 (h s op).2) {ps : List (Prog S α)}
    (hps : ∀ p ∈ ps, starts p) (hr : Run (sys W starts init) ts ⟨s, []⟩) :
    ∃ ts', Run (sys W starts init) ts' ⟨ps.foldl (fun s p => (run h p s).final) s, []⟩ := by
  induction ps generalizing s ts with
  | nil => exact ⟨ts, hr⟩
  | cons p rest ih =>
    obtain ⟨hp, hrest⟩ := List.forall_mem_cons.mp hps
    obtain ⟨ts', hr'⟩ := run_last hW p (hr.snoc (.start hp))
    exact ih hrest hr'

end Run

end Pool

end Effect
