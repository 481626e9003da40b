import Automium.Api.Server
import Automium.Effect.Pool
import Automium.Effect.Triple

/-!
# Worlds around a controller

* `Serves`: a call succeeds and reads the current state. A list comes in any order, and the clock
  shows any time. `serve` is one such server.
* `calm`: nobody else acts and every call is one of `Serves`.
* `flaky env`: between two calls the other actors take steps of `env`, and every call may fail
  with any error and without effect.

What a call can do to the stored objects is said once, in `Serves.cases`; what it leaves alone is
said by `Request.writes`, the kind that it may change. A property `P` of single objects is an
invariant of a program whose writes keep it as long as the objects it reads have it
(`Cluster.All.exec`), and of such programs that run at the same time (`Cluster.All.pool`).
-/

namespace Automium

open Effect Data

/-- The call fails: its reply is an error. The clock and the environment cannot fail. -/
def Request.Failed : (op : Request) → op.Reply → Prop
  | .get _ _, r | .create _ _, r | .update _ _, r | .updateStatus _ _, r => ∃ e, r = .error e
  | .list _ _, r => ∃ e, r = .error e
  | .delete _ _, r | .slack _, r => ∃ e, r = .error e
  | .now, _ | .getenv _, _ => False

/-- A call that succeeds (module doc). -/
def Serves (c : Cluster) : (op : Request) → op.Reply → Cluster → Prop
  | .list k ns, r, c' => (∃ l, l.Perm (c.inNamespace k ns) ∧ r = .ok l) ∧ c' = c
  | .now, _, c' => c' = c
  | op, r, c' => serve c op = (r, c')

/-- Nobody else acts, and nothing fails. -/
def calm : World Api Cluster where
  env _ _ := False
  answer := Serves

/-- Other actors take steps of `env`, and calls may fail. -/
def flaky (env : Cluster → Cluster → Prop) : World Api Cluster where
  env := env
  answer c op r c' := Serves c op r c' ∨ op.Failed r ∧ c' = c

theorem serves_serve (c : Cluster) (op : Request) : Serves c op (serve c op).1 (serve c op).2 := by
  cases op with
  | list k ns => exact ⟨⟨_, List.Perm.refl _, rfl⟩, rfl⟩
  | _ => rfl

/-- A run against `serve` is an execution in the calm world. -/
theorem calm_run {α : Type} (p : Ctl α) (c : Cluster) :
    Exec calm p c (run serve p c).trace (run serve p c).outcome (run serve p c).final :=
  Exec.of_run serves_serve p c

theorem calm_closed : calm.Closed := fun _ _ h => h

/-- A call in the calm world, in an execution that returns. -/
theorem calm_call {α : Type} {op : Request} {k : op.Reply → Ctl α} {c c' : Cluster}
    {tr : List (Event Api Cluster)} {a : α} (h : Exec calm (.call op k) c tr (.done a) c') :
    ∃ r c₁ tr', Serves c op r c₁ ∧ Exec calm (k r) c₁ tr' (.done a) c' := by
  cases h with
  | env he _ => exact he.elim
  | call ha hk => exact ⟨_, _, _, ha, hk⟩

theorem calm_ret {α : Type} {a b : α} {c c' : Cluster} {tr : List (Event Api Cluster)}
    (h : Exec calm (.ret a : Ctl α) c tr (.done b) c') : b = a ∧ c' = c := by
  cases h with
  | env he _ => exact he.elim
  | ret => exact ⟨rfl, rfl⟩

/-- What happens in the calm world may happen in a flaky one. -/
theorem flaky_of_calm {α : Type} {p : Ctl α} {c c' : Cluster} {tr : List (Event Api Cluster)}
    {o : Outcome α} (env : Cluster → Cluster → Prop) (h : Exec calm p c tr o c') :
    Exec (flaky env) p c tr o c' :=
  h.mono (fun _ _ h => h.elim) fun _ _ _ _ h => .inl h

/-- Calls may fail, but nobody else acts. -/
abbrev lossy : World Api Cluster := flaky fun _ _ => False

theorem lossy_closed : lossy.Closed := fun _ _ h => h

/-- A call may also take effect and fail, as its reply is lost. -/
def lostReplies (env : Cluster → Cluster → Prop) : World Api Cluster where
  env := env
  answer c op r c' := (∃ r', Serves c op r' c' ∧ (r = r' ∨ op.Failed r)) ∨ op.Failed r ∧ c' = c

section

variable {α : Type} {env : Cluster → Cluster → Prop} {p : Ctl α} {c c' : Cluster}
  {tr : List (Event Api Cluster)} {o : Outcome α}

theorem lostReplies_of_flaky (h : Exec (flaky env) p c tr o c') :
    Exec (lostReplies env) p c tr o c' :=
  h.mono (fun _ _ h => h) fun _ _ r _ h => h.imp_left fun h => ⟨r, h, .inl rfl⟩

/-- If no call fails, no reply is lost. -/
theorem flaky_of_lostReplies (h : Exec (lostReplies env) p c tr o c')
    (hr : ∀ e ∈ tr, ¬ e.op.Failed e.reply) : Exec (flaky env) p c tr o c' := by
  refine h.mono_trace (fun e => ¬ e.op.Failed e.reply) (fun _ _ h => h) ?_ hr
  rintro c op r c' hok (⟨r', hserves, rfl | hfail⟩ | ⟨hfail, -⟩)
  · exact .inl hserves
  · exact absurd hfail hok
  · exact absurd hfail hok

end

/-! ## Answers of `serve` -/

section Serve

variable {c : Cluster} {k : Kind} {key : Key} {o old : k.Obj}

theorem find?_key (h : c.find? k key = some o) : o.key = key := (Table.find?_eq_some.mp h).2

theorem find?_mem (h : c.find? k key = some o) : o ∈ c.tbl k := (Table.find?_eq_some.mp h).1

theorem serve_get (h : c.find? k key = some o) : serve c (.get k key) = (.ok o, c) := by
  simp only [serve, h]

theorem serve_get_none (h : c.find? k key = none) :
    serve c (.get k key) = (.error (.newNotFound k key.name), c) := by
  simp only [serve, h]

theorem serve_list (c : Cluster) (k : Kind) (ns : String) :
    serve c (.list k ns) = (.ok (c.inNamespace k ns), c) := rfl

theorem serve_create (hv : o.metadata.resourceVersion = 0) (h : c.find? k o.key = none) :
    serve c (.create k o) = (.ok (newObj k o (c.version + 1)),
      c.setTbl k ((c.tbl k).put (newObj k o (c.version + 1)))) := by
  simp [serve, h, hv]

theorem serve_create_taken (hv : o.metadata.resourceVersion = 0)
    (h : c.find? k o.key = some old) :
    serve c (.create k o) = (.error (.newAlreadyExists k o.metadata.name), c) := by
  simp [serve, h, hv]

theorem serve_update (h : c.find? k o.key = some old)
    (hv : o.metadata.resourceVersion = old.metadata.resourceVersion) :
    serve c (.update k o) = (.ok (updatedObj k old o (c.version + 1)),
      c.setTbl k ((c.tbl k).put (updatedObj k old o (c.version + 1)))) := by
  simp only [serve, h, if_pos hv]

theorem serve_updateStatus (h : c.find? k o.key = some old)
    (hv : o.metadata.resourceVersion = old.metadata.resourceVersion) :
    serve c (.updateStatus k o) = (.ok (statusObj k old o (c.version + 1)),
      c.setTbl k ((c.tbl k).put (statusObj k old o (c.version + 1)))) := by
  simp only [serve, h, if_pos hv]

theorem serve_delete (h : c.find? k key = some o) :
    serve c (.delete k key) = (.ok (), c.setTbl k ((c.tbl k).erase key)) := by
  simp only [serve, h]

theorem serve_delete_none (h : c.find? k key = none) :
    serve c (.delete k key) = (.error (.newNotFound k key.name), c) := by
  simp only [serve, h]

@[simp] theorem updatedObj_key (v : Nat) : (updatedObj k old o v).key = o.key := rfl

@[simp] theorem statusObj_key (v : Nat) : (statusObj k old o v).key = old.key := rfl

end Serve

/-! ## What a call can do -/

/-- The kind whose objects a call may change. -/
def Request.writes : Request → Option Kind
  | .create k _ | .update k _ | .updateStatus k _ | .delete k _ => some k
  | .get _ _ | .list _ _ | .now | .getenv _ | .slack _ => none

def Request.isDelete : Request → Bool
  | .delete _ _ => true
  | _ => false

section Cases

variable {c c' : Cluster} {k : Kind} {key : Key} {o : k.Obj}

/-- A get that succeeds returns the stored object. -/
theorem Serves.get_ok {r : Except Error k.Obj} (h : Serves c (.get k key) r c') :
    c' = c ∧ ∀ o, r = .ok o → c.find? k key = some o := by
  simp only [Serves, serve] at h
  split at h
  · cases h
    exact ⟨rfl, fun o e => by cases e⟩
  · rename_i x hx
    cases h
    refine ⟨rfl, fun o e => ?_⟩
    cases e
    exact hx

/-- A create: the key was free, or nothing happens. -/
theorem Serves.create_cases {r : Except Error k.Obj} (h : Serves c (.create k o) r c') :
    (c' = c ∧ ∃ e, r = .error e) ∨
      c.find? k o.key = none ∧ r = .ok (newObj k o (c.version + 1)) ∧
        c' = c.setTbl k ((c.tbl k).put (newObj k o (c.version + 1))) := by
  simp only [Serves, serve] at h
  split at h
  · cases h
    exact .inl ⟨rfl, _, rfl⟩
  · split at h
    · cases h
      exact .inl ⟨rfl, _, rfl⟩
    · rename_i hf
      cases h
      exact .inr ⟨hf, rfl, rfl⟩

/-- The server says `AlreadyExists` of a key that is taken. -/
theorem Serves.alreadyExists {e : Error} (h : Serves c (.create k o) (.error e) c')
    (he : e.isAlreadyExists = true) : ∃ old, c.find? k o.key = some old := by
  simp only [Serves, serve] at h
  split at h
  · cases h
    exact absurd he Bool.false_ne_true
  · split at h
    · rename_i old hf
      exact ⟨old, hf⟩
    · cases h

/-- An update: the copy has the stored version, or nothing happens. -/
theorem Serves.update_cases {r : Except Error k.Obj} (h : Serves c (.update k o) r c') :
    (c' = c ∧ ∃ e, r = .error e) ∨
      ∃ old, c.find? k o.key = some old ∧
        o.metadata.resourceVersion = old.metadata.resourceVersion ∧
        r = .ok (updatedObj k old o (c.version + 1)) ∧
        c' = c.setTbl k ((c.tbl k).put (updatedObj k old o (c.version + 1))) := by
  simp only [Serves, serve] at h
  split at h
  · cases h
    exact .inl ⟨rfl, _, rfl⟩
  · rename_i old hf
    split at h
    · rename_i hv
      cases h
      exact .inr ⟨old, hf, hv, rfl, rfl⟩
    · cases h
      exact .inl ⟨rfl, _, rfl⟩

/-- The same for the status. -/
theorem Serves.updateStatus_cases {r : Except Error k.Obj}
    (h : Serves c (.updateStatus k o) r c') :
    (c' = c ∧ ∃ e, r = .error e) ∨
      ∃ old, c.find? k o.key = some old ∧
        o.metadata.resourceVersion = old.metadata.resourceVersion ∧
        r = .ok (statusObj k old o (c.version + 1)) ∧
        c' = c.setTbl k ((c.tbl k).put (statusObj k old o (c.version + 1))) := by
  simp only [Serves, serve] at h
  split at h
  · cases h
    exact .inl ⟨rfl, _, rfl⟩
  · rename_i old hf
    split at h
    · rename_i hv
      cases h
      exact .inr ⟨old, hf, hv, rfl, rfl⟩
    · cases h
      exact .inl ⟨rfl, _, rfl⟩

end Cases

/-- What a call that succeeds does to the stored objects: nothing, or it writes one object, or it
removes one. -/
theorem Serves.cases {c c' : Cluster} {op : Request} {r : op.Reply} (h : Serves c op r c') :
    c' = c ∨
    (∃ k, ∃ o o' : k.Obj, op.writes = some k ∧ c' = c.setTbl k ((c.tbl k).put o') ∧
      (op = .create k o ∧ c.find? k o.key = none ∧ o' = newObj k o (c.version + 1) ∨
      (∃ old, op = .update k o ∧ c.find? k o.key = some old ∧
        o.metadata.resourceVersion = old.metadata.resourceVersion ∧
        o' = updatedObj k old o (c.version + 1)) ∨
      ∃ old, op = .updateStatus k o ∧ c.find? k o.key = some old ∧
        o.metadata.resourceVersion = old.metadata.resourceVersion ∧
        o' = statusObj k old o (c.version + 1))) ∨
    ∃ k key, op = .delete k key ∧ c' = c.setTbl k ((c.tbl k).erase key) := by
  cases op with
  | list => exact .inl h.2
  | now => exact .inl h
  | getenv | slack => exact .inl (Prod.mk.inj h).2.symm
  | get k key => exact .inl (Serves.get_ok h).1
  | create k o =>
    rcases Serves.create_cases h with ⟨rfl, -⟩ | ⟨hn, -, rfl⟩
    · exact .inl rfl
    · exact .inr (.inl ⟨k, o, _, rfl, rfl, .inl ⟨rfl, hn, rfl⟩⟩)
  | update k o =>
    rcases Serves.update_cases h with ⟨rfl, -⟩ | ⟨old, hn, hv, -, rfl⟩
    · exact .inl rfl
    · exact .inr (.inl ⟨k, o, _, rfl, rfl, .inr (.inl ⟨old, rfl, hn, hv, rfl⟩)⟩)
  | updateStatus k o =>
    rcases Serves.updateStatus_cases h with ⟨rfl, -⟩ | ⟨old, hn, hv, -, rfl⟩
    · exact .inl rfl
    · exact .inr (.inl ⟨k, o, _, rfl, rfl, .inr (.inr ⟨old, rfl, hn, hv, rfl⟩)⟩)
  | delete k key =>
    simp only [Serves, serve] at h
    split at h
    · exact .inl (Prod.mk.inj h).2.symm
    · exact .inr (.inr ⟨k, key, rfl, (Prod.mk.inj h).2.symm⟩)

/-- What a call that succeeds does under one key: nothing, or it removes the object, or it creates it,
or it writes it over. -/
theorem Serves.find?_cases {c c' : Cluster} {op : Request} {r : op.Reply} (h : Serves c op r c')
    (k : Kind) (key : Key) :
    c'.find? k key = c.find? k key ∨
      (op = .delete k key ∧ c'.find? k key = none) ∨
      (∃ o : k.Obj, op = .create k o ∧ o.key = key) ∨
      (c.find? k key ≠ none ∧ c'.find? k key ≠ none) := by
  rcases h.cases with rfl | ⟨k', o, o', -, rfl, hw⟩ | ⟨k', key', rfl, rfl⟩
  · exact .inl rfl
  · by_cases hk : k' = k
    · subst hk
      rw [Cluster.find?_setTbl, Table.find?_put]
      split
      · rename_i hkey
        rcases hw with ⟨rfl, -, rfl⟩ | ⟨old, rfl, hf, -, rfl⟩ | ⟨old, rfl, hf, -, rfl⟩
        · exact .inr (.inr (.inl ⟨o, rfl, hkey.symm⟩))
        · rw [updatedObj_key] at hkey
          rw [← hkey] at hf
          exact .inr (.inr (.inr ⟨by simp [hf], by simp⟩))
        · rw [statusObj_key] at hkey
          rw [← find?_key hf, ← hkey] at hf
          exact .inr (.inr (.inr ⟨by simp [hf], by simp⟩))
      · exact .inl rfl
    · exact .inl (by rw [Cluster.find?, Cluster.setTbl_ne _ _ fun e => hk e.symm, Cluster.find?])
  · by_cases hk : k' = k
    · subst hk
      rw [Cluster.find?_setTbl, Table.find?_erase]
      split
      · rename_i hkey
        exact .inr (.inl ⟨by rw [hkey], rfl⟩)
      · exact .inl rfl
    · exact .inl (by rw [Cluster.find?, Cluster.setTbl_ne _ _ fun e => hk e.symm, Cluster.find?])

/-- A call leaves the objects of the other kinds alone. -/
theorem Serves.tbl_eq {c c' : Cluster} {op : Request} {r : op.Reply} {k : Kind}
    (h : Serves c op r c') (hk : op.writes ≠ some k) : c'.tbl k = c.tbl k := by
  rcases h.cases with rfl | ⟨k', o, o', hw, rfl, -⟩ | ⟨k', key, rfl, rfl⟩
  · rfl
  · exact c.setTbl_ne _ fun e => hk (e ▸ hw)
  · exact c.setTbl_ne _ fun e => hk (e ▸ rfl)

/-- No call changes the environment variables. -/
theorem Serves.env_eq {c c' : Cluster} {op : Request} {r : op.Reply} (h : Serves c op r c') :
    c'.env = c.env := by
  rcases h.cases with rfl | ⟨k, o, o', -, rfl, -⟩ | ⟨k, key, rfl, rfl⟩ <;> rfl

/-! ## Properties of the stored objects -/

/-- Every stored object satisfies `P`. -/
def Cluster.All (P : (k : Kind) → k.Obj → Prop) (c : Cluster) : Prop :=
  ∀ k, ∀ o : k.Obj, o ∈ c.tbl k → P k o

/-- The objects of the reply satisfy `P`, and are those that were asked for. -/
def Request.Returns (P : (k : Kind) → k.Obj → Prop) : (op : Request) → op.Reply → Prop
  | .get k key, r => ∀ o, r = .ok o → P k o ∧ o.key = key
  | .list k ns, r => ∀ l, r = .ok l → ∀ o ∈ l, P k o ∧ (ns = "" ∨ o.metadata.ns = ns)
  | _, _ => True

theorem Request.Returns.mono {P P' : (k : Kind) → k.Obj → Prop} (h : ∀ k o, P k o → P' k o)
    {op : Request} {r : op.Reply} (hr : op.Returns P r) : op.Returns P' r := by
  cases op with
  | get k key => exact fun o e => ⟨h k o (hr o e).1, (hr o e).2⟩
  | list k ns => exact fun l e o ho => ⟨h k o (hr l e o ho).1, (hr l e o ho).2⟩
  | create | update | updateStatus | delete | now | getenv | slack => trivial

/-- The objects of the reply satisfy `P`: those that were asked for, and the one written by a status
update. -/
def Request.Replies (P : (k : Kind) → k.Obj → Prop) : (op : Request) → op.Reply → Prop
  | .updateStatus k _, r => ∀ o, r = .ok o → P k o
  | op, r => op.Returns P r

/-- The call writes only objects that satisfy `P`, if the stored objects do. -/
def Request.Keeps (P : (k : Kind) → k.Obj → Prop) : Request → Prop
  | .create k o => ∀ v, P k (newObj k o v)
  | .update k o => ∀ old v, P k old → old.key = o.key → P k (updatedObj k old o v)
  | .updateStatus k o => ∀ old v, P k old → old.key = o.key → P k (statusObj k old o v)
  | _ => True

section Objects

variable {P : (k : Kind) → k.Obj → Prop} {c c' : Cluster} {op : Request} {r : op.Reply}

theorem Cluster.All.find? (h : c.All P) {k : Kind} {key : Key} {o : k.Obj}
    (ho : c.find? k key = some o) : P k o := h k o (find?_mem ho)

theorem Cluster.All.setTbl (h : c.All P) {k : Kind} {t : Tbl k} (ht : ∀ o : k.Obj, o ∈ t → P k o) :
    (c.setTbl k t).All P := by
  intro k' o ho
  by_cases hk : k' = k
  · subst hk; rw [c.setTbl_self] at ho; exact ht o ho
  · rw [c.setTbl_ne t hk] at ho; exact h k' o ho

/-- What is left after a removal was there before. -/
theorem mem_of_erase {k k' : Kind} {key : Key} {o : k'.Obj}
    (h : o ∈ (c.setTbl k ((c.tbl k).erase key)).tbl k') : o ∈ c.tbl k' := by
  by_cases hk : k' = k
  · subst hk
    rw [Cluster.setTbl_self] at h
    exact (Table.mem_erase.mp h).1
  · rwa [Cluster.setTbl_ne _ _ hk] at h

/-- A call that keeps `P` keeps it on the whole store. -/
theorem Serves.all (h : Serves c op r c') (hop : op.Keeps P) (hc : c.All P) : c'.All P := by
  rcases h.cases with rfl | ⟨k, o, o', -, rfl, hw⟩ | ⟨k, key, rfl, rfl⟩
  · exact hc
  · refine hc.setTbl fun x hx => ?_
    rcases Table.mem_put.mp hx with rfl | ⟨hx, -⟩
    · rcases hw with ⟨rfl, -, rfl⟩ | ⟨old, rfl, ho, -, rfl⟩ | ⟨old, rfl, ho, -, rfl⟩
      · exact hop _
      · exact hop old _ (hc.find? ho) (find?_key ho)
      · exact hop old _ (hc.find? ho) (find?_key ho)
    · exact hc k x hx
  · exact hc.setTbl fun x hx => hc k x (Table.mem_erase.mp hx).1

/-- A call that succeeds returns stored objects. -/
theorem Serves.returns (h : Serves c op r c') (hc : c.All P) : op.Returns P r := by
  cases op with
  | get k key =>
    intro o e
    have ho := (Serves.get_ok h).2 o e
    exact ⟨hc.find? ho, find?_key ho⟩
  | list k ns =>
    rintro l rfl o ho
    obtain ⟨⟨l', hp, e⟩, -⟩ := h
    cases e
    obtain ⟨hm, hn⟩ := List.mem_filter.mp (hp.mem_iff.mp ho)
    exact ⟨hc k o hm, by simpa using hn⟩
  | create | update | updateStatus | delete | now | getenv | slack => trivial

/-- A call that fails returns no object. -/
theorem Request.Failed.returns (h : op.Failed r) : op.Returns P r := by
  cases op with
  | get k key => rintro o rfl; obtain ⟨e, he⟩ := h; cases he
  | list k ns => rintro l rfl; obtain ⟨e, he⟩ := h; cases he
  | create | update | updateStatus | delete | now | getenv | slack => trivial

/-- In a flaky world only objects of the key and the namespace asked for are returned. -/
theorem flaky_returns {env : Cluster → Cluster → Prop} (h : (flaky env).answer c op r c') :
    op.Returns (fun _ _ => True) r := by
  rcases h with h | ⟨h, -⟩
  · exact h.returns fun _ _ _ => trivial
  · exact h.returns

theorem Request.Replies.returns (h : op.Replies P r) : op.Returns P r := by
  cases op with
  | updateStatus => trivial
  | _ => exact h

/-- What is replied, if the call keeps `P`. -/
theorem Serves.replies (h : Serves c op r c') (hop : op.Keeps P) (hc : c.All P) :
    op.Replies P r := by
  cases op with
  | updateStatus k o =>
    rintro x rfl
    rcases h.updateStatus_cases with ⟨-, e, he⟩ | ⟨old, hf, -, he, -⟩
    · cases he
    · cases he
      exact hop old _ (hc.find? hf) (find?_key hf)
  | _ => exact h.returns hc

theorem Request.Failed.replies (h : op.Failed r) : op.Replies P r := by
  cases op with
  | updateStatus => rintro o rfl; obtain ⟨e, he⟩ := h; cases he
  | _ => exact Request.Failed.returns (P := P) h

end Objects

/-- A program keeps a property of the stored objects if, as long as what it reads has the property,
its calls keep it. -/
theorem Cluster.All.exec {α : Type} {P : (k : Kind) → k.Obj → Prop}
    {env : Cluster → Cluster → Prop} {ok : Request → Prop} {p : Ctl α} {Q : α → Prop}
    {c c' : Cluster} {tr : List (Event Api Cluster)} {o : Outcome α} (hc : c.All P)
    (hu : Obeys (S := Api) (Request.Returns P) ok p Q) (hok : ∀ op, ok op → op.Keeps P)
    (henv : ∀ c c', c.All P → env c c' → c'.All P) (he : Exec (flaky env) p c tr o c') :
    c'.All P ∧ (∀ e ∈ tr, e.state.All P ∧ ok e.op) ∧ ∀ a, o = .done a → Q a := by
  have hI : Stable (flaky env) fun c => c.All P := henv
  refine hu.invariant hI (fun s op r s' hs hop ha => ?_) he hc
  rcases ha with ha | ⟨hf, rfl⟩
  · exact ⟨ha.returns hs, ha.all (hok _ hop) hs⟩
  · exact ⟨hf.returns, hs⟩

/-- The same for programs that run at the same time. -/
theorem Cluster.All.pool {α : Type} {P : (k : Kind) → k.Obj → Prop}
    {env : Cluster → Cluster → Prop} {starts : Ctl α → Prop} {init : Cluster → Prop}
    (hstart : ∀ p, starts p →
      Obeys (S := Api) (Request.Replies P) (Request.Keeps P) p fun _ => True)
    (hinit : ∀ c, init c → c.All P) (henv : ∀ c c', c.All P → env c c' → c'.All P)
    {ts : List (Trans (Pool Api Cluster α) Pool.Move)} {p : Pool Api Cluster α}
    (h : Run (Pool.sys (flaky env) starts init) ts p) : p.state.All P := by
  have hI : Stable (flaky env) fun c => c.All P := henv
  refine Pool.invariant hI (fun s op r s' hs hop ha => ?_) hstart hinit h
  rcases ha with ha | ⟨hf, rfl⟩
  · exact ⟨ha.replies hop hs, ha.all hop hs⟩
  · exact ⟨hf.replies, hs⟩

/-- A program that does not write the kind `k` leaves its objects alone. -/
theorem run_tbl_eq {α : Type} {p : Ctl α} {k : Kind}
    (hu : Uses (fun op : Request => op.writes ≠ some k) p) (c : Cluster) :
    (run serve p c).final.tbl k = c.tbl k :=
  (hu.run (I := fun c' => c'.tbl k = c.tbl k)
    (fun c' op hI hok => ((serves_serve c' op).tbl_eq hok).trans hI) rfl).1

end Automium
