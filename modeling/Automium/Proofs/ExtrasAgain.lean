import Automium.Proofs.ExtrasErrors

/-!
# Managing the extras again

A run is idle if it writes nothing (`Idles`); then it leaves the store as it is, so the entries of
an idle `ManageExtras` all look at the same store, and each of them fits what is stored there
(`manageEntries_idles`). The first run leaves the object of a kind as one of its entries asks
(`manageEntries_leaves`), as far as the store can keep that: an empty map is read back as absent.

So the second run is idle exactly if the entries of one kind ask for the same, and none of them for
an empty map (`extras_idle_again_iff`).
-/

namespace Automium

open Data Effect

/-! ## Runs that write nothing -/

/-- A read, or a removal that fails. -/
def Request.Idle : (op : Request) → op.Reply → Prop
  | .create _ _, _ | .update _ _, _ | .updateStatus _ _, _ => False
  | .delete _ _, r => ∃ e, r = .error e
  | .get _ _, _ | .list _ _, _ | .now, _ | .getenv _, _ | .slack _, _ => True

theorem serve_idle {c : Cluster} {op : Request} (h : op.Idle (serve c op).1) :
    (serve c op).2 = c := by
  cases op with
  | create | update | updateStatus => exact h.elim
  | list | now | getenv | slack => rfl
  | get k key => exact (Serves.get_ok (serves_serve c (.get k key))).1
  | delete k key =>
    cases hf : c.find? k key with
    | none => rw [serve_delete_none hf]
    | some o =>
      rw [serve_delete hf] at h
      obtain ⟨e, he⟩ := h
      cases he

/-- The calls of the run are idle. -/
def Idles {α : Type} (p : Ctl α) (c : Cluster) : Prop :=
  ∀ e ∈ (run serve p c).trace, e.op.Idle e.reply

section

variable {α β : Type} {p : Ctl α} {f : α → Ctl β} {c : Cluster}

@[simp] theorem idles_ret (a : α) : Idles (.ret a) c := by simp [Idles, run]

@[simp] theorem idles_call {op : Request} {k : op.Reply → Ctl α} :
    Idles (.call op k) c ↔ op.Idle (serve c op).1 ∧ Idles (k (serve c op).1) (serve c op).2 := by
  rw [Idles, run_call]
  exact List.forall_mem_cons

theorem idles_bind {a : α} (hp : (run serve p c).outcome = .done a) :
    Idles (p >>= f) c ↔ Idles p c ∧ Idles (f a) (run serve p c).final := by
  rw [Idles, run_bind_done hp]
  exact List.forall_mem_append

/-- An idle run leaves the store as it is. -/
theorem Idles.final (h : Idles p c) : (run serve p c).final = c := by
  induction p with
  | ret | crash => rfl
  | call op k ih =>
    obtain ⟨hop, hk⟩ := idles_call.mp h
    rw [serve_idle hop] at hk
    rw [run_call]
    dsimp only
    rw [serve_idle hop]
    exact ih _ hk

end

/-! ## Objects as they are read back -/

theorem omitEmpty_ne (m : Option StringMap) : omitEmpty m ≠ some ∅ := by
  unfold omitEmpty
  split
  · exact nofun
  · assumption

theorem omitEmpty_of_ne {m : Option StringMap} (h : m ≠ some ∅) : omitEmpty m = m := if_neg h

/-- Absent and empty are the same in the store. -/
theorem omitEmpty_congr {m m' : Option StringMap} (h : m.getD ∅ = m'.getD ∅) :
    omitEmpty m = omitEmpty m' := by
  have key : ∀ m : Option StringMap,
      omitEmpty m = if m.getD ∅ = ∅ then none else some (m.getD ∅) := by
    intro m
    unfold omitEmpty
    cases m with
    | none => rfl
    | some x => simp
  rw [key, key, h]

/-- The stored specs have been through JSON. -/
abbrev Cluster.AsStored (c : Cluster) : Prop := c.All fun k o => k.stored o.spec = o.spec

theorem Kind.stored_stored (k : Kind) (s : k.Spec) : k.stored (k.stored s) = k.stored s := by
  cases k with
  | service | module | node | job | pod => rfl
  | addon a =>
    show ({ s with parameters := omitEmpty (omitEmpty s.parameters) } : AddonSpec) = _
    rw [omitEmpty_of_ne (omitEmpty_ne _)]
    rfl
  | application =>
    show ({ s with parameters := omitEmpty (omitEmpty s.parameters) } : ApplicationSpec) = _
    rw [omitEmpty_of_ne (omitEmpty_ne _)]
    rfl

theorem Cluster.AsStored.run {α : Type} {c : Cluster} (h : c.AsStored) (p : Ctl α) :
    (run serve p c).final.AsStored := by
  induction p generalizing c with
  | ret | crash => exact h
  | call op next ih =>
    refine ih _ ((serves_serve c op).all ?_ h)
    cases op with
    | create k o => exact fun _ => k.stored_stored o.spec
    | update k o => exact fun _ _ _ _ => k.stored_stored o.spec
    | updateStatus k o => exact fun _ _ ho _ => ho
    | get | list | delete | now | getenv | slack => trivial

/-- A stored extra has no empty map. -/
theorem Cluster.AsStored.parameters {c : Cluster} (h : c.AsStored) {a : Addon} {key : Key}
    {o : AddonObj} (ho : c.find? (.addon a) key = some o) :
    omitEmpty o.spec.parameters = o.spec.parameters :=
  congrArg AddonSpec.parameters (h.find? ho)

namespace ReconcileService

/-! ## What an entry asks for -/

/-- The object of an extra is as an entry asks. -/
def Fits (service : Service) (version : String) (parameters : Option StringMap)
    (o : Option AddonObj) : Prop :=
  if service.spec.replicas = 0 then o = none
  else ∃ found, o = some found ∧ found.spec.version = version ∧ found.spec.parameters = parameters

/-- Entries of one kind ask for the same, and none for an empty map. -/
def Agree (service : Service) : Prop :=
  ∀ a : Addon, ∀ e ∈ service.spec.extra, e.name = a.name →
    entryParameters service a e ≠ some ∅ ∧ ∀ e' ∈ service.spec.extra, e'.name = a.name →
      e'.version = e.version ∧ entryParameters service a e' = entryParameters service a e

section

variable {service : Service} {a : Addon} {version : String} {parameters : Option StringMap}
  {c : Cluster}

theorem manageExtra_idles : Idles (manageExtra a (suffixOf a) service version parameters) c ↔
    Fits service version parameters (c.find? (.addon a) (extraKey service a)) := by
  have hkey : (extraManifest service (suffixOf a) version parameters).key = extraKey service a := rfl
  unfold manageExtra Fits
  dsimp only
  rw [hkey]
  split
  · rw [delete_bind, idles_call]
    cases hf : c.find? (.addon a) (extraKey service a) with
    | none =>
      rw [serve_delete_none hf]
      exact iff_of_true ⟨⟨_, rfl⟩, idles_ret _⟩ rfl
    | some o =>
      rw [serve_delete hf]
      exact iff_of_false (fun ⟨⟨_, he⟩, _⟩ => nomatch he) nofun
  · rw [get_bind, idles_call]
    refine (and_iff_right trivial).trans ?_
    cases hf : c.find? (.addon a) (extraKey service a) with
    | none =>
      rw [serve_get_none hf]
      dsimp only
      rw [if_pos (Error.isNotFound_newNotFound ..), create_bind, idles_call]
      exact iff_of_false (fun h => h.1) nofun
    | some found =>
      rw [serve_get hf]
      dsimp only
      unfold updateExtra
      split
      · rename_i hdiff
        rw [update_bind, idles_call]
        refine iff_of_false (fun h => h.1) ?_
        rintro ⟨_, ⟨⟩, hv, hp⟩
        exact hdiff.elim (fun h => h hv) fun h => h hp
      · rename_i hsame
        simp only [not_or, ne_eq, Decidable.not_not] at hsame
        exact iff_of_true (idles_ret _) ⟨found, rfl, hsame⟩

/-- The object is left as the entry asks, as far as the store keeps it. -/
theorem manageExtra_leaves (hs : c.AsStored) :
    Fits service version (omitEmpty parameters)
      ((run serve (manageExtra a (suffixOf a) service version parameters) c).final.find? (.addon a)
        (extraKey service a)) := by
  obtain ⟨-, hman⟩ := manageExtra_run service a version parameters c
  unfold Managed at hman
  unfold Fits
  split
  · rename_i hr
    rwa [if_pos hr] at hman
  · rename_i hr
    rw [if_neg hr] at hman
    obtain ⟨o, ho, hv, hp, -⟩ := hman
    exact ⟨o, ho, hv, ((hs.run _).parameters ho).symm.trans (omitEmpty_congr hp)⟩

end

/-! ## All entries -/

section

variable {service : Service} {extra : List ExtraSpec} {c : Cluster}

/-- Entries that can be managed: known ones, with parameters for logging. -/
def Manageable (extra : List ExtraSpec) : Prop :=
  ∀ e ∈ extra, KnownName e ∧ (e.name = Addon.logging.name → e.parameters ≠ none)

/-- Only the kinds that are named are written. -/
theorem manageEntries_writes (hknown : Manageable extra) :
    Uses (WritesOnly fun k => ∃ a, k = .addon a ∧ ∃ e ∈ extra, e.name = a.name)
      (manageEntries service extra) := by
  induction extra with
  | nil => trivial
  | cons extraSpec rest ih =>
    obtain ⟨⟨a, ha⟩, hp⟩ := hknown extraSpec List.mem_cons_self
    unfold manageEntries
    rw [manageEntry_eq ha hp]
    refine Uses.bind ((manageExtra_writes ..).mono fun op h k hk => ?_) fun r => ?_
    · exact ⟨a, h k hk, extraSpec, List.mem_cons_self, ha⟩
    · cases r with
      | error e => trivial
      | ok =>
        refine (ih fun e he => hknown e (List.mem_cons_of_mem _ he)).mono fun op h k hk => ?_
        obtain ⟨b, hb, e, he, hn⟩ := h k hk
        exact ⟨b, hb, e, List.mem_cons_of_mem _ he, hn⟩

variable (service) in
/-- The object of a kind that is named is left as one of the entries asks. -/
theorem manageEntries_leaves (hs : c.AsStored) (hknown : Manageable extra) {a : Addon}
    (hnamed : ∃ e ∈ extra, e.name = a.name) :
    ∃ e ∈ extra, e.name = a.name ∧
      Fits service e.version (omitEmpty (entryParameters service a e))
        ((run serve (manageEntries service extra) c).final.find? (.addon a)
          (extraKey service a)) := by
  induction extra generalizing c with
  | nil => simp at hnamed
  | cons extraSpec rest ih =>
    obtain ⟨hhead, hrest⟩ := List.forall_mem_cons.mp hknown
    obtain ⟨⟨b, hb⟩, hp⟩ := hhead
    have heq : manageEntry service extraSpec = _ := manageEntry_eq hb hp
    have hout : (run serve (manageEntry service extraSpec) c).outcome = .done (.ok ()) :=
      manageEntry_done c hb hp
    unfold manageEntries
    rw [run_bind_done hout]
    by_cases hlater : ∃ e ∈ rest, e.name = a.name
    · obtain ⟨e, he, hn, hfits⟩ := ih (hs.run _) hrest hlater
      exact ⟨e, List.mem_cons_of_mem _ he, hn, hfits⟩
    · -- The last entry of the kind: no later one touches its object.
      obtain ⟨e, he, hn⟩ := hnamed
      obtain rfl : e = extraSpec := (List.mem_cons.mp he).resolve_right fun he => hlater ⟨e, he, hn⟩
      obtain rfl : a = b := Addon.name_inj (hn.symm.trans hb)
      refine ⟨e, List.mem_cons_self, hn, ?_⟩
      have hunnamed : ¬ ∃ b, Kind.addon a = .addon b ∧ ∃ e ∈ rest, e.name = b.name := by
        rintro ⟨b, hk, hb⟩
        exact hlater (Kind.addon.inj hk ▸ hb)
      have hframe : ∀ c₁, (run serve (manageEntries service rest) c₁).final.tbl (.addon a) =
          c₁.tbl (.addon a) :=
        run_tbl_eq ((manageEntries_writes hrest).mono fun op h => h.ne hunnamed)
      dsimp only
      rw [Cluster.find?, hframe, heq]
      exact manageExtra_leaves hs

/-- The run is idle exactly if all entries ask for what is stored. -/
theorem manageEntries_idles (hknown : Manageable extra) : Idles (manageEntries service extra) c ↔
    ∀ e ∈ extra, ∀ a : Addon, e.name = a.name →
      Fits service e.version (entryParameters service a e)
        (c.find? (.addon a) (extraKey service a)) := by
  induction extra with
  | nil => exact iff_of_true (idles_ret _) nofun
  | cons extraSpec rest ih =>
    obtain ⟨⟨⟨b, hb⟩, hp⟩, hrest⟩ := List.forall_mem_cons.mp hknown
    have heq : manageEntry service extraSpec = _ := manageEntry_eq hb hp
    have hout : (run serve (manageEntry service extraSpec) c).outcome = .done (.ok ()) :=
      manageEntry_done c hb hp
    have hhead : Idles (manageEntry service extraSpec) c ↔ ∀ a : Addon, extraSpec.name = a.name →
        Fits service extraSpec.version (entryParameters service a extraSpec)
          (c.find? (.addon a) (extraKey service a)) := by
      rw [heq, manageExtra_idles]
      constructor
      · intro h a ha
        obtain rfl := Addon.name_inj (hb.symm.trans ha)
        exact h
      · exact fun h => h b hb
    unfold manageEntries
    rw [idles_bind hout, List.forall_mem_cons, ← hhead, ← ih hrest]
    refine and_congr_right fun hidle => ?_
    rw [hidle.final]

/-- The second run is idle exactly if there are no replicas, or the entries agree (module doc). -/
theorem extras_idle_again_iff (hs : c.AsStored) (hknown : Manageable service.spec.extra) :
    Idles (ManageExtras service) (run serve (ManageExtras service) c).final ↔
      service.spec.replicas = 0 ∨ Agree service := by
  unfold ManageExtras
  rw [manageEntries_idles hknown]
  have hleaves := fun (a : Addon) (e : ExtraSpec) (he : e ∈ service.spec.extra)
    (hn : e.name = a.name) => manageEntries_leaves service hs hknown ⟨e, he, hn⟩
  unfold Fits at hleaves ⊢
  by_cases hr : service.spec.replicas = 0
  · simp only [if_pos hr] at hleaves ⊢
    refine iff_of_true (fun e he a hn => ?_) (.inl hr)
    obtain ⟨_, -, -, hgone⟩ := hleaves a e he hn
    exact hgone
  · simp only [if_neg hr] at hleaves ⊢
    rw [or_iff_right hr]
    constructor
    · intro h a e he hn
      obtain ⟨o, ho, hv, hp⟩ := h e he a hn
      refine ⟨fun hempty => ?_, fun e' he' hn' => ?_⟩
      · have hread := ((hs.run _).parameters ho).symm
        rw [hp, hempty] at hread
        exact omitEmpty_ne _ hread.symm
      · obtain ⟨o', ho', hv', hp'⟩ := h e' he' a hn'
        cases ho.symm.trans ho'
        exact ⟨hv'.symm.trans hv, hp'.symm.trans hp⟩
    · intro hagree e he a hn
      obtain ⟨e', he', hn', o, ho, hv, hp⟩ := hleaves a e he hn
      obtain ⟨hversion, hparameters⟩ := (hagree a e he hn).2 e' he' hn'
      refine ⟨o, ho, hv.trans hversion, hp.trans ?_⟩
      rw [hparameters, omitEmpty_of_ne (hagree a e he hn).1]

end

/-- A logging entry with an empty map, to which the name of the cluster is added. -/
def loggingEntry : ExtraSpec := { name := "logging", version := "2", parameters := some ∅ }

/-- The second run for this entry in an empty store. -/
theorem extras_idle_again_logging :
    Idles (ManageExtras (clusterService [loggingEntry]))
        (run serve (ManageExtras (clusterService [loggingEntry])) .empty).final ↔
      (clusterService [loggingEntry]).spec.replicas = 0 ∨ Agree (clusterService [loggingEntry]) :=
  extras_idle_again_iff (fun _ _ ho => absurd ho Table.not_mem_empty) fun e he => by
    cases List.mem_singleton.mp he
    exact ⟨⟨.logging, rfl⟩, nofun⟩

/-- A Backup whose empty map is read back as absent is written again. -/
theorem extras_written_again :
    ¬ ∀ (service : Service) (c : Cluster), appOf service = kubernetesCluster →
      c.AsStored → Manageable service.spec.extra →
      (run serve (ManageExtras service) c).outcome = .done (.ok ()) →
      Idles (ManageExtras service) (run serve (ManageExtras service) c).final := by
  intro h
  have happ : appOf (clusterService [backupEntry]) = kubernetesCluster := StringMap.index_insert ..
  have hs : Cluster.empty.AsStored := fun _ _ ho => absurd ho Table.not_mem_empty
  have hknown : Manageable (clusterService [backupEntry]).spec.extra := fun e he => by
    cases List.mem_singleton.mp he
    exact ⟨⟨.backup, rfl⟩, nofun⟩
  have hidle := h (clusterService [backupEntry]) .empty happ hs hknown rfl
  obtain ⟨o, ho, -, hp⟩ :=
    (manageEntries_idles hknown).mp hidle backupEntry List.mem_cons_self .backup rfl
  exact omitEmpty_ne _ (((hs.run _).parameters ho).trans hp)

end ReconcileService

end Automium
