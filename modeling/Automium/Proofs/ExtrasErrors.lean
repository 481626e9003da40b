import Automium.Effect.Crash
import Automium.Proofs.Extras

/-!
# Panics and failed reads of `ManageExtras`

A logging entry without parameters panics, for its map is nil (`extras_never_panic_iff`). It is
reached if the entries before it are known, since these can be managed.

After a `Get` that failed the `manage…Extra` functions go on with the zero object. If it has the
version and the parameters of the entry nothing is written, and the error is lost; otherwise the
zero object, whose name is empty, is sent to the server, which rejects it
(`failed_read_reported_iff`).
-/

namespace Automium

open Data Effect

namespace ReconcileService

/-! ## Panics -/

/-- The name of the entry is one that the `switch` has a case for. -/
def KnownName (extraSpec : ExtraSpec) : Prop := ∃ a : Addon, extraSpec.name = a.name

/-- No logging entry that is reached lacks its parameters. -/
def MapsPresent (extra : List ExtraSpec) : Prop :=
  ∀ before extraSpec rest, extra = before ++ extraSpec :: rest → (∀ e ∈ before, KnownName e) →
    extraSpec.name = Addon.logging.name → extraSpec.parameters ≠ none

section

variable {service : Service} {extraSpec : ExtraSpec} {rest extra : List ExtraSpec}

/-- The first entry has its parameters, and if it is known the others have them too. -/
theorem mapsPresent_cons : MapsPresent (extraSpec :: rest) ↔
    (extraSpec.name = Addon.logging.name → extraSpec.parameters ≠ none) ∧
      (KnownName extraSpec → MapsPresent rest) := by
  constructor
  · intro h
    refine ⟨h [] extraSpec rest rfl nofun, fun hknown before e after he hb => ?_⟩
    exact h (extraSpec :: before) e after (by rw [he]; rfl)
      (List.forall_mem_cons.mpr ⟨hknown, hb⟩)
  · rintro ⟨hhead, htail⟩ before e after he hb hn
    cases before with
    | nil =>
      cases he
      exact hhead hn
    | cons b before =>
      cases he
      obtain ⟨hknown, hb⟩ := List.forall_mem_cons.mp hb
      exact htail hknown before e after rfl hb hn

theorem updateExtra_noCrash (a : Addon) (found manifest : AddonObj) :
    NoCrash (updateExtra a found manifest) := by
  unfold updateExtra
  split
  · rw [update_bind]
    intro r
    cases r <;> trivial
  · trivial

theorem manageExtra_noCrash (a : Addon) (suffix : String) (service : Service) (version : String)
    (parameters : Option StringMap) :
    NoCrash (manageExtra a suffix service version parameters) := by
  unfold manageExtra
  dsimp only
  split
  · rw [delete_bind]
    intro r
    cases r with
    | error e => dsimp only; split <;> trivial
    | ok => trivial
  · rw [get_bind]
    intro r
    cases r with
    | error e =>
      dsimp only
      split
      · rw [create_bind]
        intro r
        cases r <;> trivial
      · exact updateExtra_noCrash ..
    | ok found => exact updateExtra_noCrash ..

/-- The `default` case. -/
theorem manageEntry_unknown (h : ¬ KnownName extraSpec) : manageEntry service extraSpec =
    .ret (.error (.new ("unknown extras specified: " ++ extraSpec.name))) := by
  have hne : ∀ a : Addon, extraSpec.name ≠ a.name := fun a ha => h ⟨a, ha⟩
  exact (if_neg (hne .monitoring)).trans ((if_neg (hne .backup)).trans (if_neg (hne .logging)))

theorem manageEntry_noCrash
    (h : extraSpec.name = Addon.logging.name → extraSpec.parameters ≠ none) :
    NoCrash (manageEntry service extraSpec) := by
  by_cases hknown : KnownName extraSpec
  · obtain ⟨a, ha⟩ := hknown
    rw [manageEntry_eq ha h]
    exact manageExtra_noCrash ..
  · rw [manageEntry_unknown hknown]
    trivial

/-- A logging entry without parameters. -/
theorem manageEntry_nilMap (hn : extraSpec.name = Addon.logging.name)
    (hp : extraSpec.parameters = none) :
    manageEntry service extraSpec = .crash "assignment to entry in nil map" := by
  unfold manageEntry manageLoggingExtra
  rw [hn, hp]
  rfl

theorem manageEntries_noCrash (h : MapsPresent extra) : NoCrash (manageEntries service extra) := by
  induction extra with
  | nil => trivial
  | cons extraSpec rest ih =>
    obtain ⟨hhead, htail⟩ := mapsPresent_cons.mp h
    unfold manageEntries
    by_cases hknown : KnownName extraSpec
    · refine (manageEntry_noCrash hhead).bind fun r => ?_
      cases r with
      | error e => trivial
      | ok => exact ih (htail hknown)
    · rw [manageEntry_unknown hknown]
      trivial

variable (service) in
/-- In any store the entries before the one without parameters can be managed. -/
theorem manageEntries_crash (h : ¬ MapsPresent extra) (c : Cluster) :
    ∃ msg, (run serve (manageEntries service extra) c).outcome = .crashed msg := by
  induction extra generalizing c with
  | nil => exact (h fun before _ _ he => absurd he (by simp)).elim
  | cons extraSpec rest ih =>
    rw [mapsPresent_cons, not_and_or] at h
    unfold manageEntries
    by_cases hhead : extraSpec.name = Addon.logging.name → extraSpec.parameters ≠ none
    · obtain ⟨hknown, hrest⟩ := Classical.not_imp.mp (h.resolve_left fun hn => hn hhead)
      obtain ⟨a, ha⟩ := hknown
      rw [run_bind_done (manageEntry_done c ha hhead)]
      exact ih hrest _
    · obtain ⟨hn, hp⟩ := Classical.not_imp.mp hhead
      rw [manageEntry_nilMap hn (Decidable.not_not.mp hp)]
      exact ⟨_, rfl⟩

/-- `ManageExtras` panics exactly if it reaches a logging entry without parameters, whatever is
stored and whichever calls fail. -/
theorem extras_never_panic_iff (env : Cluster → Cluster → Prop) (service : Service) (c : Cluster) :
    (∀ tr o c', Exec (flaky env) (ManageExtras service) c tr o c' → ∀ msg, o ≠ .crashed msg) ↔
      MapsPresent service.spec.extra := by
  constructor
  · intro h
    by_contra hmaps
    obtain ⟨msg, hcrash⟩ := manageEntries_crash service hmaps c
    exact h _ _ _ (flaky_of_calm env (calm_run (ManageExtras service) c)) msg hcrash
  · rintro hmaps tr o c' he msg rfl
    exact Crashes.not_of_noCrash (manageEntries_noCrash hmaps) ⟨tr, msg, c', he⟩

end

/-- A logging entry as the schema allows it. -/
def bareLogging : ExtraSpec := { name := "logging", version := "1" }

theorem extras_panic :
    ¬ ∀ (env : Cluster → Cluster → Prop) (service : Service) (c : Cluster)
      (tr : List (Event Api Cluster)) (o : Outcome (Except Error Unit)) (c' : Cluster),
      Exec (flaky env) (ManageExtras service) c tr o c' → ∀ msg, o ≠ .crashed msg := by
  intro h
  have he := flaky_of_calm (fun _ _ => False)
    (calm_run (ManageExtras (clusterService [bareLogging])) .empty)
  exact h _ _ _ _ _ _ he "assignment to entry in nil map" rfl

/-! ## A read that fails -/

section

variable {service : Service} {entry : ExtraSpec} {a : Addon} {c : Cluster}

/-- Without an object of the empty name, the update of the zero object fails. -/
theorem updateExtra_zero {manifest : AddonObj} (hzero : c.find? (.addon a) zeroAddon.key = none)
    (hdiff : "" ≠ manifest.spec.version ∨ none ≠ manifest.spec.parameters) :
    Yields lossy c (updateExtra a zeroAddon manifest)
      fun r c' => (∃ e, r = .error e) ∧ c' = c := by
  have hdiff' : zeroAddon.spec.version ≠ manifest.spec.version ∨
    zeroAddon.spec.parameters ≠ manifest.spec.parameters := hdiff
  unfold updateExtra
  rw [if_pos hdiff', update_bind]
  refine .call lossy_closed fun r c₁ ha => ?_
  have hfailed : (∃ e, r = .error e) ∧ c₁ = c := by
    rcases ha with ha | hf
    · rcases ha.update_cases with ⟨hc, hr⟩ | ⟨old, hf, -⟩
      · exact ⟨hr, hc⟩
      · exact nomatch hzero.symm.trans hf
    · exact hf
  obtain ⟨⟨e, rfl⟩, rfl⟩ := hfailed
  exact .ret lossy_closed ⟨⟨e, rfl⟩, rfl⟩

/-- The zero object is all right for an entry without a version and parameters. -/
theorem updateExtra_zero_same {manifest : AddonObj} (hv : manifest.spec.version = "")
    (hp : manifest.spec.parameters = none) : updateExtra a zeroAddon manifest = .ret (.ok ()) := by
  unfold updateExtra
  rw [hv, hp]
  rfl

/-- What is left of `manageExtra` after a read that failed. -/
theorem manageExtra_failed (hr : service.spec.replicas ≠ 0) {version : String}
    {parameters : Option StringMap} {e : Error} (he : e.isNotFound = false)
    {tr : List (Event Api Cluster)} {o : Outcome (Except Error Unit)} {c' : Cluster} :
    Exec lossy (manageExtra a (suffixOf a) service version parameters) c
        (⟨c, .get (.addon a) (extraKey service a), .error e⟩ :: tr) o c' ↔
      Exec lossy (updateExtra a zeroAddon
        (extraManifest service (suffixOf a) version parameters)) c tr o c' := by
  have hkey : (extraManifest service (suffixOf a) version parameters).key = extraKey service a := rfl
  unfold manageExtra
  dsimp only
  rw [if_neg hr, get_bind, hkey]
  constructor
  · intro h
    rcases h.call_cases with ⟨-, htr, -⟩ | ⟨c₁, r, c₂, tr', henv, ha, hk, htr⟩
    · cases htr
    · cases htr
      obtain rfl : c₂ = c := by
        rcases ha with ha | ⟨-, hc⟩
        · exact ha.get_ok.1
        · exact hc
      simpa only [he, Bool.false_eq_true, if_false] using hk
  · intro h
    refine .call (.inr ⟨⟨e, rfl⟩, rfl⟩) ?_
    simpa only [he, Bool.false_eq_true, if_false] using h

/-- A read that fails is reported exactly if the zero object differs from the entry: it has a
version, or parameters. No object has an empty name. -/
theorem failed_read_reported_iff (hr : service.spec.replicas > 0) (hn : entry.name = a.name)
    (hp : a = .logging → entry.parameters ≠ none)
    (hzero : c.find? (.addon a) zeroAddon.key = none) :
    (∀ e tr o c', e.isNotFound = false → o ≠ .halted →
        Exec lossy (manageEntry service entry) c
          (⟨c, .get (.addon a) (extraKey service a), .error e⟩ :: tr) o c' →
        (∃ e', o = .done (.error e')) ∧ c' = c) ↔
      entry.version ≠ "" ∨ entry.parameters ≠ none := by
  have hr' : service.spec.replicas ≠ 0 := by omega
  have hnone : entryParameters service a entry = none ↔ entry.parameters = none := by
    rw [entryParameters, Option.map_eq_none_iff]
  rw [manageEntry_eq hn fun hlog => hp (Addon.name_inj (hn.symm.trans hlog))]
  constructor
  · intro h
    by_contra hsame
    rw [not_or, Decidable.not_not, Decidable.not_not] at hsame
    have hret : updateExtra a zeroAddon (extraManifest service (suffixOf a) entry.version
      (entryParameters service a entry)) = _ := updateExtra_zero_same hsame.1 (hnone.mpr hsame.2)
    have hdone : Outcome.done (Except.ok () : Except Error Unit) ≠ .halted := by rintro ⟨⟩
    obtain ⟨⟨e', he'⟩, -⟩ := h (.new "timeout") [] (.done (.ok ())) c rfl hdone
      ((manageExtra_failed hr' rfl).mpr (hret ▸ .ret _ c))
    cases he'
  · intro hdiff e tr o c' he ho hexec
    have hdiff' : "" ≠ entry.version ∨ none ≠ entryParameters service a entry :=
      hdiff.imp Ne.symm fun h hnil => h (hnone.mp hnil.symm)
    obtain ⟨r, hdone, ⟨e', rfl⟩, hc⟩ :=
      updateExtra_zero hzero hdiff' ((manageExtra_failed hr' he).mp hexec) ho
    exact ⟨⟨e', hdone⟩, hc⟩

end

/-- A failed read for an entry with a version, in an empty store. -/
theorem failed_read_reported_backup :
    (∀ e tr o c', e.isNotFound = false → o ≠ .halted →
        Exec lossy (manageEntry (clusterService [backupEntry]) backupEntry) .empty
          (⟨.empty, .get (.addon .backup) (extraKey (clusterService [backupEntry]) .backup),
            .error e⟩ :: tr) o c' →
        (∃ e', o = .done (.error e')) ∧ c' = .empty) ↔
      backupEntry.version ≠ "" ∨ backupEntry.parameters ≠ none :=
  failed_read_reported_iff (by decide) rfl nofun rfl

/-- An entry with an empty version, as the schema allows it. -/
def unversionedEntry : ExtraSpec := { name := "monitoring", version := "" }

/-- A read that times out, and `nil` is returned. -/
theorem failed_read_lost :
    ¬ ∀ (service : Service) (entry : ExtraSpec) (a : Addon) (c : Cluster),
      service.spec.replicas > 0 → entry.name = a.name →
      (a = .logging → entry.parameters ≠ none) →
      c.find? (.addon a) zeroAddon.key = none →
      ∀ e tr o c', e.isNotFound = false → o ≠ .halted →
        Exec lossy (manageEntry service entry) c
          (⟨c, .get (.addon a) (extraKey service a), .error e⟩ :: tr) o c' →
        (∃ e', o = .done (.error e')) ∧ c' = c := by
  intro h
  have hexec : Exec lossy (manageEntry (clusterService [unversionedEntry]) unversionedEntry) .empty
      [⟨.empty, .get (.addon .monitoring) (extraKey (clusterService [unversionedEntry]) .monitoring),
        .error (.new "timeout")⟩] (.done (.ok ())) .empty :=
    .call (.inr ⟨⟨_, rfl⟩, rfl⟩) (.ret _ _)
  obtain ⟨⟨e', he'⟩, -⟩ := h (clusterService [unversionedEntry]) unversionedEntry .monitoring .empty
    (by decide) rfl (fun ha => nomatch ha) rfl _ _ (.done (.ok ())) _ rfl nofun hexec
  cases he'

end ReconcileService

end Automium
