import Automium.Proofs.ServiceCalls

/-!
# The extras of a Service

`ManageExtras` walks the entries of `Spec.Extra`. An entry settles the object of its kind
(`Managed`): with no replicas it is gone, and otherwise it is there with the version and the
parameters of the entry. The kinds that are not listed are never looked at, and of an object that
is there already only the version and the parameters are written (`extras_match`).
-/

namespace Automium

open Data Effect

/-- The name of an extra in `Spec.Extra`. -/
def Addon.name : Addon → String
  | .monitoring => "monitoring"
  | .backup => "backup"
  | .logging => "logging"

theorem Addon.name_inj {a b : Addon} (h : a.name = b.name) : a = b := by
  cases a <;> cases b <;> first | rfl | exact absurd h (by decide)

namespace ReconcileService

/-- The end of the name of an extra's object. -/
def suffixOf : Addon → String
  | .monitoring => monitoringSuffix
  | .backup => backupSuffix
  | .logging => loggingSuffix

/-- The key of the object of an extra. -/
def extraKey (service : Service) (a : Addon) : Key :=
  ⟨service.metadata.ns, service.metadata.name ++ suffixOf a⟩

/-- The bindings that the object of an extra is to have, for an entry with these ones. -/
def wantedParameters (service : Service) (a : Addon) (parameters : StringMap) : StringMap :=
  if a = .logging then parameters.insert "clusterName" service.metadata.name else parameters

/-- What becomes of the object of an extra that is wanted at this version with these bindings. An
absent map has no bindings. -/
def Managed (service : Service) (version : String) (parameters : StringMap)
    (before after : Option AddonObj) : Prop :=
  if service.spec.replicas = 0 then after = none
  else ∃ o, after = some o ∧ o.spec.version = version ∧
    o.spec.parameters.getD ∅ = parameters ∧
    o.spec.cluster = (before.map fun old => old.spec.cluster).getD service.metadata.name

/-! ## One entry -/

theorem omitEmpty_getD (m : Option StringMap) : (omitEmpty m).getD ∅ = m.getD ∅ := by
  unfold omitEmpty
  split
  · rename_i h; rw [h]; rfl
  · rfl

section

variable {service : Service} {a : Addon} {version : String} {parameters : Option StringMap}
  {c : Cluster}

/-- An object that is there gets the version and the parameters. -/
theorem updateExtra_run {found : AddonObj} (hr : service.spec.replicas ≠ 0)
    (hf : c.find? (.addon a) (extraKey service a) = some found) :
    let manifest := extraManifest service (suffixOf a) version parameters
    (run serve (updateExtra a found manifest) c).outcome = .done (.ok ()) ∧
      Managed service version (parameters.getD ∅) (some found)
        ((run serve (updateExtra a found manifest) c).final.find? (.addon a)
          (extraKey service a)) := by
  intro manifest
  unfold updateExtra Managed
  rw [if_neg hr]
  split
  · have hkey : (refreshed found manifest).key = extraKey service a := find?_key hf
    have hfind : c.find? (.addon a) (refreshed found manifest).key = some found := by
      rw [hkey]; exact hf
    rw [update_bind, run_call, serve_update hfind rfl]
    refine ⟨rfl, updatedObj (.addon a) found (refreshed found manifest) (c.version + 1), ?_, rfl,
      omitEmpty_getD _, rfl⟩
    show (c.setTbl _ _).find? _ _ = _
    rw [Cluster.find?_setTbl, ← hkey]
    exact Table.find?_put_self
  · rename_i h
    simp only [not_or, ne_eq, Decidable.not_not] at h
    exact ⟨rfl, found, hf, h.1, congrArg (·.getD ∅) h.2, rfl⟩

/-- The object of one entry is managed. -/
theorem manageExtra_run (service : Service) (a : Addon) (version : String)
    (parameters : Option StringMap) (c : Cluster) :
    let p := manageExtra a (suffixOf a) service version parameters
    (run serve p c).outcome = .done (.ok ()) ∧
      Managed service version (parameters.getD ∅) (c.find? (.addon a) (extraKey service a))
        ((run serve p c).final.find? (.addon a) (extraKey service a)) := by
  intro p
  have hkey : (extraManifest service (suffixOf a) version parameters).key = extraKey service a := rfl
  simp only [p, manageExtra, hkey]
  by_cases hr : service.spec.replicas = 0
  · rw [if_pos hr, delete_bind, run_call]
    unfold Managed
    rw [if_pos hr]
    cases hf : c.find? (.addon a) (extraKey service a) with
    | none => rw [serve_delete_none hf]; exact ⟨rfl, hf⟩
    | some old =>
      rw [serve_delete hf]
      refine ⟨rfl, ?_⟩
      show (c.setTbl _ _).find? _ _ = _
      rw [Cluster.find?_setTbl, Table.find?_erase, if_pos rfl]
  · rw [if_neg hr, get_bind, run_call]
    cases hf : c.find? (.addon a) (extraKey service a) with
    | some found => rw [serve_get hf]; exact updateExtra_run hr hf
    | none =>
      rw [serve_get_none hf]
      dsimp only
      rw [if_pos (Error.isNotFound_newNotFound ..), create_bind, run_call,
        serve_create rfl (hkey ▸ hf)]
      unfold Managed
      rw [if_neg hr]
      refine ⟨rfl, newObj (.addon a) (extraManifest service (suffixOf a) version parameters)
        (c.version + 1), ?_, rfl, omitEmpty_getD _, rfl⟩
      show (c.setTbl _ _).find? _ _ = _
      rw [Cluster.find?_setTbl, ← hkey]
      exact Table.find?_put_self

end

/-! ## All entries -/

/-- An entry of a known kind, with parameters. -/
def KnownExtra (extraSpec : ExtraSpec) : Prop :=
  (∃ a : Addon, extraSpec.name = a.name) ∧ extraSpec.parameters ≠ none

/-- The parameters of the manifest for an entry. -/
def entryParameters (service : Service) (a : Addon) (extraSpec : ExtraSpec) : Option StringMap :=
  extraSpec.parameters.map (wantedParameters service a)

/-- The three functions are one, but for a panic. -/
theorem manageEntry_eq {service : Service} {extraSpec : ExtraSpec} {a : Addon}
    (hn : extraSpec.name = a.name)
    (hp : extraSpec.name = Addon.logging.name → extraSpec.parameters ≠ none) :
    manageEntry service extraSpec = manageExtra a (suffixOf a) service extraSpec.version
      (entryParameters service a extraSpec) := by
  unfold manageEntry manageMonitoringExtra manageBackupExtra manageLoggingExtra entryParameters
  rw [hn]
  cases hparameters : extraSpec.parameters with
  | some parameters => cases a <;> rfl
  | none =>
    cases a with
    | logging => exact absurd hparameters (hp hn)
    | monitoring | backup => rfl

theorem manageEntry_done {service : Service} {extraSpec : ExtraSpec} {a : Addon} (c : Cluster)
    (hn : extraSpec.name = a.name)
    (hp : extraSpec.name = Addon.logging.name → extraSpec.parameters ≠ none) :
    (run serve (manageEntry service extraSpec) c).outcome = .done (.ok ()) := by
  rw [manageEntry_eq hn hp]
  exact (manageExtra_run ..).1

/-- What the entries do to the objects of all kinds. -/
structure AllManaged (service : Service) (extra : List ExtraSpec) (c c' : Cluster) : Prop where
  listed : ∀ extraSpec ∈ extra, ∀ a : Addon, ∀ parameters, extraSpec.name = a.name →
    extraSpec.parameters = some parameters →
      Managed service extraSpec.version (wantedParameters service a parameters)
        (c.find? (.addon a) (extraKey service a)) (c'.find? (.addon a) (extraKey service a))
  others : ∀ a : Addon, (∀ extraSpec ∈ extra, extraSpec.name ≠ a.name) →
    c'.tbl (.addon a) = c.tbl (.addon a)

/-- One more entry: it settles its own kind, which no later entry touches. -/
theorem AllManaged.cons {service : Service} {extraSpec : ExtraSpec} {rest : List ExtraSpec}
    {a : Addon} {parameters : StringMap} {c c₁ c' : Cluster} (hn : extraSpec.name = a.name)
    (hp : extraSpec.parameters = some parameters)
    (hnew : extraSpec.name ∉ rest.map ExtraSpec.name)
    (hman : Managed service extraSpec.version (wantedParameters service a parameters)
      (c.find? (.addon a) (extraKey service a)) (c₁.find? (.addon a) (extraKey service a)))
    (htbl : ∀ k, k ≠ .addon a → c₁.tbl k = c.tbl k) (h : AllManaged service rest c₁ c') :
    AllManaged service (extraSpec :: rest) c c' := by
  have hne : ∀ e ∈ rest, ∀ b : Addon, e.name = b.name → Kind.addon b ≠ .addon a := by
    intro e he b hb hk
    cases hk
    exact hnew (hn ▸ hb ▸ List.mem_map_of_mem he)
  refine ⟨?_, ?_⟩
  · intro e he b ps hb hps
    rcases List.mem_cons.mp he with rfl | he
    · cases Addon.name_inj (hn.symm.trans hb)
      cases hp.symm.trans hps
      rw [Cluster.find?, Cluster.find?, h.others a fun e he hb => hne e he a hb rfl]
      exact hman
    · have hlist := h.listed e he b ps hb hps
      rwa [Cluster.find?, htbl _ (hne e he b hb)] at hlist
  · intro b hb
    have hk : Kind.addon b ≠ .addon a := fun hk =>
      hb extraSpec List.mem_cons_self (Kind.addon.inj hk ▸ hn)
    exact (h.others b fun e he => hb e (List.mem_cons_of_mem _ he)).trans (htbl _ hk)

theorem manageEntries_run (service : Service) {extra : List ExtraSpec} (c : Cluster)
    (hknown : ∀ extraSpec ∈ extra, KnownExtra extraSpec)
    (hnodup : (extra.map ExtraSpec.name).Nodup) :
    (run serve (manageEntries service extra) c).outcome = .done (.ok ()) ∧
      AllManaged service extra c (run serve (manageEntries service extra) c).final := by
  induction extra generalizing c with
  | nil => exact ⟨rfl, ⟨by simp, fun _ _ => rfl⟩⟩
  | cons extraSpec rest ih =>
    obtain ⟨hnew, hrest⟩ := List.nodup_cons.mp hnodup
    obtain ⟨⟨a, hn⟩, hp⟩ := hknown extraSpec List.mem_cons_self
    obtain ⟨parameters, hp⟩ := Option.ne_none_iff_exists'.mp hp
    have heq : manageEntry service extraSpec = _ := manageEntry_eq hn fun _ => by rw [hp]; exact nofun
    have hwanted : entryParameters service a extraSpec =
      some (wantedParameters service a parameters) := by rw [entryParameters, hp]; rfl
    rw [hwanted] at heq
    have hrun := manageExtra_run service a extraSpec.version
      (some (wantedParameters service a parameters)) c
    have htbl : ∀ k, k ≠ .addon a → (run serve (manageEntry service extraSpec) c).final.tbl k =
        c.tbl k := fun k hk => by
      rw [heq]
      exact run_tbl_eq ((manageExtra_writes ..).mono fun op h => h.ne hk) c
    rw [← heq] at hrun
    obtain ⟨hout, hman⟩ := hrun
    obtain ⟨hout', hall⟩ := ih (run serve (manageEntry service extraSpec) c).final
      (fun e he => hknown e (List.mem_cons_of_mem _ he)) hrest
    unfold manageEntries
    rw [run_bind_done hout]
    exact ⟨hout', hall.cons hn hp hnew hman htbl⟩

/-- What `ManageExtras` makes of known entries, each named once: it succeeds, the listed kinds are
managed, and the others are left alone. -/
theorem extras_match (service : Service) (c : Cluster)
    (hknown : ∀ extraSpec ∈ service.spec.extra, KnownExtra extraSpec)
    (hnodup : (service.spec.extra.map ExtraSpec.name).Nodup) :
    (run serve (ManageExtras service) c).outcome = .done (.ok ()) ∧
      AllManaged service service.spec.extra c (run serve (ManageExtras service) c).final :=
  manageEntries_run service c hknown hnodup

/-! ### An entry that was removed -/

/-- A Service with these extras. -/
def clusterService (extra : List ExtraSpec) : Service where
  metadata := { name := "prod", ns := "default", labels := Finmap.insert "app" kubernetesCluster ∅ }
  spec := { replicas := 3, flavor := "m1", version := "1", extra := extra }
  status := {}

def backupEntry : ExtraSpec := { name := "backup", version := "2", parameters := some ∅ }

def retentionEntry : ExtraSpec :=
  { name := "logging", version := "1", parameters := some (Finmap.insert "retention" "7d" ∅) }

/-- A Backup of an older version, which was moved to another cluster. -/
def movedBackup : AddonObj :=
  { extraManifest (clusterService []) backupSuffix "1" (some (Finmap.insert "hour" "3" ∅)) with
    spec := { cluster := "staging", version := "1", parameters := some (Finmap.insert "hour" "3" ∅) } }

def movedCluster : Cluster := Cluster.empty.setTbl (.addon .backup) (Table.empty.put movedBackup)

/-- The Backup is updated in its cluster, and the Logging object is created. -/
theorem extras_match_backup :
    movedCluster.find? (.addon .backup) (extraKey (clusterService []) .backup) = some movedBackup ∧
    (run serve (ManageExtras (clusterService [backupEntry, retentionEntry])) movedCluster).outcome =
      .done (.ok ()) ∧
    AllManaged (clusterService [backupEntry, retentionEntry]) [backupEntry, retentionEntry]
      movedCluster
      (run serve (ManageExtras (clusterService [backupEntry, retentionEntry])) movedCluster).final := by
  refine ⟨Table.find?_put_self, extras_match _ movedCluster (fun e he => ?_) (by decide)⟩
  rcases List.mem_cons.mp he with rfl | he
  · exact ⟨⟨.backup, rfl⟩, nofun⟩
  · cases List.mem_singleton.mp he
    exact ⟨⟨.logging, rfl⟩, nofun⟩

/-- A store with the Backup of an entry that is no longer listed. -/
def oldBackup : Cluster :=
  Cluster.empty.setTbl (.addon .backup)
    (Table.empty.put (extraManifest (clusterService []) backupSuffix "2" none))

/-- The Backup stays when its entry is removed. -/
theorem removed_extra_stays :
    ¬ ∀ (service : Service) (c : Cluster),
      appOf service = kubernetesCluster →
      (∀ extraSpec ∈ service.spec.extra, KnownExtra extraSpec) →
      (service.spec.extra.map ExtraSpec.name).Nodup →
      (run serve (ManageExtras service) c).outcome = .done (.ok ()) →
      (service.spec.replicas > 0 → ∀ a : Addon,
        ((∃ o, (run serve (ManageExtras service) c).final.find? (.addon a) (extraKey service a) =
          some o) ↔ ∃ extraSpec ∈ service.spec.extra, extraSpec.name = a.name) ∧
        ∀ extraSpec ∈ service.spec.extra, ∀ parameters, extraSpec.name = a.name →
          extraSpec.parameters = some parameters →
          ∃ o, (run serve (ManageExtras service) c).final.find? (.addon a) (extraKey service a) =
            some o ∧ o.spec.cluster = service.metadata.name ∧ o.spec.version = extraSpec.version ∧
              o.spec.parameters.getD ∅ = wantedParameters service a parameters) ∧
      (service.spec.replicas = 0 → ∀ a : Addon,
        (run serve (ManageExtras service) c).final.find? (.addon a) (extraKey service a) = none) := by
  intro h
  have happ : appOf (clusterService []) = kubernetesCluster := StringMap.index_insert ..
  have hfind : oldBackup.find? (.addon .backup) (extraKey (clusterService []) .backup) =
    some (extraManifest (clusterService []) backupSuffix "2" none) := Table.find?_put_self
  obtain ⟨e, he, -⟩ := ((h (clusterService []) oldBackup happ nofun List.nodup_nil rfl).1 (by decide)
    .backup).1.mp ⟨_, hfind⟩
  exact List.not_mem_nil he

end ReconcileService

end Automium
