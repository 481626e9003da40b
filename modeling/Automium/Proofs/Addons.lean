import Automium.Controller.Addon
import Automium.Api.World

/-!
# Two extras and their Applications

The controllers of the extras keep one Application for each Monitoring, Backup and Logging. Its
name comes from the name of the extra and does not tell the kind, so two extras of one name share
an Application. Each of the two reconciles then writes its own spec into it.

* `settled`: what a reconcile makes of the Application that it finds (`Addon.Reconcile_run`).
* `undisturbed_iff`: two extras of a namespace can be reconciled in either order, and each has its
  Application afterwards, exactly if they have different names.
-/

namespace Automium

open Data Effect

namespace Addon

/-- The `Spec.Name` of the Application of an extra. -/
def applicationName : Addon → String
  | .monitoring => "automium-monitoring"
  | .backup => "automium-backup"
  | .logging => "automium-logging"

/-- The `Spec.Namespace` of the Application of an extra. -/
def applicationNamespace : Addon → String
  | .monitoring => "automium-prometheus"
  | .backup => "kube-system"
  | .logging => "kube-system"

/-- The controller of a kind. -/
def Reconcile : Addon → Key → Ctl (Except Error Result)
  | .monitoring => ReconcileMonitoring.Reconcile
  | .backup => ReconcileBackup.Reconcile
  | .logging => ReconcileLogging.Reconcile

/-- The Application that the controller renders for an extra. -/
def application (a : Addon) (inst : AddonObj) : Application :=
  addonApplication a a.applicationName a.applicationNamespace inst

theorem Reconcile_eq (a : Addon) (request : Key) :
    a.Reconcile request = reconcileAddon a a.applicationName a.applicationNamespace request := by
  cases a <;> rfl

/-- The name tells the kind. -/
theorem applicationName_inj {a b : Addon} (h : a.applicationName = b.applicationName) : a = b := by
  cases a <;> cases b <;> first | rfl | exact absurd h (by decide)

end Addon

/-! ## One reconcile -/

/-- An object without the numbers that the server gives to each write. -/
def unnumbered {Spec Status : Type} (o : Object Spec Status) : Object Spec Status :=
  { o with metadata := { o.metadata with uid := 0, resourceVersion := 0 } }

/-- What a reconcile makes of the Application that it finds, or of none. -/
def settled (deploy : Application) : Option Application → Application
  | none => { deploy with spec := Kind.application.stored deploy.spec }
  | some found =>
    if deploy.spec ≠ found.spec then
      { found with spec := Kind.application.stored deploy.spec }
    else found

theorem stored_stored (spec : ApplicationSpec) :
    Kind.application.stored (Kind.application.stored spec) = Kind.application.stored spec := by
  have h : ∀ m, omitEmpty (omitEmpty m) = omitEmpty m := by
    intro m
    by_cases hm : m = some ∅
    · simp [omitEmpty, hm]
    · simp [omitEmpty, hm]
  exact congrArg (fun m => ({ spec with parameters := m } : ApplicationSpec)) (h _)

/-- The Application has the desired spec, as the store has it. -/
theorem settled_spec (deploy : Application) (found : Option Application) :
    Kind.application.stored (settled deploy found).spec =
      Kind.application.stored deploy.spec := by
  unfold settled
  split
  · exact stored_stored _
  · split
    · exact stored_stored _
    · rename_i h
      rw [not_not.mp h]

/-- What a reconcile of an extra leaves: its Application is settled, and all else is as it was. -/
structure Settles (deploy : Application) (c c' : Cluster) : Prop where
  own : ∃ app, c'.find? .application deploy.key = some app ∧
    unnumbered app = unnumbered (settled deploy (c.find? .application deploy.key))
  others : ∀ key, key ≠ deploy.key → c'.find? .application key = c.find? .application key
  frame : ∀ k, k ≠ .application → c'.tbl k = c.tbl k

section

variable {a b : Addon} {x y : AddonObj} {c c' c₁ c₂ : Cluster} {deploy deploy' : Application}

/-- A write of the Application. -/
theorem Settles.put {app : Application} (hkey : app.key = deploy.key)
    (happ : unnumbered app = unnumbered (settled deploy (c.find? .application deploy.key))) :
    Settles deploy c (c.setTbl .application ((c.tbl .application).put app)) where
  own := ⟨app, by rw [Cluster.find?_setTbl, ← hkey]; exact Table.find?_put_self, happ⟩
  others key hne := by
    rw [Cluster.find?_setTbl]
    exact Table.find?_put_ne fun e => hne (e.trans hkey)
  frame k hk := Cluster.setTbl_ne _ _ hk

/-- A reconcile of a stored extra settles its Application. -/
theorem Addon.Reconcile_run (a : Addon) (hx : x ∈ c.tbl (.addon a)) :
    (run serve (a.Reconcile x.key) c).outcome = .done (.ok {}) ∧
      Settles (a.application x) c (run serve (a.Reconcile x.key) c).final := by
  have hfind : c.find? (.addon a) x.key = some x := Table.find?_of_mem hx
  rw [Reconcile_eq, reconcileAddon, get_bind, run_call, serve_get hfind]
  dsimp only
  rw [show addonApplication a a.applicationName a.applicationNamespace x = a.application x from rfl,
    get_bind, run_call]
  cases hf : c.find? .application (a.application x).key with
  | none =>
    rw [serve_get_none hf]
    dsimp only
    rw [if_pos (Error.isNotFound_newNotFound ..), create_bind, run_call,
      serve_create (k := .application) rfl hf]
    refine ⟨rfl, .put rfl ?_⟩
    rw [hf]
    rfl
  | some found =>
    rw [serve_get hf]
    dsimp only
    split
    · rename_i hdiff
      have hkey : found.key = (a.application x).key := find?_key hf
      have hold : c.find? .application
          (Object.key { found with spec := (a.application x).spec }) = some found := by
        rw [← hf, ← hkey]
        rfl
      rw [update_bind, run_call, serve_update (k := .application) hold rfl]
      refine ⟨rfl, .put hkey ?_⟩
      rw [hf, settled, if_pos hdiff]
      rfl
    · rename_i hsame
      refine ⟨rfl, ⟨found, hf, ?_⟩, fun _ _ => rfl, fun _ _ => rfl⟩
      rw [hf, settled, if_neg hsame]

/-! ## Two reconciles -/

/-- The stores have the same objects, but for the numbers of the Applications that were written. -/
structure SameStore (c c' : Cluster) : Prop where
  applications : ∀ key, (c.find? .application key).map unnumbered =
    (c'.find? .application key).map unnumbered
  others : ∀ k, k ≠ .application → c.tbl k = c'.tbl k

/-- The extra has its Application, with the spec that its own controller renders. -/
def Deployed (a : Addon) (x : AddonObj) (c : Cluster) : Prop :=
  ∃ app, c.find? .application ⟨x.metadata.ns, x.metadata.name ++ "-app"⟩ = some app ∧
    Kind.application.stored app.spec = Kind.application.stored (a.application x).spec

/-- The store after a reconcile of `x`, and then one of `y`. -/
def afterBoth (a : Addon) (x : AddonObj) (b : Addon) (y : AddonObj) (c : Cluster) : Cluster :=
  (run serve (b.Reconcile y.key) (run serve (a.Reconcile x.key) c).final).final

/-- The two extras can be reconciled in either order, and each has its Application afterwards. -/
def Undisturbed (a : Addon) (x : AddonObj) (b : Addon) (y : AddonObj) (c : Cluster) : Prop :=
  SameStore (afterBoth a x b y c) (afterBoth b y a x c) ∧
    Deployed a x (afterBoth a x b y c) ∧ Deployed b y (afterBoth a x b y c) ∧
    Deployed a x (afterBoth b y a x c) ∧ Deployed b y (afterBoth b y a x c)

/-- Nothing fails in the second reconcile either. -/
theorem afterBoth_settles (hx : x ∈ c.tbl (.addon a)) (hy : y ∈ c.tbl (.addon b)) :
    ∃ c₁, Settles (a.application x) c c₁ ∧ Settles (b.application y) c₁ (afterBoth a x b y c) := by
  obtain ⟨-, h₁⟩ := a.Reconcile_run hx
  have hy₁ : y ∈ (run serve (a.Reconcile x.key) c).final.tbl (.addon b) := by
    have hk : Kind.addon b ≠ .application := nofun
    rw [h₁.frame _ hk]
    exact hy
  obtain ⟨-, h₂⟩ := b.Reconcile_run hy₁
  exact ⟨_, h₁, h₂⟩

/-- The Application of the extra that was reconciled last. -/
theorem Settles.deployed (h : Settles (a.application x) c c') : Deployed a x c' := by
  obtain ⟨app, hf, happ⟩ := h.own
  refine ⟨app, hf, ?_⟩
  have hspec := congrArg Object.spec happ
  exact (congrArg _ hspec).trans (settled_spec ..)

/-- A reconcile leaves the Applications of other names alone. -/
theorem Deployed.settles (h : Deployed a x c) (hs : Settles deploy c c')
    (hne : (a.application x).key ≠ deploy.key) : Deployed a x c' := by
  obtain ⟨app, hf, happ⟩ := h
  exact ⟨app, (hs.others _ hne).trans hf, happ⟩

/-- The Application of the first of two reconciles that write different ones. -/
theorem Settles.first (h₁ : Settles deploy c c₁) (h₂ : Settles deploy' c₁ c')
    (hne : deploy.key ≠ deploy'.key) : (c'.find? .application deploy.key).map unnumbered =
      some (unnumbered (settled deploy (c.find? .application deploy.key))) := by
  obtain ⟨app, hf, happ⟩ := h₁.own
  rw [h₂.others _ hne, hf, Option.map_some, happ]

/-- The Application of the second one. -/
theorem Settles.second (h₁ : Settles deploy c c₁) (h₂ : Settles deploy' c₁ c')
    (hne : deploy.key ≠ deploy'.key) : (c'.find? .application deploy'.key).map unnumbered =
      some (unnumbered (settled deploy' (c.find? .application deploy'.key))) := by
  obtain ⟨app, hf, happ⟩ := h₂.own
  rw [hf, Option.map_some, happ, h₁.others _ hne.symm]

/-- Reconciles that write different Applications can be swapped. -/
theorem Settles.swap {c₁₂ c₂₁ : Cluster} (h₁ : Settles deploy c c₁) (h₁₂ : Settles deploy' c₁ c₁₂)
    (h₂ : Settles deploy' c c₂) (h₂₁ : Settles deploy c₂ c₂₁) (hne : deploy.key ≠ deploy'.key) :
    SameStore c₁₂ c₂₁ where
  applications key := by
    by_cases hkey : key = deploy.key
    · rw [hkey, h₁.first h₁₂ hne, h₂.second h₂₁ hne.symm]
    · by_cases hkey' : key = deploy'.key
      · rw [hkey', h₁.second h₁₂ hne, h₂.first h₂₁ hne.symm]
      · rw [h₁₂.others _ hkey', h₁.others _ hkey, h₂₁.others _ hkey, h₂.others _ hkey']
  others k hk := by
    rw [h₁₂.frame k hk, h₁.frame k hk, h₂₁.frame k hk, h₂.frame k hk]

/-- Two extras of different kinds cannot both have their spec in one Application. -/
theorem Deployed.not_shared (hx : Deployed a x c) (hy : Deployed b y c) (hab : a ≠ b) :
    x.key ≠ y.key := by
  intro hkey
  obtain ⟨hns, hname⟩ := Key.mk.inj hkey
  obtain ⟨app, hf, happ⟩ := hx
  obtain ⟨app', hf', happ'⟩ := hy
  rw [hns, hname, hf'] at hf
  cases hf
  exact hab (Addon.applicationName_inj (congrArg ApplicationSpec.name (happ.symm.trans happ')))

/-- Two extras of a namespace do not interfere exactly if their names are different. -/
theorem undisturbed_iff (hx : x ∈ c.tbl (.addon a)) (hy : y ∈ c.tbl (.addon b))
    (hns : x.metadata.ns = y.metadata.ns) (hdiff : a ≠ b ∨ x.key ≠ y.key) :
    Undisturbed a x b y c ↔ x.metadata.name ≠ y.metadata.name := by
  obtain ⟨c₁, h₁, h₁₂⟩ := afterBoth_settles hx hy
  obtain ⟨c₂, h₂, h₂₁⟩ := afterBoth_settles hy hx
  constructor
  · rintro ⟨-, hdx, hdy, -, -⟩ hname
    have hkey : x.key = y.key := by rw [Object.key, Object.key, hns, hname]
    have hab : a ≠ b := hdiff.resolve_right fun hne => hne hkey
    exact hdx.not_shared hdy hab hkey
  · intro hname
    have hne : (a.application x).key ≠ (b.application y).key := fun hkey =>
      hname ((String.append_left_inj _).mp (congrArg Key.name hkey))
    exact ⟨h₁.swap h₁₂ h₂ h₂₁ hne, h₁.deployed.settles h₁₂ hne, h₁₂.deployed, h₂₁.deployed,
      h₂.deployed.settles h₂₁ hne.symm⟩

end

/-! ### A Monitoring and a Backup of one name -/

/-- An extra of the cluster `prod` with this name. -/
def prodAddon (name : String) : AddonObj where
  metadata := { name := name, ns := "default" }
  spec := { cluster := "prod", version := "1" }
  status := ()

/-- A store with a Monitoring and a Backup of these names. -/
def addonStore (monitoring backup : String) : Cluster :=
  (Cluster.empty.setTbl (.addon .monitoring) (Table.empty.put (prodAddon monitoring))).setTbl
    (.addon .backup) (Table.empty.put (prodAddon backup))

theorem addonStore_monitoring (m b : String) :
    prodAddon m ∈ (addonStore m b).tbl (.addon .monitoring) := by
  have hk : Kind.addon .monitoring ≠ .addon .backup := by decide
  rw [addonStore, Cluster.setTbl_ne _ _ hk, Cluster.setTbl_self]
  exact Table.mem_put.mpr (.inl rfl)

theorem addonStore_backup (m b : String) :
    prodAddon b ∈ (addonStore m b).tbl (.addon .backup) := by
  rw [addonStore, Cluster.setTbl_self]
  exact Table.mem_put.mpr (.inl rfl)

theorem undisturbed_prod :
    Undisturbed .monitoring (prodAddon "prod-monitoring") .backup (prodAddon "prod-backup")
        (addonStore "prod-monitoring" "prod-backup") ↔
      (prodAddon "prod-monitoring").metadata.name ≠ (prodAddon "prod-backup").metadata.name :=
  undisturbed_iff (addonStore_monitoring ..) (addonStore_backup ..) rfl (.inl (by decide))

/-- With one name, the one that is reconciled last takes the Application. -/
theorem shared_name_disturbed :
    ¬ ∀ (a b : Addon) (x y : AddonObj) (c : Cluster), x ∈ c.tbl (.addon a) →
      y ∈ c.tbl (.addon b) → x.metadata.ns = y.metadata.ns → (a ≠ b ∨ x.key ≠ y.key) →
        Undisturbed a x b y c := by
  intro h
  have hall := h .monitoring .backup (prodAddon "prod") (prodAddon "prod")
    (addonStore "prod" "prod") (addonStore_monitoring ..) (addonStore_backup ..) rfl
    (.inl (by decide))
  obtain ⟨-, hmonitoring, hbackup, -, -⟩ := hall
  exact hmonitoring.not_shared hbackup (by decide) rfl

end Automium
