import Automium.Proofs.Decision
import Automium.Proofs.ExternalID

/-!
# Installations and upgrades

When an app is installed, when it is upgraded, and what the next reconcile does.

* An app that is not listed has to be installed, and one that is listed with another version or
  with other bindings has to be upgraded. `decides_iff`: what the controller posts is this, exactly
  if the name is not the one that stands for no app, the ID of the project has the colon that an
  upgrade needs, and the app is not listed without answers when none are wanted.
* `quiet_after_deploy`: once Rancher lists what was posted, nothing is posted.
-/

namespace Automium

open Effect Go

namespace ReconcileApplication

variable {vars : String → String} {texts : LibTexts} {request : Key} {inst : Application}
  {acts rest : List Act} {res : Outcome (Except Error Result)} {cid pid ns : String}
  {apps : List AppItem} {r : Except Error Response} {item : RancherAppItem} {answers : StringMap}

/-! ## What has to be done -/

/-- No app has the name. -/
def InstallDue (spec : ApplicationSpec) (apps : List AppItem) : Prop :=
  ∀ app ∈ apps, app.name ≠ spec.name

/-- An app has the name, and another version or other bindings. -/
def UpgradeDue (spec : ApplicationSpec) (answers : StringMap) (apps : List AppItem) : Prop :=
  ∃ app ∈ apps, app.name = spec.name ∧
    (app.version ≠ Url.bytes spec.version.toList ∨ app.answers.getD ∅ ≠ answers)

instance (spec : ApplicationSpec) (answers : StringMap) (apps : List AppItem) :
    Decidable (UpgradeDue spec answers apps) :=
  inferInstanceAs (Decidable (∃ app ∈ apps, _))

/-- The requests are those that have to be made. -/
def Decides (vars : String → String) (spec : ApplicationSpec) (answers : StringMap)
    (apps : List AppItem) (acts : List Act) : Prop :=
  (Sends (IsInstall vars) acts ↔ InstallDue spec apps) ∧
    (Sends (IsUpgrade vars) acts ↔ UpgradeDue spec answers apps) ∧
    (¬ InstallDue spec apps → ¬ UpgradeDue spec answers apps → ¬ Sends IsPost acts)

/-- The app of the name has the version, no answers, and needs none. -/
def Bare (spec : ApplicationSpec) (answers : StringMap) (apps : List AppItem) : Prop :=
  ∃ app ∈ apps, app.name = spec.name ∧ app.version = Url.bytes spec.version.toList ∧
    app.answers = none ∧ answers = ∅

/-- The status codes for success. -/
def successCodes (req : HTTPRequest) : List Nat :=
  match req.body with
  | some (.app _) => [201, 204]
  | _ => [200]

/-- Rancher did what was asked. -/
def Succeeds (e : HTTPRequest × Except Error Response) : Prop := Accepted (successCodes e.1) e.2

instance (e : HTTPRequest × Except Error Response) : Decidable (Succeeds e) :=
  inferInstanceAs (Decidable (Accepted _ _))

theorem eq_target {app : AppItem} (hunique : (apps.map AppItem.name).Nodup)
    (hmem : app ∈ apps) (hname : app.name = inst.spec.name) :
    app = targetAppOf inst.spec.name apps := by
  obtain ⟨htarget, hsame⟩ := targetAppOf_of_mem ⟨app, hmem, hname⟩
  exact List.inj_on_of_nodup_map hunique hmem htarget (hname.trans hsame.symm)

theorem not_upgrade_of_install {spec : ApplicationSpec} (h : InstallDue spec apps) :
    ¬ UpgradeDue spec answers apps := by
  rintro ⟨app, hmem, hname, -⟩
  exact h app hmem hname

theorem upgradeDue_iff (hunique : (apps.map AppItem.name).Nodup)
    (h : ¬ InstallDue inst.spec apps) :
    UpgradeDue inst.spec answers apps ↔
      (targetAppOf inst.spec.name apps).version ≠ Url.bytes inst.spec.version.toList ∨
        (targetAppOf inst.spec.name apps).answers.getD ∅ ≠ answers := by
  constructor
  · rintro ⟨app, hmem, hname, hdiff⟩
    rwa [← eq_target hunique hmem hname]
  · intro hdiff
    obtain ⟨htarget, hname⟩ := targetAppOf_of_mem (by simpa [InstallDue] using h)
    exact ⟨_, htarget, hname, hdiff⟩

theorem bare_iff (hunique : (apps.map AppItem.name).Nodup) (h : ¬ InstallDue inst.spec apps) :
    Bare inst.spec answers apps ↔
      (targetAppOf inst.spec.name apps).version = Url.bytes inst.spec.version.toList ∧
        (targetAppOf inst.spec.name apps).answers = none ∧ answers = ∅ := by
  constructor
  · rintro ⟨app, hmem, hname, hbare⟩
    rwa [← eq_target hunique hmem hname]
  · intro hbare
    obtain ⟨htarget, hname⟩ := targetAppOf_of_mem (by simpa [InstallDue] using h)
    exact ⟨_, htarget, hname, hbare⟩

/-- The comparison with the record that stands for no app fails. -/
theorem not_installDue_of_upToDate (h : UpToDate inst.spec answers apps) :
    ¬ InstallDue inst.spec apps := by
  intro hdue
  have hanswers := h.2
  rw [targetAppOf_of_absent hdue] at hanswers
  cases hanswers

/-- If the app is there, only the answers that are absent are taken for others. -/
theorem upgradeDue_iff_not_bare (hunique : (apps.map AppItem.name).Nodup)
    (hdue : ¬ InstallDue inst.spec apps) (h : ¬ UpToDate inst.spec answers apps) :
    UpgradeDue inst.spec answers apps ↔ ¬ Bare inst.spec answers apps := by
  rw [upgradeDue_iff hunique hdue, bare_iff hunique hdue]
  constructor
  · rintro hdiff ⟨hversion, hnone, hempty⟩
    rcases hdiff with hdiff | hdiff
    · exact hdiff hversion
    · rw [hnone] at hdiff
      exact hdiff hempty.symm
  · intro hbare
    by_contra hsame
    rw [not_or, not_not, not_not] at hsame
    obtain ⟨hversion, hbindings⟩ := hsame
    cases hanswers : (targetAppOf inst.spec.name apps).answers with
    | none =>
      rw [hanswers] at hbindings
      exact hbare ⟨hversion, hanswers, hbindings.symm⟩
    | some deployed =>
      rw [hanswers] at hbindings
      exact h ⟨hversion, hanswers.trans (congrArg some hbindings)⟩

/-- Nothing keeps the controller from what has to be done. -/
def Unhindered (spec : ApplicationSpec) (answers : StringMap) (pid : String)
    (apps : List AppItem) : Prop :=
  (InstallDue spec apps → spec.name ≠ "does-not-exist") ∧
    (UpgradeDue spec answers apps → (afterColon pid).isSome) ∧ ¬ Bare spec answers apps

section Branches

variable {spec : ApplicationSpec} {gets : List Act} {r₁ r₂ r₃ : Except Error Response}
  {more : List (HTTPRequest × Except Error Response)}
  (hgets : ∀ act ∈ gets, ∃ path r, act = .exchange (listRequest vars path) r)

include hgets

theorem decides_quiet (hrest : exchangesOf rest = []) :
    Decides vars spec answers apps (gets ++ rest) ↔
      ¬ InstallDue spec apps ∧ ¬ UpgradeDue spec answers apps := by
  rw [Decides, sends_append hgets list_not_install, sends_append hgets list_not_upgrade,
    sends_append hgets list_not_post, hrest]
  simp

theorem decides_install (hrest : exchangesOf rest = [(refreshRequest vars, r₁),
      (moveRequest vars cid pid ns, r₂), (installRequest vars pid item, r₃)]) :
    Decides vars spec answers apps (gets ++ rest) ↔ InstallDue spec apps := by
  rw [Decides, sends_append hgets list_not_install, sends_append hgets list_not_upgrade,
    sends_append hgets list_not_post, hrest]
  simp only [List.mem_cons, List.not_mem_nil, or_false, exists_eq_or_imp, exists_eq_left,
    isInstall_refresh, isInstall_move, isInstall_install, isUpgrade_refresh, isUpgrade_move,
    isUpgrade_install, or_true, true_iff, false_iff, isPost_refresh, true_or]
  exact ⟨fun h => h.1, fun h => ⟨h, not_upgrade_of_install h, fun hn => absurd h hn⟩⟩

theorem decides_upgrade (hrest : exchangesOf rest = [(refreshRequest vars, r₁),
      (upgradeRequest vars pid ns item, r₂)]) :
    Decides vars spec answers apps (gets ++ rest) ↔ UpgradeDue spec answers apps := by
  rw [Decides, sends_append hgets list_not_install, sends_append hgets list_not_upgrade,
    sends_append hgets list_not_post, hrest]
  simp only [List.mem_cons, List.not_mem_nil, or_false, exists_eq_or_imp, exists_eq_left,
    isInstall_refresh, isInstall_upgrade, isUpgrade_refresh, isUpgrade_upgrade, false_or,
    true_iff, false_iff, isPost_refresh, true_or]
  exact ⟨fun h => h.2.1, fun h => ⟨fun hi => not_upgrade_of_install hi h, h, fun _ hn => absurd h hn⟩⟩

/-- The controller crashes before the upgrade. -/
theorem not_decides_crash (hrest : exchangesOf rest = [(refreshRequest vars, r₁)]) :
    ¬ Decides vars spec answers apps (gets ++ rest) := by
  rw [Decides, sends_append hgets list_not_install, sends_append hgets list_not_upgrade,
    sends_append hgets list_not_post, hrest]
  simp only [List.mem_singleton, exists_eq_left, isInstall_refresh, isUpgrade_refresh, false_iff,
    isPost_refresh]
  rintro ⟨hi, hu, hquiet⟩
  exact hquiet hi hu trivial

/-- An app that is up to date. -/
theorem decides_of_upToDate (hunique : (apps.map AppItem.name).Nodup)
    (hup : UpToDate inst.spec answers apps) (hrest : exchangesOf rest = []) :
    Decides vars inst.spec answers apps (gets ++ rest) ↔
      Unhindered inst.spec answers pid apps := by
  have hdue := not_installDue_of_upToDate hup
  have hsame : ¬ UpgradeDue inst.spec answers apps := by
    rw [upgradeDue_iff hunique hdue, hup.1, hup.2]
    simp
  have hbare : ¬ Bare inst.spec answers apps := by
    rw [bare_iff hunique hdue, hup.2]
    simp
  rw [decides_quiet hgets hrest]
  exact iff_of_true ⟨hdue, hsame⟩ ⟨fun h => absurd h hdue, fun h => absurd h hsame, hbare⟩

/-- An upgrade, which is attempted for every name that is found. -/
theorem decides_of_upgrade (hunique : (apps.map AppItem.name).Nodup)
    (hfound : Found inst.spec.name apps) (hup : ¬ UpToDate inst.spec answers apps)
    (hacts : exchangesOf rest = (refreshRequest vars, r₁) :: more)
    (hmore : afterColon pid = none ∧ more = [] ∨ ∃ ns r₂, afterColon pid = some ns ∧
      more = [(upgradeRequest vars pid ns item, r₂)]) :
    Decides vars inst.spec answers apps (gets ++ rest) ↔
      Unhindered inst.spec answers pid apps := by
  by_cases hdue : InstallDue inst.spec apps
  · have hname : inst.spec.name = "does-not-exist" :=
      (found_iff.mp hfound).resolve_left fun ⟨app, hmem, hname⟩ => hdue app hmem hname
    refine iff_of_false ?_ fun hclear => hclear.1 hdue hname
    rcases hmore with ⟨-, rfl⟩ | ⟨ns, r₂, -, rfl⟩
    · exact not_decides_crash hgets hacts
    · rw [decides_upgrade hgets hacts]
      exact not_upgrade_of_install hdue
  · have hupgrade := upgradeDue_iff_not_bare hunique hdue hup
    rcases hmore with ⟨hcolon, rfl⟩ | ⟨ns, r₂, hcolon, rfl⟩
    · refine iff_of_false (not_decides_crash hgets hacts) ?_
      rintro ⟨-, hsome, hbare⟩
      simpa [hcolon] using hsome (hupgrade.mpr hbare)
    · rw [decides_upgrade hgets hacts]
      refine ⟨fun h => ⟨fun hi => absurd hi hdue, fun _ => ?_, hupgrade.mp h⟩, fun h =>
        hupgrade.mpr h.2.2⟩
      rw [hcolon]
      rfl

/-- An installation. -/
theorem decides_of_install (hfound : ¬ Found inst.spec.name apps)
    (hrest : exchangesOf rest = [(refreshRequest vars, r₁),
      (moveRequest vars cid pid ns, r₂), (installRequest vars pid item, r₃)]) :
    Decides vars inst.spec answers apps (gets ++ rest) ↔
      Unhindered inst.spec answers pid apps := by
  have hdue : InstallDue inst.spec apps := fun app hmem hname =>
    hfound (found_iff.mpr (.inl ⟨app, hmem, hname⟩))
  have hname : inst.spec.name ≠ "does-not-exist" := fun hname =>
    hfound (found_iff.mpr (.inr hname))
  have hbare : ¬ Bare inst.spec answers apps := by
    rintro ⟨app, hmem, hsame, -⟩
    exact hdue app hmem hsame
  rw [decides_install hgets hrest]
  exact iff_of_true hdue ⟨fun _ => hname, fun h => absurd h (not_upgrade_of_install hdue), hbare⟩

end Branches

/-- When the controller is right about what has to be done (module doc). -/
theorem decides_iff (h : Reconciles vars texts request inst acts res)
    (hr : (appsRequest vars pid, r) ∈ exchangesOf acts) (hlist : listing texts r = .ok apps)
    (hunique : (apps.map AppItem.name).Nodup) (hans : answersFor vars inst.spec = .ok answers)
    (hok : ∀ e ∈ exchangesOf acts, Succeeds e) :
    Decides vars inst.spec answers apps acts ↔
      (InstallDue inst.spec apps → inst.spec.name ≠ "does-not-exist") ∧
      (UpgradeDue inst.spec answers apps → (afterColon pid).isSome) ∧
      ¬ Bare inst.spec answers apps := by
  have hbuilt : ¬ ∃ e, answersFor vars inst.spec = .error e := by
    rw [hans]
    simp
  obtain ⟨cid, gets, rest, rfl, hgets, ⟨⟨e, he⟩, -⟩ | ⟨apps', hlist', hsync⟩⟩ := h.decided hr
  · rw [hlist] at he
    cases he
  obtain rfl : apps = apps' := Except.ok.inj (hlist.symm.trans hlist')
  rcases syncApp_cases hsync with ⟨he, -⟩ | ⟨answers', hans', hfound, hup, -, hw⟩ |
    ⟨answers', hans', hfound, hup, hd⟩ | ⟨hfound, hd⟩
  · exact absurd he hbuilt
  · obtain rfl : answers = answers' := Except.ok.inj (hans.symm.trans hans')
    exact decides_of_upToDate hgets hunique hup hw.exchangesOf
  · obtain rfl : answers = answers' := Except.ok.inj (hans.symm.trans hans')
    obtain ⟨r₁, more, hacts, ⟨he, -⟩ | ⟨_, -, hmore⟩⟩ := deploy_old hd
    · exact absurd he hbuilt
    · exact decides_of_upgrade hgets hunique hfound hup hacts hmore
  · obtain ⟨r₁, more, hacts, ⟨he, -⟩ | ⟨_, r₂, -, ⟨hmove, rfl⟩ | ⟨-, r₃, rfl⟩⟩⟩ := deploy_new hd
    · exact absurd he hbuilt
    · have hmoved : Succeeds (moveRequest vars cid pid inst.spec.ns, r₂) := by
        refine hok _ ?_
        rw [exchangesOf_append, hacts]
        simp
      exact absurd hmoved hmove
    · exact decides_of_install hgets hfound hacts

/-- The reply that lists the app of `loggingApp`. -/
def loggingListed (members : List (String × Json)) : Except Error Response :=
  jsonReply 200 (.obj [("data", .arr [.obj ([("name", .str "automium-logging"),
    ("externalId", .str "catalog://?catalog=automium&template=automium-logging&version=1.0")] ++
    members)])])

/-- The run of a reconcile with this reply. -/
def loggingRun (members : List (String × Json)) : Ran AppApi Unit (Except Error Result) :=
  reconcileRun prodVars prodTexts loggingApp.key loggingApp (prodRancher (loggingListed members))

def loggingAppItem (answers : Option StringMap) : AppItem where
  name := "automium-logging"
  catalog := Url.bytes "automium".toList
  template := Url.bytes "automium-logging".toList
  version := Url.bytes "1.0".toList
  answers := answers

theorem listed_logging (members : List (String × Json))
    (h : appsRequest prodVars "c-1:p-1" ∈
      (exchangesOf (actsOf (loggingRun members).trace)).map Prod.fst) :
    (appsRequest prodVars "c-1:p-1", loggingListed members) ∈
      exchangesOf (actsOf (loggingRun members).trace) :=
  exchange_run h

theorem decides_listed :
    Decides prodVars loggingApp.spec ∅ [loggingAppItem (some ∅)]
        (actsOf (loggingRun [("answers", .obj [])]).trace) ↔
      (InstallDue loggingApp.spec [loggingAppItem (some ∅)] →
        loggingApp.spec.name ≠ "does-not-exist") ∧
      (UpgradeDue loggingApp.spec ∅ [loggingAppItem (some ∅)] → (afterColon "c-1:p-1").isSome) ∧
      ¬ Bare loggingApp.spec ∅ [loggingAppItem (some ∅)] :=
  decides_iff reconciles_run (listed_logging _ (by decide +kernel)) (by decide +kernel)
    (by decide +kernel) (by decide +kernel) (by decide +kernel)

/-- An app that is listed without answers and needs none is upgraded by every reconcile. -/
theorem not_decides_absent :
    ∃ acts res r, Reconciles prodVars prodTexts loggingApp.key loggingApp acts res ∧
      (appsRequest prodVars "c-1:p-1", r) ∈ exchangesOf acts ∧
      listing prodTexts r = .ok [loggingAppItem none] ∧
      answersFor prodVars loggingApp.spec = .ok ∅ ∧ (∀ e ∈ exchangesOf acts, Succeeds e) ∧
      ¬ Decides prodVars loggingApp.spec ∅ [loggingAppItem none] acts := by
  refine ⟨actsOf (loggingRun []).trace, _, _, reconciles_run, listed_logging [] (by decide +kernel),
    by decide +kernel, by decide +kernel, by decide +kernel, ?_⟩
  rintro ⟨-, hupgrade, -⟩
  have hsent : Sends (IsUpgrade prodVars) (actsOf (loggingRun []).trace) := by
    refine ⟨(upgradeRequest prodVars "c-1:p-1" "p-1" (installBodyOf loggingApp.spec "c-1:p-1" ∅), _),
      exchange_run (by decide +kernel), isUpgrade_upgrade⟩
  have hnot : ¬ UpgradeDue loggingApp.spec ∅ [loggingAppItem none] := by decide +kernel
  exact hnot (hupgrade.mp hsent)

/-! ## The next reconcile -/

theorem syncApp_posted (h : Ends vars (syncApp inst cid pid apps) acts res)
    {e : HTTPRequest × Except Error Response} (he : e ∈ exchangesOf acts)
    (hbody : e.1.body = some (.app item)) :
    ∃ answers, answersFor vars inst.spec = .ok answers ∧
      item = installBodyOf inst.spec pid answers := by
  rcases syncApp_cases h with ⟨-, -, -, hw⟩ | ⟨-, -, -, -, -, hw⟩ | ⟨-, -, -, -, hd⟩ | ⟨-, hd⟩
  · simp [hw.exchangesOf] at he
  · simp [hw.exchangesOf] at he
  · obtain ⟨r, more, hacts, ⟨-, rfl⟩ | ⟨answers, hans, ⟨-, rfl⟩ | ⟨ns, r', -, rfl⟩⟩⟩ := deploy_old hd
    all_goals simp only [hacts, List.mem_cons, List.not_mem_nil, or_false] at he
    · rw [he] at hbody
      cases hbody
    · rw [he] at hbody
      cases hbody
    · rcases he with rfl | rfl
      · cases hbody
      · cases hbody
        exact ⟨answers, hans, rfl⟩
  · obtain ⟨r, more, hacts, ⟨-, rfl⟩ | ⟨answers, r', hans, ⟨-, rfl⟩ | ⟨-, r'', rfl⟩⟩⟩ := deploy_new hd
    all_goals simp only [hacts, List.mem_cons, List.not_mem_nil, or_false] at he
    · rw [he] at hbody
      cases hbody
    · rcases he with rfl | rfl <;> cases hbody
    · rcases he with rfl | rfl | rfl
      · cases hbody
      · cases hbody
      · cases hbody
        exact ⟨answers, hans, rfl⟩

/-- What an execution posts is the app of the spec. -/
theorem Reconciles.posted (h : Reconciles vars texts request inst acts res)
    {e : HTTPRequest × Except Error Response} (he : e ∈ exchangesOf acts)
    (hbody : e.1.body = some (.app item)) :
    ∃ pid answers, answersFor vars inst.spec = .ok answers ∧
      item = installBodyOf inst.spec pid answers := by
  have hlookup : ∀ {gets}, (∀ act ∈ gets, IsLookup vars act) → e ∉ exchangesOf gets := by
    intro gets hgets hmem
    obtain ⟨path, hpath⟩ := lookups_get hgets e hmem
    rw [hpath] at hbody
    cases hbody
  obtain ⟨gets, rest, hgets, ⟨rfl, -, hw⟩ | ⟨cid, pid, r, rfl, hcases⟩⟩ := h.cases
  · rw [exchangesOf_append, hw.exchangesOf, List.append_nil] at he
    exact absurd he (hlookup hgets)
  rw [exchangesOf_append] at he
  rcases List.mem_append.mp he with he | he
  · exact absurd he (hlookup hgets)
  rcases List.mem_cons.mp he with rfl | he
  · cases hbody
  rcases hcases with ⟨-, -, hw⟩ | ⟨apps, -, hsync⟩
  · have hnone : e ∈ exchangesOf rest := he
    simp [hw.exchangesOf] at hnone
  · obtain ⟨answers, hans, hitem⟩ := syncApp_posted hsync he hbody
    exact ⟨pid, answers, hans, hitem⟩

/-- The characters of a string are unreserved. -/
def Unreserved (s : String) : Prop := ∀ c ∈ s.toList, Url.Unreserved c

instance (s : String) : Decidable (Unreserved s) := List.decidableBAll _ s.toList

theorem Unreserved.readable {s : String} (h : Unreserved s) : Readable s := fun c hc =>
  (h c hc).readable

/-- What is read of an external ID is what it was made of. -/
theorem version_externalIDOf {name version : String} (hname : Unreserved name)
    (hversion : Unreserved version) :
    ∃ query, Url.parse (externalIDOf name version) = some query ∧
      Url.get (Url.parseQuery query) "version" = Url.bytes version.toList := by
  obtain ⟨query, hquery, -, -, hread⟩ := query_externalIDOf hname.readable hversion.readable
  exact ⟨query, hquery, hread⟩

/-- The apps of a list that can be read are those of its items. -/
theorem mapM_appOf (texts : LibTexts) {l : List RancherAppItem}
    (h : ∀ itm ∈ l, (Url.parse itm.externalID).isSome) :
    ∃ apps, l.mapM (appOf texts) = .ok apps ∧
      (∀ itm ∈ l, ∃ app ∈ apps, appOf texts itm = .ok app) ∧
      ∀ app ∈ apps, ∃ itm ∈ l, appOf texts itm = .ok app := by
  induction l with
  | nil => exact ⟨[], rfl, by simp, by simp⟩
  | cons itm l ih =>
    obtain ⟨hitm, hl⟩ := List.forall_mem_cons.mp h
    obtain ⟨apps, hmap, hto, hfrom⟩ := ih hl
    obtain ⟨rawQuery, hquery⟩ := Option.isSome_iff_exists.mp hitm
    have happ : ∃ app, appOf texts itm = .ok app := by
      rw [appOf, hquery]
      exact ⟨_, rfl⟩
    obtain ⟨app, happ⟩ := happ
    refine ⟨app :: apps, ?_, ?_, ?_⟩
    · rw [List.mapM_cons, happ, hmap]
      rfl
    · refine List.forall_mem_cons.mpr ⟨⟨app, by simp, happ⟩, fun x hx => ?_⟩
      obtain ⟨y, hy, hxy⟩ := hto x hx
      exact ⟨y, List.mem_cons_of_mem _ hy, hxy⟩
    · refine List.forall_mem_cons.mpr ⟨⟨itm, by simp, happ⟩, fun x hx => ?_⟩
      obtain ⟨y, hy, hxy⟩ := hfrom x hx
      exact ⟨y, List.mem_cons_of_mem _ hy, hxy⟩

theorem appOf_name {app : AppItem} (h : appOf texts item = .ok app) : app.name = item.name := by
  unfold appOf at h
  split at h
  · cases h
  · cases h
    rfl

theorem appOf_version {app : AppItem} {spec : ApplicationSpec} (hname : Unreserved spec.name)
    (hversion : Unreserved spec.version) (hid : item.externalID = externalIDOf spec.name spec.version)
    (h : appOf texts item = .ok app) :
    app.version = Url.bytes spec.version.toList ∧ app.answers = item.answers := by
  obtain ⟨query, hquery, hget⟩ := version_externalIDOf hname hversion
  rw [appOf, hid, hquery] at h
  cases h
  exact ⟨hget, rfl⟩

/-- Rancher lists an app as it was posted, among others with other names. -/
def Lists (item : RancherAppItem) (items : List RancherAppItem) : Prop :=
  ∃ pre listed post, items = pre ++ listed :: post ∧ listed.name = item.name ∧
    listed.externalID = item.externalID ∧ listed.answers = item.answers ∧
    ∀ other ∈ pre ++ post, other.name ≠ item.name ∧ (Url.parse other.externalID).isSome

/-- An app that is listed as it was posted is up to date. -/
theorem upToDate_of_lists (texts : LibTexts) {spec : ApplicationSpec} {pid : String}
    {items : List RancherAppItem} (hname : Unreserved spec.name) (hversion : Unreserved spec.version)
    (h : Lists (installBodyOf spec pid answers) items) :
    ∃ apps, items.mapM (appOf texts) = .ok apps ∧ Found spec.name apps ∧
      UpToDate spec answers apps := by
  obtain ⟨pre, listed, post, rfl, hsame, hid, hanswers, hothers⟩ := h
  obtain ⟨query, hquery, -⟩ := version_externalIDOf hname hversion
  have hmem : ∀ itm ∈ pre ++ listed :: post, itm = listed ∨ itm ∈ pre ++ post := by
    simp only [List.mem_append, List.mem_cons]
    grind
  obtain ⟨apps, hmap, hto, hfrom⟩ := mapM_appOf texts (l := pre ++ listed :: post) fun itm hitm => by
    rcases hmem itm hitm with rfl | hitm
    · rw [show itm.externalID = externalIDOf spec.name spec.version from hid, hquery]
      rfl
    · exact (hothers itm hitm).2
  obtain ⟨app, happ, hof⟩ := hto listed (by simp)
  obtain ⟨htarget, hfound⟩ := targetAppOf_of_mem ⟨app, happ, (appOf_name hof).trans hsame⟩
  obtain ⟨itm, hitm, hitmof⟩ := hfrom _ htarget
  have hlisted : itm = listed := by
    refine (hmem itm hitm).resolve_right fun hother => (hothers itm hother).1 ?_
    rw [← appOf_name hitmof]
    exact hfound
  subst hlisted
  obtain ⟨hv, ha⟩ := appOf_version hname hversion hid hitmof
  exact ⟨apps, hmap, hfound, hv, ha.trans hanswers⟩

/-- After an installation or an upgrade nothing is posted, if Rancher lists what was posted. -/
theorem quiet_after_deploy {inst₁ inst₂ : Application} {acts₁ acts₂ : List Act}
    {res₁ res₂ : Outcome (Except Error Result)} {req : HTTPRequest} {r₁ r₂ : Except Error Response}
    {items : List RancherAppItem} (hname : Unreserved inst₁.spec.name)
    (hversion : Unreserved inst₁.spec.version)
    (h₁ : Reconciles vars texts request inst₁ acts₁ res₁)
    (hpost : (req, r₁) ∈ exchangesOf acts₁) (hbody : req.body = some (.app item))
    (h₂ : Reconciles vars texts request inst₂ acts₂ res₂) (hspec : inst₂.spec = inst₁.spec)
    (hr : (appsRequest vars item.projectID, r₂) ∈ exchangesOf acts₂)
    (hlist : listReply texts "application.rancherAppList" decodeRancherAppList r₂ = .ok items)
    (hitem : Lists item items) :
    res₂ = .done (.ok { requeueAfter := 300 }) ∧ phaseAfter inst₂.status.phase acts₂ = "Deployed" ∧
      ¬ Sends IsPost acts₂ := by
  obtain ⟨pid, answers, hans, rfl⟩ := h₁.posted hpost hbody
  obtain ⟨apps, hmap, hfound, hup⟩ := upToDate_of_lists texts hname hversion hitem
  have hlisting : listing texts r₂ = .ok apps := by rw [listing, hlist]; exact hmap
  obtain ⟨cid, gets, rest, rfl, hgets, ⟨⟨e, he⟩, -⟩ | ⟨apps', hlist', hsync⟩⟩ := h₂.decided hr
  · rw [hlisting] at he
    cases he
  obtain rfl : apps = apps' := Except.ok.inj (hlisting.symm.trans hlist')
  rw [← hspec] at hans hfound hup
  rcases syncApp_cases hsync with ⟨⟨e, he⟩, -⟩ | ⟨answers', hans', -, -, hres, hw⟩ |
    ⟨answers', hans', -, hnot, -⟩ | ⟨hnot, -⟩
  · rw [hans] at he
    cases he
  · refine ⟨hres, ?_, ?_⟩
    · rw [phaseAfter_append hgets]
      exact hw.phaseAfter
    · rw [sends_append hgets list_not_post, hw.exchangesOf]
      simp
  · obtain rfl : answers = answers' := Except.ok.inj (hans.symm.trans hans')
    exact absurd hup hnot
  · exact absurd hfound hnot

/-- The replies before `loggingApp` is installed. -/
def emptyRancher : HTTPRequest → Except Error Response :=
  prodRancher (jsonReply 200 (.obj [("data", .arr [])]))

theorem quiet_after_install :
    (loggingRun [("answers", .obj [])]).outcome = .done (.ok { requeueAfter := 300 }) ∧
      phaseAfter loggingApp.status.phase (actsOf (loggingRun [("answers", .obj [])]).trace) =
        "Deployed" ∧
      ¬ Sends IsPost (actsOf (loggingRun [("answers", .obj [])]).trace) := by
  let item := installBodyOf loggingApp.spec "c-1:p-1" ∅
  let first := reconcileRun prodVars prodTexts loggingApp.key loggingApp emptyRancher
  have hpost : (installRequest prodVars "c-1:p-1" item,
      emptyRancher (installRequest prodVars "c-1:p-1" item)) ∈ exchangesOf (actsOf first.trace) :=
    exchange_run (by decide +kernel)
  have hlisted : Lists item [{ item with projectID := "", targetNamespace := "" }] :=
    ⟨[], _, [], rfl, rfl, rfl, rfl, by simp⟩
  have hname : Unreserved loggingApp.spec.name := by decide +kernel
  have hversion : Unreserved loggingApp.spec.version := by decide +kernel
  exact quiet_after_deploy hname hversion reconciles_run hpost rfl reconciles_run rfl
    (listed_logging _ (by decide +kernel)) (by decide +kernel) hlisted

end ReconcileApplication

end Automium
