import Automium.Effect.Crash
import Automium.Proofs.Choice
import Automium.Proofs.ScaleDown

/-!
# When the Module controller panics

Two sites of the Module controller can panic, both in the scale-down branch of
`manageNodesForModule`: the `less` closure indexes the numbers of a hostname that may have none, and
the slice of the surplus Nodes starts at `Spec.Replicas`, which may be negative.

`never_panics_iff` says exactly for which stored objects no execution panics, whatever the order of
the lists and whichever calls fail.
-/

namespace Automium

open Data Effect

namespace ReconcileModule

/-- The scale-down of these Nodes to `R` panics for some order of them. -/
def ScaleDownPanics (sort : SliceSort) (R : Int) (nodes : List Node) : Prop :=
  (sort.Compares nodes.length ∧ ∃ node ∈ nodes, Go.NoDigit node.spec.hostname) ∨
    (R < 0 ∧ (sort.Compares nodes.length → ∀ node ∈ nodes, Fits node))

/-- An action that may be chosen, given the order of the list. -/
def MayChoose (inst : Module) (c : Cluster) (action : String) : Prop :=
  if inst.spec.replicas = 0 then action = "Destroy"
  else ∃ l, l.Perm (c.inNamespace .node inst.metadata.ns) ∧
    action = actionFor inst (nodesOfService (serviceNameOf inst.metadata) l)

/-- For an action that may be chosen, the stored Job is as desired. -/
def JobStands (inst : Module) (c : Cluster) : Prop :=
  ∃ action command found container rest, MayChoose inst c action ∧ jobCommand action = some command ∧
    c.find? .job ⟨inst.metadata.ns, jobName inst.metadata.name⟩ = some found ∧
    found.spec.containers = container :: rest ∧ jobDiffers (provisioner inst command) container = false

/-- The Module has its annotations, and a namespace. -/
def Annotated (inst : Module) : Prop :=
  appNameOf inst.metadata ≠ "" ∧ serviceNameOf inst.metadata ≠ "" ∧ inst.metadata.ns ≠ ""

section

variable {sort : SliceSort} {inst : Module} {c : Cluster}

/-! ## Managing the Nodes -/

theorem createNodes_noCrash (appName serviceName : String) (l : List ℕ) :
    NoCrash (createNodes inst appName serviceName l) := by
  induction l with
  | nil => trivial
  | cons i rest ih =>
    unfold createNodes
    cases specHostname appName serviceName inst.spec.env i with
    | error e => trivial
    | ok hostname =>
      dsimp only
      rw [create_bind]
      intro r
      cases r with
      | ok => exact ih
      | error e =>
        dsimp only
        split
        · exact ih
        · trivial

theorem markForDeletion_noCrash (nodes : List Node) : NoCrash (markForDeletion nodes) := by
  induction nodes with
  | nil => trivial
  | cons item rest ih =>
    unfold markForDeletion
    split
    · rw [now_bind]
      intro date
      dsimp only
      rw [update_bind]
      exact fun _ => ih
    · exact ih

/-- The scale-down panics in the sort, or after it if the replicas are negative. -/
theorem deleteExtraNodes_crashes_iff {nodes : List Node} :
    Crashes lossy c (deleteExtraNodes sort inst nodes) ↔
      (∃ msg, SortNodesByNumber sort nodes = .crash msg) ∨
        ∃ sorted, SortNodesByNumber sort nodes = .ret (.ok sorted) ∧ inst.spec.replicas < 0 := by
  unfold deleteExtraNodes
  rcases SortNodesByNumber_cases sort nodes with ⟨msg, hs⟩ | ⟨e, hs⟩ | ⟨sorted, hs, -⟩ <;> rw [hs]
  · exact iff_of_true (.crash msg) (.inl ⟨msg, rfl⟩)
  · exact iff_of_false (Crashes.ret _) (by simp)
  · rw [Prog.ret_bind]
    dsimp only
    split
    · rename_i hneg
      exact iff_of_true (.crash _) (.inr ⟨sorted, rfl, hneg⟩)
    · rename_i hpos
      refine iff_of_false (Crashes.not_of_noCrash ?_) (by simp [hpos])
      exact (markForDeletion_noCrash _).bind fun _ => trivial

/-- The same for the lists of any order. -/
theorem scaleDownPanics_iff : (∃ l, l.Perm (c.inNamespace .node inst.metadata.ns) ∧
      Crashes lossy c (deleteExtraNodes sort inst (nodesOfService (serviceNameOf inst.metadata) l))) ↔
    ScaleDownPanics sort inst.spec.replicas (serviceNodes inst c) := by
  constructor
  · rintro ⟨l, hl, hcrash⟩
    have hp := listed_perm hl
    rw [ScaleDownPanics, hp.length_eq]
    rcases deleteExtraNodes_crashes_iff.mp hcrash with ⟨msg, hs⟩ | ⟨sorted, hs, hneg⟩
    · left
      have hnot : ¬ ∀ node ∈ nodesOfService (serviceNameOf inst.metadata) l,
          Go.firstNumber node.spec.hostname ≠ none := fun h => SortNodesByNumber_no_crash h msg hs
      simp only [ne_eq, not_forall, not_not] at hnot
      obtain ⟨node, hm, hnone⟩ := hnot
      refine ⟨?_, node, hp.mem_iff.mpr hm, Go.firstNumber_eq_none.mp hnone⟩
      cases htree : sort.tree (nodesOfService (serviceNameOf inst.metadata) l).length with
      | done order => exact nomatch (SortNodesByNumber_silent htree).symm.trans hs
      | ask x y k => exact ⟨x, y, k, htree⟩
    · refine .inr ⟨hneg, fun hc node hm => ?_⟩
      by_contra hbad
      exact SortNodesByNumber_overflow hc (hp.mem_iff.mp hm) hbad sorted hs
  · rintro (⟨hc, node, hm, hdigit⟩ | ⟨hneg, hfits⟩)
    · obtain ⟨ys, hys, hs⟩ := exists_SortNodesByNumber_crash hc hm (Go.firstNumber_eq_none.mpr hdigit)
      obtain ⟨l, hl, rfl⟩ := exists_listing hys
      exact ⟨l, hl, deleteExtraNodes_crashes_iff.mpr (.inl ⟨_, hs⟩)⟩
    · refine ⟨_, .refl _, deleteExtraNodes_crashes_iff.mpr (.inr ?_)⟩
      cases htree : sort.tree (serviceNodes inst c).length with
      | done order => exact ⟨_, SortNodesByNumber_silent htree, hneg⟩
      | ask x y k =>
        obtain ⟨sorted, hs, -⟩ := SortNodesByNumber_sorted sort (hfits ⟨x, y, k, htree⟩)
        exact ⟨sorted, hs, hneg⟩

/-- `manageNodesForModule` panics in the scale-down only. -/
theorem manageNodesForModule_crashes_iff : Crashes lossy c (manageNodesForModule sort inst) ↔
    Annotated inst ∧ inst.spec.replicas < (serviceNodes inst c).length ∧
      ScaleDownPanics sort inst.spec.replicas (serviceNodes inst c) := by
  by_cases hnames : Annotated inst
  · obtain ⟨k, hk, herr, hok⟩ := manageNodesForModule_eq sort hnames.1 hnames.2.1 hnames.2.2
    rw [hk, Crashes.call_iff lossy_closed, ← scaleDownPanics_iff, and_iff_right hnames]
    constructor
    · rintro ⟨r, c₁, ha, hcrash⟩
      cases r with
      | error e =>
        rw [herr] at hcrash
        exact (Crashes.ret _ hcrash).elim
      | ok l =>
        obtain ⟨⟨l, hl, hr⟩, rfl⟩ := ha.resolve_right fun h => nomatch h.1
        cases hr
        rw [hok] at hcrash
        have hlen := (listed_perm hl).length_eq
        unfold manageListed at hcrash
        split at hcrash
        · exact (Crashes.not_of_noCrash (createNodes_noCrash ..) hcrash).elim
        · split at hcrash
          · exact ⟨by omega, l, hl, hcrash⟩
          · exact (Crashes.ret _ hcrash).elim
    · rintro ⟨hlt, l, hl, hcrash⟩
      have hlen := (listed_perm hl).length_eq
      refine ⟨.ok l, c, .inl ⟨⟨l, hl, rfl⟩, rfl⟩, ?_⟩
      rw [hok, manageListed, if_neg (by omega), if_pos (by omega)]
      exact hcrash
  · have hmissing : appNameOf inst.metadata = "" ∨ serviceNameOf inst.metadata = "" ∨
        inst.metadata.ns = "" := by
      unfold Annotated at hnames
      tauto
    obtain ⟨e, he⟩ := manageNodesForModule_error sort hmissing
    rw [he]
    exact iff_of_false (Crashes.ret _) fun h => hnames h.1

/-! ## The rest of `Reconcile` -/

theorem updateModuleStatus_noCrash (action phase : String) :
    NoCrash (updateModuleStatus inst action phase) := by
  unfold updateModuleStatus getUpdatedNodes
  split
  · trivial
  · rw [bind_assoc, list_bind]
    intro r
    cases r with
    | error e => trivial
    | ok nodes =>
      dsimp only
      change NoCrash (ite _ _ _)
      split
      · trivial
      · rw [updateStatus_bind]
        intro r
        cases r <;> trivial

theorem deletePods_noCrash (stem : String) (pods : List Pod) : NoCrash (deletePods stem pods) := by
  induction pods with
  | nil => trivial
  | cons pod rest ih =>
    unfold deletePods
    split
    · rw [delete_bind]
      exact fun _ => ih
    · exact ih

theorem cleanupPods_noCrash (inst : Module) : NoCrash (cleanupPods inst) := by
  unfold cleanupPods
  rw [list_bind]
  intro r
  cases r with
  | error e => trivial
  | ok pods => exact deletePods_noCrash _ pods

theorem recreateJob_noCrash (action : String) (found : Job) :
    NoCrash (recreateJob inst action found) := by
  unfold recreateJob
  split
  · trivial
  · refine (cleanupPods_noCrash inst).bind fun _ => ?_
    rw [delete_bind]
    intro r
    cases r with
    | error e => trivial
    | ok =>
      refine (updateModuleStatus_noCrash action _).bind fun r => ?_
      cases r <;> trivial

theorem reportJob_crashes_iff {action : String} {found : Job} :
    Crashes lossy c (reportJob sort inst action found) ↔
      Crashes lossy c (manageNodesForModule sort inst) := by
  refine Crashes.bind_of_noCrash fun r => ?_
  cases r with
  | error e => trivial
  | ok =>
    dsimp only
    cases retrieveJobStatus found with
    | error e => trivial
    | ok status =>
      refine (updateModuleStatus_noCrash action _).bind fun r => ?_
      cases r with
      | error e => trivial
      | ok => dsimp only; split <;> trivial

/-- With the action chosen, it panics only if the Job is as desired. -/
theorem syncJob_crashes_iff {action : String} {command : List String} :
    Crashes lossy c (syncJob sort inst action (desiredJob inst command)) ↔
      (∃ found container rest,
        c.find? .job ⟨inst.metadata.ns, jobName inst.metadata.name⟩ = some found ∧
        found.spec.containers = container :: rest ∧
        jobDiffers (provisioner inst command) container = false) ∧
      Crashes lossy c (manageNodesForModule sort inst) := by
  unfold syncJob
  rw [get_bind, Crashes.call_iff lossy_closed]
  constructor
  · rintro ⟨r, c₁, ha, hcrash⟩
    cases r with
    | error e =>
      refine (Crashes.not_of_noCrash ?_ hcrash).elim
      dsimp only
      split
      · rw [create_bind]
        intro r
        cases r <;> trivial
      · trivial
    | ok found =>
      obtain ⟨rfl, hfind⟩ := (ha.resolve_right fun h => nomatch h.1).get_ok
      dsimp only at hcrash
      split at hcrash
      · rename_i desired _ container rest hdesired hcontainers
        cases hdesired
        split at hcrash
        · exact (Crashes.not_of_noCrash (recreateJob_noCrash ..) hcrash).elim
        · rename_i hdiff
          rw [Bool.not_eq_true] at hdiff
          exact ⟨⟨found, container, rest, hfind _ rfl, hcontainers, hdiff⟩,
            reportJob_crashes_iff.mp hcrash⟩
      · exact (Crashes.ret _ hcrash).elim
  · rintro ⟨⟨found, container, rest, hfind, hcontainers, hdiff⟩, hcrash⟩
    refine ⟨.ok found, c, .inl (serve_get hfind), ?_⟩
    have hdesired : (desiredJob inst command).spec.containers = [provisioner inst command] := rfl
    dsimp only
    rw [hdesired, hcontainers]
    dsimp only
    rw [hdiff]
    exact reportJob_crashes_iff.mpr hcrash

theorem chooseModuleAction_noCrash (inst : Module) : NoCrash (chooseModuleAction inst) := by
  unfold chooseModuleAction retrieveNodesForService
  split
  · trivial
  · split
    · trivial
    · rw [bind_assoc, list_bind]
      intro r
      cases r <;> trivial

/-- The action is one that may be chosen, and any of these is chosen in some execution. -/
theorem chooseModuleAction_crashes_iff (hnames : Annotated inst)
    {f : Except Error String → Ctl (Except Error Result)} (hf : ∀ e, NoCrash (f (.error e))) :
    Crashes lossy c (chooseModuleAction inst >>= f) ↔
      ∃ action, MayChoose inst c action ∧ Crashes lossy c (f (.ok action)) := by
  unfold MayChoose
  by_cases hr : inst.spec.replicas = 0
  · simp only [if_pos hr]
    rw [chooseModuleAction_zero hr, Prog.ret_bind]
    simp
  · simp only [if_neg hr]
    obtain ⟨k, hk, herr, hok⟩ := chooseModuleAction_eq hr hnames.2.1 hnames.2.2
    rw [hk, Prog.call_bind, Crashes.call_iff lossy_closed]
    constructor
    · rintro ⟨r, c₁, ha, hcrash⟩
      cases r with
      | error e =>
        rw [herr, Prog.ret_bind] at hcrash
        exact (Crashes.not_of_noCrash (hf e) hcrash).elim
      | ok l =>
        obtain ⟨⟨l, hl, hr⟩, rfl⟩ := ha.resolve_right fun h => nomatch h.1
        cases hr
        rw [hok, Prog.ret_bind] at hcrash
        exact ⟨_, ⟨l, hl, rfl⟩, hcrash⟩
    · rintro ⟨action, ⟨l, hl, rfl⟩, hcrash⟩
      refine ⟨.ok l, c, .inl ⟨⟨l, hl, rfl⟩, rfl⟩, ?_⟩
      rw [hok, Prog.ret_bind]
      exact hcrash

/-- What `Reconcile` does with the Module that it has read. -/
def reconcileFound (sort : SliceSort) (inst : Module) : Ctl (Except Error Result) := do
  match ← chooseModuleAction inst with
  | .error _ => return .ok { requeueAfter := 30 }
  | .ok action =>
    match jobCommand action with
    | none =>
      return .error (.new ("unknown action for module " ++ inst.metadata.name ++ ": " ++ action))
    | some command => syncJob sort inst action (desiredJob inst command)

theorem reconcileFound_crashes_iff : Crashes lossy c (reconcileFound sort inst) ↔
    Annotated inst ∧ JobStands inst c ∧ inst.spec.replicas < (serviceNodes inst c).length ∧
      ScaleDownPanics sort inst.spec.replicas (serviceNodes inst c) := by
  unfold reconcileFound
  by_cases hnames : Annotated inst
  · refine (chooseModuleAction_crashes_iff hnames ?_).trans ?_
    · exact fun e => trivial
    rw [and_iff_right hnames]
    have hmanage := @manageNodesForModule_crashes_iff sort inst c
    rw [and_iff_right hnames] at hmanage
    constructor
    · rintro ⟨action, hmay, hcrash⟩
      dsimp only at hcrash
      cases hcommand : jobCommand action with
      | none =>
        rw [hcommand] at hcrash
        exact (Crashes.ret _ hcrash).elim
      | some command =>
        rw [hcommand] at hcrash
        obtain ⟨⟨found, container, rest, hjob⟩, hcrash⟩ := syncJob_crashes_iff.mp hcrash
        exact ⟨⟨action, command, found, container, rest, hmay, hcommand, hjob⟩, hmanage.mp hcrash⟩
    · rintro ⟨⟨action, command, found, container, rest, hmay, hcommand, hjob⟩, hcrash⟩
      refine ⟨action, hmay, ?_⟩
      dsimp only
      rw [hcommand]
      exact syncJob_crashes_iff.mpr ⟨⟨found, container, rest, hjob⟩, hmanage.mpr hcrash⟩
  · refine iff_of_false (fun hcrash => ?_) fun h => hnames h.1
    rcases Crashes.bind_iff.mp hcrash with hcrash | ⟨tr, r, c₁, -, hcrash⟩
    · exact Crashes.not_of_noCrash (chooseModuleAction_noCrash inst) hcrash
    · cases r with
      | error e => exact Crashes.ret _ hcrash
      | ok action =>
        dsimp only at hcrash
        cases hcommand : jobCommand action with
        | none =>
          rw [hcommand] at hcrash
          exact Crashes.ret _ hcrash
        | some command =>
          rw [hcommand] at hcrash
          exact hnames (manageNodesForModule_crashes_iff.mp (syncJob_crashes_iff.mp hcrash).2).1

/-- A reconcile never panics exactly if the Module has no surplus Nodes, or its Job is not as
desired, or the surplus can be sorted and sliced (module doc). -/
theorem never_panics_iff {request : Key} :
    (∀ tr o c', Exec lossy (Reconcile sort request) c tr o c' → ∀ msg, o ≠ .crashed msg) ↔
      ∀ inst, c.find? .module request = some inst → Annotated inst → JobStands inst c →
        inst.spec.replicas < (serviceNodes inst c).length →
          ¬ ScaleDownPanics sort inst.spec.replicas (serviceNodes inst c) := by
  have hcrashes : Crashes lossy c (Reconcile sort request) ↔
      ∃ inst, c.find? .module request = some inst ∧ Crashes lossy c (reconcileFound sort inst) := by
    unfold Reconcile
    rw [get_bind, Crashes.call_iff lossy_closed]
    constructor
    · rintro ⟨r, c₁, ha, hcrash⟩
      cases r with
      | error e =>
        dsimp only at hcrash
        split at hcrash
        · exact (Crashes.ret _ hcrash).elim
        · exact (Crashes.ret _ hcrash).elim
      | ok inst =>
        obtain ⟨rfl, hfind⟩ := (ha.resolve_right fun h => nomatch h.1).get_ok
        exact ⟨inst, hfind inst rfl, hcrash⟩
    · rintro ⟨inst, hfind, hcrash⟩
      exact ⟨.ok inst, c, .inl (serve_get hfind), hcrash⟩
  constructor
  · intro h inst hfind hnames hstands hlt hpanics
    obtain ⟨tr, msg, c', he⟩ := hcrashes.mpr
      ⟨inst, hfind, reconcileFound_crashes_iff.mpr ⟨hnames, hstands, hlt, hpanics⟩⟩
    exact h _ _ _ he msg rfl
  · rintro h tr o c' he msg rfl
    obtain ⟨inst, hfind, hcrash⟩ := hcrashes.mp ⟨tr, msg, c', he⟩
    obtain ⟨hnames, hstands, hlt, hpanics⟩ := reconcileFound_crashes_iff.mp hcrash
    exact h inst hfind hnames hstands hlt hpanics

end

/-! ### Hostnames without a digit -/

/-- A Node of the service `web` whose hostname has no digit. -/
def plainNode (name hostname : String) : Node where
  metadata := { name := name, ns := "default",
                annotations := Finmap.insert serviceNameAnnotation "web" ∅ }
  spec := { hostname := hostname }
  status := {}

/-- A Module for one replica, its Job, and two such Nodes. -/
def plainStore : Cluster :=
  ((Cluster.empty.setTbl .module (Table.empty.put (pairModule "web"))).setTbl .job
    (Table.empty.put (desiredJob (pairModule "web") ["./deploy"]))).setTbl .node
      ((Table.empty.put (plainNode "a" "web")).put (plainNode "b" "web-blue"))

theorem hostname_panics :
    ¬ ∀ (sort : SliceSort) (request : Key) (c : Cluster) (tr : List (Event Api Cluster))
      (o : Outcome (Except Error Result)) (c' : Cluster),
      Exec lossy (Reconcile sort request) c tr o c' → ∀ msg, o ≠ .crashed msg := by
  intro h
  have he := flaky_of_calm (fun _ _ => False)
    (calm_run (Reconcile insertionSort ⟨"default", "web-module"⟩) plainStore)
  have ho : (run serve (Reconcile insertionSort ⟨"default", "web-module"⟩) plainStore).outcome =
      .crashed "runtime error: index out of range" := by decide
  rw [ho] at he
  exact h _ _ _ _ _ _ he _ rfl

end ReconcileModule

end Automium
