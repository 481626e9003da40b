import Automium.Proofs.Completed
import Std.Data.String.ToInt

/-!
# Which Jobs are kept

A reconcile keeps the Job that it finds if the variables and the command of its container are the
desired ones. The variables say everything about the spec of the Module but its source, which is
only in the name of the image. So a kept Job runs the desired container, unless nothing but the
source has changed since it was created (`job_fidelity_iff`).
-/

namespace Automium

open Data Effect

namespace ReconcileModule

/-- The Job has the spec of one that a reconcile created for `old`, an earlier spec of the Module,
with the command `oldCommand` of an action. -/
def CreatedFor (inst : Module) (old : ModuleSpec) (oldCommand : List String) (found : Job) : Prop :=
  (∃ oldAction, jobCommand oldAction = some oldCommand) ∧
    found.spec = (desiredJob { inst with spec := old } oldCommand).spec

/-- More than the source has changed, or the source has not: in another field of the spec, or in the
command. -/
def Noticed (old new : ModuleSpec) (oldCommand command : List String) : Prop :=
  old.source = new.source ∨ { old with source := new.source } ≠ new ∨ oldCommand ≠ command

instance (old new : ModuleSpec) (oldCommand command : List String) :
    Decidable (Noticed old new oldCommand command) :=
  inferInstanceAs (Decidable (_ ∨ _ ∨ _))

/-! ## The variables of the Job -/

/-- The variables of the Job determine the spec of the Module but for the source. -/
theorem batchEnvVars_eq_iff {a b : Module} :
    batchEnvVars a = batchEnvVars b ↔ { a.spec with source := b.spec.source } = b.spec := by
  obtain ⟨_, ⟨_, image, replicas, flavor, env⟩, _⟩ := a
  obtain ⟨_, ⟨_, image', replicas', flavor', env'⟩, _⟩ := b
  unfold batchEnvVars
  constructor
  · intro h
    obtain ⟨henv, hown⟩ := List.append_inj' h rfl
    simp only [List.cons.injEq, EnvVar.mk.injEq, true_and, and_true] at hown
    obtain ⟨rfl, hr, rfl⟩ := hown
    obtain rfl := Int.repr_injective hr
    subst henv
    rfl
  · intro h
    simp only [ModuleSpec.mk.injEq, true_and] at h
    obtain ⟨rfl, rfl, rfl, rfl⟩ := h
    rfl

/-- The images of two sources at one version of the image. -/
theorem provisioner_image_eq_iff {a b : Module} {command command' : List String}
    (h : a.spec.image = b.spec.image) :
    (provisioner a command).image = (provisioner b command').image ↔
      a.spec.source = b.spec.source := by
  unfold provisioner
  dsimp only
  rw [h]
  refine ⟨fun e => ?_, fun e => by rw [e]⟩
  exact (String.append_right_inj _).mp ((String.append_left_inj _).mp ((String.append_left_inj _).mp e))

/-- What is compared decides on the container, unless only the source has changed. -/
theorem containers_iff {inst : Module} {old : ModuleSpec} {command oldCommand : List String}
    (hsame : jobDiffers (provisioner inst command)
      (provisioner { inst with spec := old } oldCommand) = false) :
    [provisioner { inst with spec := old } oldCommand] = [provisioner inst command] ↔
      Noticed old inst.spec oldCommand command := by
  simp only [jobDiffers, Bool.or_eq_false_iff, decide_eq_false_iff_not, ne_eq, not_not] at hsame
  obtain ⟨henv, rfl⟩ : batchEnvVars inst = batchEnvVars { inst with spec := old } ∧
    command = oldCommand := hsame
  have hspec := batchEnvVars_eq_iff.mp henv.symm
  have himage : old.image = inst.spec.image := by rw [← hspec]
  have hnoticed : Noticed old inst.spec command command ↔ old.source = inst.spec.source := by
    simp [Noticed, show { old with source := inst.spec.source } = inst.spec from hspec]
  rw [hnoticed, ← provisioner_image_eq_iff (a := { inst with spec := old }) (b := inst) himage]
  constructor
  · intro h
    rw [(List.cons.inj h).1]
  · intro h
    unfold provisioner at h ⊢
    rw [henv]
    simpa using h

theorem noticed_of_differs {inst : Module} {old : ModuleSpec} {command oldCommand : List String}
    (hdiff : jobDiffers (provisioner inst command)
      (provisioner { inst with spec := old } oldCommand) = true) :
    Noticed old inst.spec oldCommand command := by
  simp only [jobDiffers, Bool.or_eq_true, decide_eq_true_eq, ne_eq] at hdiff
  rcases hdiff with henv | hcommand
  · exact .inr (.inl fun h => henv (batchEnvVars_eq_iff.mpr h).symm)
  · exact .inr (.inr (Ne.symm hcommand))

/-! ## A reconcile -/

theorem updateModuleStatus_keeps (inst : Module) (action phase : String) :
    Uses (fun op : Request => op.isDelete = false) (updateModuleStatus inst action phase) := by
  refine (updateModuleStatus_uses inst action phase).mono ?_
  rintro op (rfl | ⟨nodes, rfl⟩) <;> rfl

/-- A Job that is kept is not deleted, and the reconcile does not wait for it. -/
theorem reportJob_keeps (sort : SliceSort) (inst : Module) (action : String) (found : Job) :
    Obeys (S := Api) (fun _ _ => True) (fun op => op.isDelete = false)
      (reportJob sort inst action found) (· ≠ .ok { requeueAfter := 30 }) := by
  unfold reportJob
  have hnodes : Uses (fun op : Request => op.isDelete = false) (manageNodesForModule sort inst) :=
    (manageNodesForModule_uses sort inst).mono fun op h => by cases op <;> first | rfl | exact h.elim
  refine Obeys.bind hnodes fun r _ => ?_
  cases r with
  | error e => exact fun h => by cases h
  | ok =>
    dsimp only
    cases retrieveJobStatus found with
    | error e => exact fun h => by cases h
    | ok status =>
      dsimp only
      refine Obeys.bind (updateModuleStatus_keeps inst action _) fun r _ => ?_
      cases r with
      | error e => exact fun h => by cases h
      | ok => dsimp only; split <;> exact fun h => by cases h

section

variable {σ : Type} {W : World Api σ} {s s' : σ} {tr : List (Event Api σ)} {inst : Module}
  {sort : SliceSort} {request : Key} {action : String} {found : Job}
  {res : Except Error Result}

/-- A Job that is not kept is deleted, or the reconcile waits for it. -/
theorem recreateJob_ends (he : Exec W (recreateJob inst action found) s tr (.done res) s') :
    (∃ e ∈ tr, e.op.isDelete = true) ∨ res = .ok { requeueAfter := 30 } := by
  unfold recreateJob at he
  split at he
  · exact .inr he.ret_done.1
  · obtain ⟨_, s₁, tr₁, tr₂, rfl, -, he₁⟩ := he.bind_done
    rw [delete_bind] at he₁
    obtain ⟨s₂, r, s₃, tr₃, -, -, -, rfl⟩ := he₁.call_done
    exact .inl ⟨_, List.mem_append_right _ List.mem_cons_self, rfl⟩

theorem reportJob_ends (he : Exec W (reportJob sort inst action found) s tr (.done res) s') :
    (∀ e ∈ tr, e.op.isDelete = false) ∧ res ≠ .ok { requeueAfter := 30 } := by
  have htrue : Stable W fun _ => True := fun _ _ _ _ => trivial
  obtain ⟨-, hev, hres⟩ := (reportJob_keeps sort inst action found).invariant htrue
    (fun _ _ _ _ _ _ _ => ⟨trivial, trivial⟩) he trivial
  exact ⟨fun e hm => (hev e hm).2, hres res rfl⟩

/-- The reconcile has chosen the action, which has the command. -/
def Chose (W : World Api σ) (inst : Module) (tr : List (Event Api σ)) (command : List String) :
    Prop :=
  ∃ action s₁ tr₁ s₂, Exec W (chooseModuleAction inst) s₁ tr₁ (.done (.ok action)) s₂ ∧
    tr₁ <:+: tr ∧ jobCommand action = some command

/-- The rest of a reconcile whose action has this command. -/
theorem syncJob_fidelity {command : List String}
    (he : Exec W (syncJob sort inst action (desiredJob inst command)) s tr (.done res) s')
    (hfound : (tr.filterMap jobRead).head? = some found) {old : ModuleSpec}
    {oldCommand : List String} (hold : CreatedFor inst old oldCommand found) :
    ((∀ e ∈ tr, e.op.isDelete = false) → res ≠ .ok { requeueAfter := 30 } →
        found.spec.containers = [provisioner inst command]) ↔
      Noticed old inst.spec oldCommand command := by
  unfold syncJob at he
  rw [get_bind] at he
  obtain ⟨s₁, r, s₂, tr₁, -, -, he₁, rfl⟩ := he.call_done
  cases r with
  | error e =>
    rw [List.filterMap_cons_none rfl] at hfound
    have hnil : tr₁.filterMap jobRead = [] := by
      dsimp only at he₁
      split at he₁
      · rw [create_bind] at he₁
        obtain ⟨s₃, r, s₄, tr₂, -, -, he₂, rfl⟩ := he₁.call_done
        have hnil : tr₂ = [] := by cases r <;> exact he₂.ret_trace
        rw [hnil]
        rfl
      · rw [he₁.ret_trace]
        rfl
    rw [hnil] at hfound
    cases hfound
  | ok found' =>
    obtain rfl : found' = found := Option.some.inj hfound
    have hcontainers : found'.spec.containers = [provisioner { inst with spec := old } oldCommand] := by
      rw [hold.2]
      rfl
    rw [hcontainers]
    dsimp only at he₁
    rw [hcontainers] at he₁
    dsimp only [desiredJob] at he₁
    split at he₁
    · rename_i hdiff
      refine iff_of_true (fun hdel hres => ?_) (noticed_of_differs hdiff)
      rcases recreateJob_ends he₁ with ⟨e, hm, hd⟩ | hwait
      · exact absurd hd (by simp [hdel e (List.mem_cons_of_mem _ hm)])
      · exact absurd hwait hres
    · rename_i hsame
      obtain ⟨hdel, hres⟩ := reportJob_ends he₁
      rw [← containers_iff (Bool.eq_false_iff.mpr hsame)]
      exact ⟨fun h => h (List.forall_mem_cons.mpr ⟨rfl, hdel⟩) hres, fun h _ _ => h⟩

/-- When a reconcile that neither deletes the Job that it has read nor waits for it, finds the
desired container in it: unless nothing but the source has changed since the Job was created. -/
theorem job_fidelity_iff (he : Exec W (Reconcile sort request) s tr (.done res) s')
    (hinst : (tr.filterMap ReconcileService.moduleRead).head? = some inst)
    (hfound : (tr.filterMap jobRead).head? = some found)
    {old : ModuleSpec} {oldCommand : List String} (hold : CreatedFor inst old oldCommand found) :
    ∃ command, Chose W inst tr command ∧
      (((∀ e ∈ tr, e.op.isDelete = false) → res ≠ .ok { requeueAfter := 30 } →
          found.spec.containers = [provisioner inst command]) ↔
        Noticed old inst.spec oldCommand command) := by
  unfold Reconcile at he
  rw [get_bind] at he
  obtain ⟨s₁, r, s₂, tr₁, -, -, he₁, rfl⟩ := he.call_done
  cases r with
  | error e =>
    dsimp only at he₁
    split at he₁ <;> rw [he₁.ret_trace] at hinst <;> cases hinst
  | ok inst' =>
    obtain rfl : inst' = inst := Option.some.inj hinst
    rw [List.filterMap_cons_none rfl] at hfound
    dsimp only at he₁
    obtain ⟨r, s₃, tr₂, tr₃, rfl, hchoose, he₂⟩ := he₁.bind_done
    obtain ⟨-, hjob, -, hdel⟩ := OnNodes.reads ((chooseModuleAction_uses inst').events hchoose)
    rw [List.filterMap_append, hjob, List.nil_append] at hfound
    cases r with
    | error e =>
      rw [he₂.ret_trace] at hfound
      cases hfound
    | ok action =>
      dsimp only at he₂
      cases hcommand : jobCommand action with
      | none =>
        rw [hcommand] at he₂
        rw [he₂.ret_trace] at hfound
        cases hfound
      | some command =>
        rw [hcommand] at he₂
        refine ⟨command, ⟨action, s₂, tr₂, s₃, hchoose, ?_, hcommand⟩, ?_⟩
        · exact (List.prefix_append tr₂ tr₃).isInfix.trans (List.suffix_cons _ _).isInfix
        · rw [← syncJob_fidelity he₂ hfound hold, List.forall_mem_cons, List.forall_mem_append]
          exact ⟨fun h hd => h ⟨rfl, hdel, hd⟩, fun h hd => h hd.2.2⟩

end

/-! ### Two sources with images of one name -/

/-- The Module of version `plus-1` of the app `nginx`. -/
def relabeledModule : Module := provisionedModule "nginx-plus-1"

/-- The same Module when its Service was version `1` of the app `nginx-plus`. -/
def nginxPlusSpec : ModuleSpec := { relabeledModule.spec with source := "nginx-plus" }

/-- The Job for an earlier spec of the Module, which has ended well. -/
def oldJob (old : ModuleSpec) : Job where
  metadata := { (desiredJob relabeledModule ["./deploy"]).metadata with uid := 2, resourceVersion := 2 }
  spec := (desiredJob { relabeledModule with spec := old } ["./deploy"]).spec
  status := { startTime := some "2019-02-01T10:00:00Z", conditions := ["Complete"] }

def oldJobStore (old : ModuleSpec) : Cluster :=
  (moduleStore relabeledModule).setTbl .job (Table.empty.put (oldJob old))

theorem createdFor_oldJob (old : ModuleSpec) :
    CreatedFor relabeledModule old ["./deploy"] (oldJob old) :=
  ⟨⟨"Deploy", rfl⟩, rfl⟩

/-- The Job of the other source is kept. -/
theorem other_source_kept :
    ¬ ∀ (sort : SliceSort) (request : Key) (c c' : Cluster) (tr : List (Event Api Cluster))
      (res : Except Error Result) (inst : Module) (found : Job) (old : ModuleSpec)
      (oldCommand : List String),
      Exec calm (Reconcile sort request) c tr (.done res) c' →
      (tr.filterMap ReconcileService.moduleRead).head? = some inst →
      (tr.filterMap jobRead).head? = some found → CreatedFor inst old oldCommand found →
      ∃ command, Chose calm inst tr command ∧ ((∀ e ∈ tr, e.op.isDelete = false) →
        res ≠ .ok { requeueAfter := 30 } → found.spec.containers = [provisioner inst command]) := by
  intro h
  have hout : (visited (oldJobStore nginxPlusSpec)).outcome = .done (.ok {}) := by decide
  have he := calm_run (Reconcile insertionSort webRequest) (oldJobStore nginxPlusSpec)
  rw [show (run serve (Reconcile insertionSort webRequest) (oldJobStore nginxPlusSpec)).outcome =
    .done (.ok {}) from hout] at he
  obtain ⟨command, -, hsame⟩ := h _ _ _ _ _ _ relabeledModule (oldJob nginxPlusSpec) _ _ he (by decide)
    (by decide) (createdFor_oldJob _)
  have himage := congrArg (List.map Container.image) (hsame (by decide) (by decide))
  exact absurd himage (by simp [oldJob, desiredJob, provisioner, nginxPlusSpec]; decide)

/-- The Job of the present spec is kept, and it is the desired one. -/
theorem job_fidelity_nginx :
    ∃ command, Chose calm relabeledModule (visited (oldJobStore relabeledModule.spec)).trace command ∧
      (((∀ e ∈ (visited (oldJobStore relabeledModule.spec)).trace, e.op.isDelete = false) →
          (.ok {} : Except Error Result) ≠ .ok { requeueAfter := 30 } →
          (oldJob relabeledModule.spec).spec.containers = [provisioner relabeledModule command]) ↔
        Noticed relabeledModule.spec relabeledModule.spec ["./deploy"] command) := by
  have hout : (visited (oldJobStore relabeledModule.spec)).outcome = .done (.ok {}) := by decide
  have he := calm_run (Reconcile insertionSort webRequest) (oldJobStore relabeledModule.spec)
  rw [show (run serve (Reconcile insertionSort webRequest) (oldJobStore relabeledModule.spec)).outcome =
    .done (.ok {}) from hout] at he
  exact job_fidelity_iff he (by decide) (by decide) (createdFor_oldJob _)

end ReconcileModule

end Automium
