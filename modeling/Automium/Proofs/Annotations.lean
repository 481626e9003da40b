import Automium.Proofs.ExtrasPhase
import Automium.Proofs.ModuleFidelity

/-!
# The annotations of a Module

A reconcile of a Service writes the annotations of the Module when it creates it, and never again:
an update writes the spec only. So after each reconcile of a run the annotations are those of the
Service that the first reconcile read, and they follow the Service exactly if its app label and its
version stay the same (`annotations_follow_iff`).
-/

namespace Automium

open Data Effect

namespace ReconcileService

/-- The Module is annotated with the name, the app label and the version of the Service. -/
def AnnotatedAs (m : Module) (service : Service) : Prop :=
  m.metadata.annotations.lookup serviceNameAnnotation = some service.metadata.name ∧
    m.metadata.annotations.lookup appNameAnnotation = some (appOf service) ∧
    m.metadata.annotations.lookup appVersionAnnotation = some service.spec.version

instance (m : Module) (service : Service) : Decidable (AnnotatedAs m service) :=
  inferInstanceAs (Decidable (_ ∧ _ ∧ _))

/-- The versions of the Service have one app label and one version. -/
def SameApp (a b : Service) : Prop := appOf a = appOf b ∧ a.spec.version = b.spec.version

instance (a b : Service) : Decidable (SameApp a b) := inferInstanceAs (Decidable (_ ∧ _))

theorem annotatedAs_iff {m : Module} {a b : Service}
    (hm : m.metadata.annotations = moduleAnnotations b) (hname : a.metadata.name = b.metadata.name) :
    AnnotatedAs m a ↔ SameApp a b := by
  unfold AnnotatedAs SameApp
  rw [hm, moduleAnnotations, hname, Finmap.lookup_insert,
    Finmap.lookup_insert_of_ne _ (show appNameAnnotation ≠ serviceNameAnnotation by decide),
    Finmap.lookup_insert, Finmap.lookup_insert_of_ne _
      (show appVersionAnnotation ≠ serviceNameAnnotation by decide),
    Finmap.lookup_insert_of_ne _ (show appVersionAnnotation ≠ appNameAnnotation by decide),
    Finmap.lookup_insert]
  simp only [true_and, Option.some.injEq, eq_comm]

/-! ## One reconcile -/

/-- The calls of a reconcile of a Service. -/
def trace (upper : Go.Upper) (request : Key) (c : Cluster) : List (Event Api Cluster) :=
  (run serve (Reconcile upper request) c).trace

def after (upper : Go.Upper) (request : Key) (c : Cluster) : Cluster :=
  (run serve (Reconcile upper request) c).final

/-- The version of the Service that a reconcile reads first. -/
def firstRead (tr : List (Event Api Cluster)) : Option Service := (tr.filterMap serviceRead).head?

/-- The annotations of the Module of a Service, if it is stored. -/
def annotationsOf (c : Cluster) (request : Key) : Option StringMap :=
  (c.find? .module ⟨request.ns, moduleName request.name⟩).map fun m => m.metadata.annotations

section

variable (upper : Go.Upper) {request : Key} {c : Cluster} {service : Service} {found : Module}

theorem firstRead_eq : firstRead (trace upper request c) = c.find? .service request := by
  unfold firstRead trace Reconcile syncModule
  rw [bind_assoc, get_bind, run_call]
  cases hs : c.find? .service request with
  | none =>
    rw [serve_get_none hs]
    dsimp only
    rw [if_pos (Error.isNotFound_newNotFound ..)]
    rfl
  | some service =>
    rw [serve_get hs]
    rfl

theorem moduleKey_eq (hs : c.find? .service request = some service) :
    moduleKey service = ⟨request.ns, moduleName request.name⟩ := by
  rw [← find?_key hs]
  rfl

/-- Without the Service, nothing happens. -/
theorem after_none (hs : c.find? .service request = none) : after upper request c = c := by
  unfold after Reconcile syncModule
  rw [bind_assoc, get_bind, run_call, serve_get_none hs]
  dsimp only
  rw [if_pos (Error.isNotFound_newNotFound ..)]
  rfl

/-- A reconcile that does not find the Module creates it with the annotations. -/
theorem annotationsOf_created (hs : c.find? .service request = some service)
    (hm : annotationsOf c request = none) :
    annotationsOf (after upper request c) request = some (moduleAnnotations service) := by
  have hfind : c.find? .module (moduleKey service) = none := by
    rw [moduleKey_eq hs]
    exact Option.map_eq_none_iff.mp hm
  let deploy := renderModule upper (c.env "PLATFORM") service
  have hkey : deploy.key = moduleKey service := rfl
  have hafter : after upper request c =
      c.setTbl .module ((c.tbl .module).put (newObj .module deploy (c.version + 1))) := by
    unfold after Reconcile syncModule
    rw [bind_assoc, get_bind, run_call, serve_get hs]
    dsimp only
    rw [bind_assoc, getenv_bind, run_call, show serve c (.getenv "PLATFORM") =
      (c.env "PLATFORM", c) from rfl]
    dsimp only
    rw [bind_assoc, get_bind, run_call, show (renderModule upper (c.env "PLATFORM") service).key =
      moduleKey service from rfl, serve_get_none hfind]
    dsimp only
    rw [if_pos (Error.isNotFound_newNotFound ..), bind_assoc, create_bind, run_call,
      serve_create rfl hfind]
    rfl
  have hput : ((c.tbl .module).put (newObj .module deploy (c.version + 1))).find? deploy.key =
      some (newObj .module deploy (c.version + 1)) := Table.find?_put_self
  rw [hafter, annotationsOf, Cluster.find?_setTbl, ← moduleKey_eq hs, ← hkey, hput]
  rfl

/-- A reconcile that finds the Module leaves its annotations alone. -/
theorem annotationsOf_found (hm : annotationsOf c request ≠ none) :
    annotationsOf (after upper request c) request = annotationsOf c request := by
  cases hs : c.find? .service request with
  | none => rw [after_none upper hs]
  | some service =>
    obtain ⟨found, hfound⟩ := Option.ne_none_iff_exists'.mp fun h => hm (Option.map_eq_none_iff.mpr h)
    have hkey : (⟨request.ns, moduleName request.name⟩ : Key) = moduleKey service :=
      (moduleKey_eq hs).symm
    unfold annotationsOf
    rw [hkey] at hfound ⊢
    cases hd : IsModuleDifferent found (rendered upper c service) with
    | false =>
      have htbl := (Reconcile_same upper hs hfound hd).2
      rw [Cluster.find?, Cluster.find?, after, htbl]
    | true =>
      rw [after, (Reconcile_updates upper hs hfound hd).2, hfound]
      rfl

end

/-! ## Runs -/

/-- What happens in a step: other actors act, or the Service is reconciled. -/
inductive Turn where
  | others
  | reconcile (tr : List (Event Api Cluster))

/-- Users edit the Service, and the status of the Module may change. A reconcile runs to its end, and
all its calls succeed. -/
inductive TurnStep (upper : Go.Upper) (request : Key) : Cluster → Turn → Cluster → Prop
  | others {c c' : Cluster} : annotationsOf c' request = annotationsOf c request →
      TurnStep upper request c .others c'
  | reconcile (c : Cluster) :
      TurnStep upper request c (.reconcile (trace upper request c)) (after upper request c)

/-- The runs of the reconciles of one Service, before which its Module does not exist. -/
def turns (upper : Go.Upper) (request : Key) : Sys Cluster Turn where
  init c := annotationsOf c request = none
  step := TurnStep upper request

/-- The version of the Service that the step reads. -/
def Turn.read : Turn → Option Service
  | .others => none
  | .reconcile tr => firstRead tr

/-- The versions of the Service that the steps of a run read. -/
def reads (ts : List (Trans Cluster Turn)) : List Service := ts.filterMap fun t => t.lbl.read

/-- After the step, the Module is annotated as the Service that the step has read. -/
def Follows (t : Trans Cluster Turn) : Prop :=
  ∀ service ∈ t.lbl.read, ∃ m : Module, t.post.find? .module (moduleKey service) = some m ∧
    AnnotatedAs m service

section

variable {upper : Go.Upper} {request : Key} {c c' : Cluster} {ts : List (Trans Cluster Turn)}
  {l : Turn}

theorem reads_snoc (t : Trans Cluster Turn) : reads (ts ++ [t]) = reads ts ++ t.lbl.read.toList := by
  unfold reads
  rw [List.filterMap_append]
  cases h : t.lbl.read <;> simp [h]

/-- A step that reads the Service leaves annotations, those from before or those of the Service. -/
theorem TurnStep.annotationsOf_eq (h : TurnStep upper request c l c') :
    annotationsOf c' request =
      (annotationsOf c request).or (l.read.map moduleAnnotations) := by
  cases h with
  | others h => rw [h]; exact Option.or_none.symm
  | reconcile =>
    rw [Turn.read, firstRead_eq]
    cases hm : annotationsOf c request with
    | some m => rw [annotationsOf_found upper (by rw [hm]; nofun), hm]; rfl
    | none =>
      cases hs : c.find? .service request with
      | none => rw [after_none upper hs, hm]; rfl
      | some service => exact annotationsOf_created upper hs hm

/-- In a run the annotations are those of the first version that was read. -/
theorem annotationsOf_run (h : Run (turns upper request) ts c) :
    annotationsOf c request = (reads ts).head?.map moduleAnnotations := by
  induction h with
  | nil h => exact h
  | @snoc ts c c' l _ hst ih =>
    rw [TurnStep.annotationsOf_eq hst, ih, reads_snoc, List.head?_append, Option.map_or]
    cases l.read <;> rfl

theorem key_of_read (h : TurnStep upper request c l c') {service : Service}
    (hr : service ∈ l.read) : service.key = request := by
  cases h with
  | others => cases hr
  | reconcile =>
    rw [Turn.read, firstRead_eq] at hr
    exact find?_key hr

theorem key_of_reads (h : Run (turns upper request) ts c) : ∀ a ∈ reads ts, a.key = request := by
  induction h with
  | nil => simp [reads]
  | snoc _ hst ih =>
    rw [reads_snoc]
    intro a ha
    rcases List.mem_append.mp ha with ha | ha
    · exact ih a ha
    · exact key_of_read hst (Option.mem_toList.mp ha)

/-- A step follows the Service exactly if it reads the app and the version of the first one that was
read. -/
theorem follows_iff (h : Run (turns upper request) ts c) (hst : TurnStep upper request c l c') :
    Follows ⟨c, l, c'⟩ ↔ ∀ a ∈ (reads ts).head?.or l.read, ∀ b ∈ l.read, SameApp b a := by
  have hrun : Run (turns upper request) (ts ++ [⟨c, l, c'⟩]) c' := h.snoc hst
  have hann := annotationsOf_run hrun
  have hkeys := key_of_reads hrun
  have hhead : (reads (ts ++ [⟨c, l, c'⟩])).head? = (reads ts).head?.or l.read := by
    rw [reads_snoc, List.head?_append]
    cases l.read <;> rfl
  cases hread : l.read with
  | none => simp [Follows, hread]
  | some b =>
    have hb := key_of_read hst (Option.mem_def.mpr hread)
    obtain ⟨a, ha⟩ : ∃ a, (reads ts).head?.or (some b) = some a := by
      cases (reads ts).head? with
      | none => exact ⟨b, rfl⟩
      | some a => exact ⟨a, rfl⟩
    rw [hread, ha] at hhead
    rw [hhead] at hann
    obtain ⟨m, hm, hma⟩ := Option.map_eq_some_iff.mp hann
    have ha' : a.key = request := hkeys a (List.mem_of_mem_head? (Option.mem_def.mpr hhead))
    have hmkey : moduleKey b = ⟨request.ns, moduleName request.name⟩ := by rw [← hb]; rfl
    have hname : b.metadata.name = a.metadata.name := congrArg Key.name (hb.trans ha'.symm)
    have hfollows : Follows ⟨c, l, c'⟩ ↔ AnnotatedAs m b := by
      simp [Follows, hread, hmkey, hm]
    rw [hfollows, annotatedAs_iff hma hname, ha]
    simp

/-- In a run the annotations of the Module follow the Service exactly if all versions of the Service
that are read have one app label and one version. -/
theorem annotations_follow_iff (h : Run (turns upper request) ts c) :
    (∀ t ∈ ts, Follows t) ↔ ∀ a ∈ reads ts, ∀ b ∈ reads ts, SameApp a b := by
  have hfirst : (∀ t ∈ ts, Follows t) ↔ ∀ a ∈ (reads ts).head?, ∀ b ∈ reads ts, SameApp b a := by
    induction h with
    | nil => simp [reads]
    | @snoc ts c c' l h hst ih =>
      rw [List.forall_mem_append, List.forall_mem_singleton, ih, follows_iff h hst, reads_snoc]
      cases reads ts with
      | nil => cases l.read <;> simp
      | cons a rest => cases l.read <;> simp [and_assoc, or_imp, forall_and]
  rw [hfirst]
  cases reads ts with
  | nil => simp
  | cons a rest =>
    have hof : (∀ b ∈ a :: rest, SameApp b a) → ∀ b ∈ a :: rest, ∀ b' ∈ a :: rest, SameApp b b' :=
      fun hall b hb b' hb' => ⟨(hall b hb).1.trans (hall b' hb').1.symm,
        (hall b hb).2.trans (hall b' hb').2.symm⟩
    rw [List.head?_cons]
    constructor
    · intro hall
      exact hof (hall a rfl)
    · rintro hall _ ⟨⟩ b hb
      exact hall b hb a List.mem_cons_self

end

/-! ### An edit of the version -/

/-- The Service at a version and with a flavor. -/
def versionedService (version flavor : String) : Service :=
  { webService [] with spec := { (webService []).spec with version := version, flavor := flavor } }

/-- The user has written the Service. -/
def edited (c : Cluster) (service : Service) : Cluster :=
  c.setTbl .service ((c.tbl .service).put service)

/-- A reconcile of the Service. -/
def turn (c : Cluster) : Trans Cluster Turn where
  pre := c
  lbl := .reconcile (trace Go.asciiUpper webKey c)
  post := after Go.asciiUpper webKey c

def firstStore : Cluster := edited Cluster.empty (versionedService "1" "m1")

/-- The run in which the Service is reconciled, edited and reconciled again. -/
def editRun (service : Service) : List (Trans Cluster Turn) :=
  [turn firstStore, ⟨(turn firstStore).post, .others, edited (turn firstStore).post service⟩,
    turn (edited (turn firstStore).post service)]

theorem run_edit (service : Service) :
    Run (turns Go.asciiUpper webKey) (editRun service)
      (turn (edited (turn firstStore).post service)).post := by
  have hinit : annotationsOf firstStore webKey = none := rfl
  have hedit : annotationsOf (edited (turn firstStore).post service) webKey =
      annotationsOf (turn firstStore).post webKey := by
    rw [annotationsOf, Cluster.find?, edited, Cluster.setTbl_ne _ _ (by decide)]
    rfl
  exact (((Run.nil (S := turns Go.asciiUpper webKey) hinit).snoc (.reconcile _)).snoc
    (.others hedit)).snoc (.reconcile _)

/-- The user sets version 2. The Module gets the new spec and keeps the old annotation. -/
theorem version_not_followed :
    ¬ ∀ (upper : Go.Upper) (request : Key) (ts : List (Trans Cluster Turn)) (c : Cluster),
      Run (turns upper request) ts c → ∀ t ∈ ts, Follows t := by
  intro h
  let t := turn (edited (turn firstStore).post (versionedService "2" "m1"))
  have ht : t ∈ editRun (versionedService "2" "m1") := by simp [editRun, t]
  obtain ⟨m, hm, hann⟩ := h _ _ _ _ (run_edit _) t ht (versionedService "2" "m1") (firstRead_eq _)
  have hold : (t.post.find? .module (moduleKey (versionedService "2" "m1"))).map
      (fun m => decide (AnnotatedAs m (versionedService "2" "m1"))) = some false := by decide
  rw [hm] at hold
  exact absurd hann (by simpa using hold)

/-- An edit of the flavor changes no annotation. -/
theorem annotations_follow_web :
    editRun (versionedService "1" "m2") ≠ [] ∧
      ∀ t ∈ editRun (versionedService "1" "m2"), Follows t := by
  refine ⟨List.cons_ne_nil _ _, (annotations_follow_iff (run_edit _)).mpr ?_⟩
  decide

end ReconcileService

end Automium
