import Automium.Data.Delimited
import Automium.Proofs.Ownership

/-!
# The names of the objects of a Service

The controllers look up the objects of a Service by their names, and take what they find for their
own. A `Role` is what an object is for its Service. Its name is that of the Service with a tail, and
no tail is the end of another one (`tail_suffixFree`). So the name tells the Service and the role,
whatever the Services are called (`Role.key_inj`).

`derived_of_run`: when the controllers run at the same time, every object that they find under a
name was created in the role of this name, for the Service of this name. For the Node that is there
already when `manageNodesForModule` creates one, `derived_names_apart` says so.
-/

namespace Automium

open Data Effect

open ReconcileModule (serviceNameOf nodeName jobName newNode nodeName_inj)

namespace ReconcileService

/-! ## Names -/

/-- What an object is for its Service. -/
inductive Role where
  | module
  | job
  /-- The Node of replica `i`. -/
  | node (i : Nat)
  | addon (a : Addon)
  /-- The Application of an extra. -/
  | application (a : Addon)
  deriving DecidableEq

namespace Role

def kind : Role → Kind
  | .module => .module
  | .job => .job
  | .node _ => .node
  | .addon a => .addon a
  | .application _ => .application

/-- The name of the object. -/
def name (service : String) : Role → String
  | .module => moduleName service
  | .job => jobName (moduleName service)
  | .node i => nodeName service i
  | .addon a => service ++ suffixOf a
  | .application a => service ++ suffixOf a ++ "-app"

/-- What the name has after that of the Service. -/
def tail : Role → String
  | .module => "-module"
  | .job => "-module-job"
  | .node i => "-node-" ++ toString i
  | .addon a => suffixOf a
  | .application a => suffixOf a ++ "-app"

/-- The key of the object, for the key of the Service. -/
def key (service : Key) (x : Role) : Key := ⟨service.ns, x.name service.name⟩

/-- The roles that one object has. -/
def single : List Role :=
  [.module, .job, .addon .monitoring, .addon .backup, .addon .logging, .application .monitoring,
    .application .backup, .application .logging]

theorem single_or_node (x : Role) : x ∈ single ∨ ∃ i, x = .node i := by
  cases x with
  | module | job => exact .inl (by decide)
  | node i => exact .inr ⟨i, rfl⟩
  | addon a | application a => cases a <;> exact .inl (by decide)

theorem name_eq (service : String) (x : Role) : x.name service = service ++ x.tail := by
  have hjob : "-module-job" = "-module" ++ "-job" := by decide
  cases x with
  | module | addon a => rfl
  | job => exact (String.append_assoc ..).trans (congrArg (service ++ ·) hjob.symm)
  | node i | application a => exact String.append_assoc ..

/-- The last character of a tail is a digit. -/
def EndsInDigit (x : Role) : Prop := ∃ c, x.tail.toList.getLast? = some c ∧ c.isDigit = true

theorem single_tails : ∀ x ∈ single, ∀ y ∈ single, x.tail.toList <:+ y.tail.toList → x = y := by
  decide

theorem single_not_endsInDigit {x : Role} (h : x ∈ single) : ¬ x.EndsInDigit := by
  have hlast : ∀ x ∈ single, (x.tail.toList.getLast?.any Char.isDigit) = false := by decide
  rintro ⟨c, hc, hd⟩
  have hx := hlast x h
  rw [hc, Option.any_some, hd] at hx
  cases hx

theorem node_endsInDigit (i : Nat) : (Role.node i).EndsInDigit := by
  have hne : (toString i).toList ≠ [] := by
    rw [Go.toList_toString]
    exact Nat.toDigits_ne_nil
  refine ⟨(toString i).toList.getLast hne, ?_, Go.isDigit_of_mem_toString (List.getLast_mem hne)⟩
  rw [tail, String.toList_append, List.getLast?_append_of_ne_nil _ hne,
    List.getLast?_eq_some_getLast hne]

theorem tail_ne_nil (x : Role) : x.tail.toList ≠ [] := by
  rcases x.single_or_node with h | ⟨i, rfl⟩
  · have hall : ∀ x ∈ single, x.tail.toList ≠ [] := by decide
    exact hall x h
  · intro h
    obtain ⟨c, hc, -⟩ := node_endsInDigit i
    rw [h] at hc
    cases hc

/-- No tail is the end of another one. -/
theorem tail_suffixFree : SuffixFree fun x : Role => x.tail.toList := by
  intro x y (h : x.tail.toList <:+ y.tail.toList)
  have hends : x.EndsInDigit ↔ y.EndsInDigit := by
    obtain ⟨t, ht⟩ := h
    rw [EndsInDigit, EndsInDigit, ← ht, List.getLast?_append_of_ne_nil t x.tail_ne_nil]
  rcases x.single_or_node with hx | ⟨i, rfl⟩
  · rcases y.single_or_node with hy | ⟨j, rfl⟩
    · exact single_tails x hx y hy h
    · exact (single_not_endsInDigit hx (hends.mpr (node_endsInDigit j))).elim
  · rcases y.single_or_node with hy | ⟨j, rfl⟩
    · exact (single_not_endsInDigit hy (hends.mp (node_endsInDigit i))).elim
    · obtain ⟨t, ht⟩ := h
      -- The tail of replica `j` is the name of its Node for a Service without a name.
      have hnames : nodeName (String.ofList t) i = nodeName "" j := by
        rw [← String.toList_inj]
        show (name (String.ofList t) (.node i)).toList = (name "" (.node j)).toList
        rw [name_eq, name_eq, String.toList_append, String.toList_append, String.toList_ofList, ht]
        rfl
      rw [(nodeName_inj hnames).2]

/-- The name of an object tells that of the Service, and what the object is for it. -/
theorem name_inj {s t : String} {x y : Role} (h : x.name s = y.name t) : s = t ∧ x = y := by
  rw [name_eq, name_eq, ← String.toList_inj, String.toList_append, String.toList_append] at h
  obtain ⟨hs, hxy⟩ := tail_suffixFree.append_inj h
  exact ⟨String.toList_inj.mp hs, hxy⟩

example : job.name "shop" = "shop-module-job" ∧ job.name "shop" ≠ module.name "shop-module" := by
  decide

theorem key_inj {s t : Key} {x y : Role} : x.key s = y.key t ↔ s = t ∧ x = y := by
  constructor
  · intro h
    obtain ⟨hns, hname⟩ := Key.mk.inj h
    obtain ⟨hs, hxy⟩ := name_inj hname
    obtain ⟨ns, name⟩ := s
    obtain rfl : ns = t.ns := hns
    obtain rfl : name = t.name := hs
    exact ⟨rfl, hxy⟩
  · rintro ⟨rfl, rfl⟩
    rfl

theorem name_ne_empty (service : String) (x : Role) : x.name service ≠ "" := by
  intro h
  rw [name_eq, String.append_eq_empty_iff] at h
  exact x.tail_ne_nil (by rw [h.2]; rfl)

end Role

/-! ## What is stored -/

/-- What the controllers write into an object so that it tells whose it is: the name of the Service
as an annotation, or a controller reference. -/
def Role.Marks (service : String) (metadata : ObjectMeta) : Role → Prop
  | .module | .node _ | .addon _ => serviceNameOf metadata = service
  | .job => Owned Kind.module.kindName (moduleName service) metadata
  | .application a => Owned (Kind.addon a).kindName (service ++ suffixOf a) metadata

/-- The object was created in this role for the Service of the key. -/
structure CreatedAs (service : Key) (x : Role) (metadata : ObjectMeta) : Prop where
  key : (⟨metadata.ns, metadata.name⟩ : Key) = x.key service
  marks : x.Marks service.name metadata

/-- The parts of the metadata that no controller changes in an object that is there. -/
structure SameOrigin (old new : ObjectMeta) : Prop where
  name : new.name = old.name
  inNs : new.ns = old.ns
  annotations : new.annotations = old.annotations
  ownerReferences : new.ownerReferences = old.ownerReferences

/-- The object was created for one of the Services. -/
def OfService (V : Service → Prop) (k : Kind) (metadata : ObjectMeta) : Prop :=
  ∃ s x, V s ∧ x.kind = k ∧ CreatedAs s.key x metadata

/-- What the controllers store, when the versions of the Services are those in `V`. -/
def Derived (V : Service → Prop) : (k : Kind) → k.Obj → Prop
  | .service, o => ∃ s, V s ∧ Same s o
  | .pod, _ => True
  | k, o => OfService V k o.metadata

section

variable {upper : Go.Upper} {V : Service → Prop} {k : Kind} {old new : ObjectMeta}

theorem CreatedAs.of_sameOrigin {service : Key} {x : Role} (h : CreatedAs service x old)
    (hn : SameOrigin old new) : CreatedAs service x new := by
  refine ⟨?_, ?_⟩
  · rw [hn.name, hn.inNs]
    exact h.key
  · have hmarks := h.marks
    unfold Role.Marks serviceNameOf Owned at hmarks ⊢
    rwa [hn.annotations, hn.ownerReferences]

theorem OfService.of_sameOrigin (h : OfService V k old) (hn : SameOrigin old new) :
    OfService V k new := by
  obtain ⟨s, x, hs, hk, hx⟩ := h
  exact ⟨s, x, hs, hk, hx.of_sameOrigin hn⟩

theorem OfService.derived {o : k.Obj} (h : OfService V k o.metadata) : Derived V k o := by
  cases k with
  | service => obtain ⟨s, x, -, hk, -⟩ := h; cases x <;> cases hk
  | pod => trivial
  | module | node | job | addon | application => exact h

theorem Derived.ofService (hs : k ≠ .service) (hp : k ≠ .pod) {o : k.Obj} (h : Derived V k o) :
    OfService V k o.metadata := by
  cases k with
  | service => exact absurd rfl hs
  | pod => exact absurd rfl hp
  | module | node | job | addon | application => exact h

/-- An object with this key is in the role that the key tells. -/
theorem OfService.own {metadata : ObjectMeta} (h : OfService V k metadata) {service : Key}
    {x : Role} (hkey : (⟨metadata.ns, metadata.name⟩ : Key) = x.key service) :
    CreatedAs service x metadata := by
  obtain ⟨s, y, -, -, hy⟩ := h
  obtain ⟨rfl, rfl⟩ := Role.key_inj.mp (hy.key.symm.trans hkey)
  exact hy

/-! ## The calls -/

theorem OfService.keeps_create {o : k.Obj} (h : OfService V k o.metadata) :
    (Request.create k o).Keeps (Derived V) :=
  fun _ => OfService.derived (h.of_sameOrigin ⟨rfl, rfl, rfl, rfl⟩)

theorem OfService.keeps_update {o : k.Obj} (h : OfService V k o.metadata) :
    (Request.update k o).Keeps (Derived V) :=
  fun _ _ _ _ => OfService.derived (h.of_sameOrigin ⟨rfl, rfl, rfl, rfl⟩)

theorem keeps_updateStatus (o : k.Obj) : (Request.updateStatus k o).Keeps (Derived V) := by
  intro old v hold _
  cases k with
  | service =>
    obtain ⟨s, hs, h₁, h₂, h₃, h₄⟩ := hold
    exact ⟨s, hs, h₁, h₂, h₃, h₄⟩
  | pod => trivial
  | module | node | job | addon | application =>
    have hof : OfService V _ old.metadata := hold
    exact hof.of_sameOrigin ⟨rfl, rfl, rfl, rfl⟩

theorem derived_of_syncCall {op : Request} (h : SyncCall upper (Derived V) op) :
    op.Keeps (Derived V) := by
  unfold SyncCall at h
  split at h
  · obtain ⟨platform, inst, ⟨s, hs, hsame⟩, rfl⟩ := h
    refine OfService.keeps_create ⟨s, .module, hs, rfl, ?_, ?_⟩
    · exact congrArg (Role.key · .module) hsame.key_eq
    · exact (serviceNameOf_renderModule upper platform inst).trans hsame.name
  · obtain ⟨platform, inst, found, -, hfound, -, rfl⟩ := h
    exact OfService.keeps_update hfound
  · exact keeps_updateStatus _
  · cases op with
    | create | update | updateStatus | delete => cases h
    | get | list | now | getenv | slack => trivial

theorem derived_of_extraCall {service : Service} {op : Request} (hs : Derived V .service service)
    (h : ExtraCall (Derived V) service op) : op.Keeps (Derived V) := by
  obtain ⟨s, hs, hsame⟩ := hs
  unfold ExtraCall at h
  split at h
  · trivial
  · trivial
  · rename_i a o
    obtain ⟨-, version, parameters, rfl⟩ := h
    refine OfService.keeps_create ⟨s, .addon a, hs, rfl, ?_, ?_⟩
    · exact congrArg (Role.key · (.addon a)) hsame.key_eq
    · exact (StringMap.index_insert ..).trans hsame.name
  · rename_i a o
    obtain ⟨found, hfound | rfl, hmeta⟩ := h
    · refine OfService.keeps_update ?_
      rw [hmeta]
      exact hfound
    · -- No object has the key of the zero value.
      intro old v hold hkey
      obtain ⟨t, x, -, -, hx⟩ := hold
      have hname : x.name t.metadata.name = "" := by
        refine (Key.mk.inj hx.key).2.symm.trans ((Key.mk.inj hkey).2.trans ?_)
        rw [hmeta]
        rfl
      exact absurd hname (x.name_ne_empty _)
  · exact h.elim

/-- The calls of the Service controller. -/
theorem derived_of_serviceCall {op : Request} (h : ReconcileCall upper (Derived V) op) :
    op.Keeps (Derived V) := by
  rcases h with h | ⟨service, hs, h⟩
  · exact derived_of_syncCall h
  · exact derived_of_extraCall hs h

/-- The calls of the Module controller. -/
theorem derived_of_moduleCall {inst : Module} {op : Request} (hinst : Derived V .module inst)
    (h : ReconcileModule.MayCall (Derived V) inst op) : op.Keeps (Derived V) := by
  obtain ⟨s, x, hs, hk, hx⟩ := hinst
  obtain rfl : x = .module := by cases x <;> first | rfl | cases hk
  obtain ⟨hns, hname⟩ := Key.mk.inj hx.key
  unfold ReconcileModule.MayCall at h
  split at h
  · trivial
  · trivial
  · trivial
  · obtain ⟨-, i, hostname, -, -, rfl⟩ := h
    refine OfService.keeps_create ⟨s, .node i, hs, rfl, ?_, ?_⟩
    · rw [hx.marks]
      exact congrArg (Key.mk · _) hns
    · exact (ReconcileModule.serviceNameOf_newNode ..).trans hx.marks
  · obtain ⟨command, rfl⟩ := h
    refine OfService.keeps_create ⟨s, .job, hs, rfl, ?_, ?_⟩
    · exact congrArg₂ Key.mk hns (congrArg jobName hname)
    · have howned : Owned Kind.module.kindName inst.metadata.name
          (ReconcileModule.desiredJob inst command).metadata :=
        owned_controllerReference _ inst.metadata rfl
      rwa [hname] at howned
  · obtain ⟨item, date, hitem, rfl⟩ := h
    exact OfService.keeps_update hitem
  · exact keeps_updateStatus _
  · trivial
  · trivial
  · trivial
  · exact h.elim

/-- The calls of the extras controllers. -/
theorem derived_of_addonCall {a : Addon} {name ns : String} {op : Request}
    (h : AddonCall a name ns (Derived V) op) : op.Keeps (Derived V) := by
  unfold AddonCall at h
  split at h
  · trivial
  · obtain ⟨inst, ⟨s, x, hs, hk, hx⟩, rfl⟩ := h
    obtain rfl : x = .addon a := by cases x <;> first | cases hk; rfl | cases hk
    obtain ⟨hns, hname⟩ := Key.mk.inj hx.key
    refine OfService.keeps_create ⟨s, .application a, hs, rfl, ?_, ?_⟩
    · exact congrArg₂ Key.mk hns (congrArg (· ++ "-app") hname)
    · have howned : Owned (Kind.addon a).kindName inst.metadata.name
          (addonApplication a name ns inst).metadata :=
        owned_controllerReference _ inst.metadata rfl
      rwa [hname] at howned
  · obtain ⟨found, spec, hfound, rfl⟩ := h
    exact OfService.keeps_update hfound
  · exact h.elim

end

/-! ## Runs -/

/-- A step of the other actors: users edit the Services into versions in `V`, anybody may remove
objects or change their specs, labels and statuses, the Node controller brings Nodes back that were
created before, and anything may be done to pods. Nobody makes up other objects by hand. -/
structure Bystanders (V : Service → Prop) (c c' : Cluster) : Prop where
  services : ∀ o : Service, o ∈ c'.tbl .service → ∃ s, V s ∧ Same s o
  nodes : ∀ o : Node, o ∈ c'.tbl .node →
    (∃ old : Node, old ∈ c.tbl .node ∧ SameOrigin old.metadata o.metadata) ∨
      ∃ s i, V s ∧ CreatedAs s.key (.node i) o.metadata
  others : ∀ k, k ≠ .service → k ≠ .node → k ≠ .pod → ∀ o : k.Obj, o ∈ c'.tbl k →
    ∃ old : k.Obj, old ∈ c.tbl k ∧ SameOrigin old.metadata o.metadata

/-- The controllers at work among the other actors. -/
def amongBystanders (upper : Go.Upper) (sort : SliceSort) (V : Service → Prop) :
    Sys (Pool Api Cluster (Except Error Result)) Pool.Move :=
  Pool.sys (flaky (Bystanders V)) (IsController upper sort) (Unserved V)

section

variable {upper : Go.Upper} {sort : SliceSort} {V : Service → Prop} {c c' : Cluster}

theorem Unserved.derived (h : Unserved V c) : c.All (Derived V) :=
  h.all (fun _ ho => ho) fun _ => trivial

theorem Bystanders.derived (h : Bystanders V c c') (hc : c.All (Derived V)) :
    c'.All (Derived V) := by
  intro k o ho
  by_cases hs : k = .service
  · subst hs; exact h.services o ho
  by_cases hp : k = .pod
  · subst hp; trivial
  have hold : ∀ old : k.Obj, old ∈ c.tbl k → SameOrigin old.metadata o.metadata → Derived V k o :=
    fun old hm hsame => OfService.derived (((hc k old hm).ofService hs hp).of_sameOrigin hsame)
  by_cases hn : k = .node
  · subst hn
    rcases h.nodes o ho with ⟨old, hm, hsame⟩ | ⟨s, i, hs, hx⟩
    · exact hold old hm hsame
    · exact ⟨s, .node i, hs, rfl, hx⟩
  · obtain ⟨old, hm, hsame⟩ := h.others k hs hn hp o ho
    exact hold old hm hsame

/-- What is stored in a run. -/
theorem derived_of_run {ts : List (Trans (Pool Api Cluster (Except Error Result)) Pool.Move)}
    {p : Pool Api Cluster (Except Error Result)} (h : Run (amongBystanders upper sort V) ts p) :
    p.state.All (Derived V) :=
  all_of_run (fun _ => derived_of_serviceCall) (fun _ _ => derived_of_moduleCall)
    (fun _ _ _ _ => derived_of_addonCall) (fun _ h => h.derived) (fun _ _ hc h => h.derived hc) h

end

/-- The names of two objects are different unless they are the same object of the same Service. So
in a run, an object that is found under a name was created in this role for this Service. If the
Node of a replica exists already when it is created, it is that of this replica. -/
theorem derived_names_apart (upper : Go.Upper) (sort : SliceSort) (V : Service → Prop) :
    (∀ (s t : Key) (x y : Role), x.key s = y.key t ↔ s = t ∧ x = y) ∧
      ∀ (ts : List (Trans (Pool Api Cluster (Except Error Result)) Pool.Move))
        (p : Pool Api Cluster (Except Error Result)), Run (amongBystanders upper sort V) ts p →
        (∀ (service : Key) (x : Role) (o : x.kind.Obj), o ∈ p.state.tbl x.kind →
          o.key = x.key service → CreatedAs service x o.metadata) ∧
        ∀ (service : Key) (hostname : String) (i : Nat) (e : Error) (c' : Cluster),
          Serves p.state (.create .node (newNode service.name service.ns hostname i)) (.error e)
            c' → e.isAlreadyExists = true →
          ∃ node : Node, node ∈ p.state.tbl .node ∧ CreatedAs service (.node i) node.metadata := by
  refine ⟨fun s t x y => Role.key_inj, fun ts p h => ?_⟩
  have hall := derived_of_run h
  have hown : ∀ (service : Key) (x : Role) (o : x.kind.Obj), o ∈ p.state.tbl x.kind →
      o.key = x.key service → CreatedAs service x o.metadata := by
    intro service x o ho hkey
    have hof : OfService V x.kind o.metadata :=
      (hall x.kind o ho).ofService (by cases x <;> nofun) (by cases x <;> nofun)
    exact hof.own hkey
  refine ⟨hown, fun service hostname i e c' hserves he => ?_⟩
  obtain ⟨node, hf⟩ := hserves.alreadyExists he
  exact ⟨node, find?_mem hf, hown service (.node i) node (find?_mem hf) (find?_key hf)⟩

/-- The Node of the Service `shop` is there when it is created once more. -/
theorem derived_names_apart_shop : ∃ ts p e c' node,
    Run (amongBystanders Go.asciiUpper insertionSort (· = appService "shop" "nginx")) ts p ∧
    Serves p.state (.create .node (newNode "shop" "default" "nginx-0" 0)) (.error e) c' ∧
    e.isAlreadyExists = true ∧ node ∈ p.state.tbl .node ∧
    CreatedAs ⟨"default", "shop"⟩ (.node 0) node.metadata := by
  obtain ⟨ts, hr⟩ := run_shop (Bystanders (· = appService "shop" "nginx")) (appService "shop" "nginx")
  have hserves : Serves (shopDeployed (appService "shop" "nginx"))
      (.create .node (newNode "shop" "default" "nginx-0" 0))
      (.error (.newAlreadyExists .node "shop-node-0")) (shopDeployed (appService "shop" "nginx")) := rfl
  obtain ⟨node, hnode, hcreated⟩ := ((derived_names_apart _ _ _).2 ts _ hr).2
    ⟨"default", "shop"⟩ "nginx-0" 0 _ _ hserves rfl
  exact ⟨ts, _, _, _, node, hr, hserves, rfl, hnode, hcreated⟩

end ReconcileService

end Automium
