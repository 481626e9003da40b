import Automium.Api.Types
import Automium.Data.Table
import Automium.Effect.Sum

/-!
# The API server

The controllers reach everything outside their own memory through calls: the Kubernetes API, the
clock, the environment variables and the Slack webhook. `Request` lists the calls and `Ctl α` is
a controller program that makes them.

`serve` answers a call when nothing fails and every read is current:

* `create` refuses a name that is taken and a set resource version; a new object has no status;
* `update` and `updateStatus` need the current resource version. `update` keeps the stored
  status and `updateStatus` keeps everything else, because the status of every kind here is a
  subresource. Both return the stored object, which the Go client reads into its argument;
* `delete` has no precondition;
* an object is stored as JSON under its declared tags, so an empty `Parameters` map is absent
  when it is read back.

`Serves` allows a list in any order and any time of the clock, and `flaky` also allows every call
to fail.
-/

namespace Automium

open Effect Data

/-! ## Kinds and errors -/

/-- The kinds of the extras, which have the same fields. -/
inductive Addon where
  | monitoring | backup | logging
  deriving DecidableEq

/-- The kinds of objects that the controllers read or write. -/
inductive Kind where
  | service | module | node | job | pod
  | addon (a : Addon)
  | application
  deriving DecidableEq

abbrev Kind.Spec : Kind → Type
  | .service => ServiceSpec
  | .module => ModuleSpec
  | .node => NodeSpec
  | .job => JobSpec
  | .pod => Unit
  | .addon _ => AddonSpec
  | .application => ApplicationSpec

abbrev Kind.Status : Kind → Type
  | .service => ServiceStatus
  | .module => ModuleStatus
  | .node => NodeStatus
  | .job => JobStatus
  | .pod => PodStatus
  | .addon _ => Unit
  | .application => ApplicationStatus

abbrev Kind.Obj (k : Kind) : Type := Object k.Spec k.Status

/-- The status of a new object. -/
def Kind.noStatus : (k : Kind) → k.Status
  | .service => ({} : ServiceStatus)
  | .module => ({} : ModuleStatus)
  | .node => ({} : NodeStatus)
  | .job => ({} : JobStatus)
  | .pod => ({} : PodStatus)
  | .addon _ => ()
  | .application => ({} : ApplicationStatus)

/-- The plural name of a kind, as the texts of API errors have it. -/
def Kind.resource : Kind → String
  | .service => "services.core.automium.io"
  | .module => "modules.core.automium.io"
  | .node => "nodes.core.automium.io"
  | .job => "jobs.batch"
  | .pod => "pods"
  | .addon .monitoring => "monitorings.extras.automium.io"
  | .addon .backup => "backups.extras.automium.io"
  | .addon .logging => "loggings.extras.automium.io"
  | .application => "applications.extras.automium.io"

/-- The kind of an extra, as owner references have it. -/
def Addon.kindName : Addon → String
  | .monitoring => "Monitoring"
  | .backup => "Backup"
  | .logging => "Logging"

/-- The name of a kind, as owner references have it. -/
def Kind.kindName : Kind → String
  | .service => "Service"
  | .module => "Module"
  | .node => "Node"
  | .job => "Job"
  | .pod => "Pod"
  | .addon a => a.kindName
  | .application => "Application"

/-- What `apimachinery`'s `errors.Is…` functions tell apart. -/
inductive Reason where
  | notFound | alreadyExists | conflict | badRequest | other
  deriving DecidableEq

/-- A Go `error`. -/
structure Error where
  reason : Reason
  text : String
  deriving DecidableEq

namespace Error

/-- `errors.New` and `fmt.Errorf`. -/
def new (text : String) : Error := ⟨.other, text⟩

def newBadRequest (text : String) : Error := ⟨.badRequest, text⟩

def newNotFound (k : Kind) (name : String) : Error :=
  ⟨.notFound, k.resource ++ " \"" ++ name ++ "\" not found"⟩

def newAlreadyExists (k : Kind) (name : String) : Error :=
  ⟨.alreadyExists, k.resource ++ " \"" ++ name ++ "\" already exists"⟩

def newConflict (k : Kind) (name : String) : Error :=
  ⟨.conflict, "Operation cannot be fulfilled on " ++ k.resource ++ " \"" ++ name ++ "\": the " ++
    "object has been modified; please apply your changes to the latest version and try again"⟩

def isNotFound (e : Error) : Bool := e.reason = .notFound

def isAlreadyExists (e : Error) : Bool := e.reason = .alreadyExists

@[simp] theorem isNotFound_newNotFound (k : Kind) (name : String) :
    (newNotFound k name).isNotFound = true := rfl

end Error

/-! ## Calls -/

/-- A printed time, which is not empty. -/
abbrev Timestamp := {s : String // s ≠ ""}

/-- `slack.WebhookMessageAttachment`, with the `Fields` by title, value and `Short`. -/
structure WebhookMessageAttachment where
  fallback : String
  text : String
  pretext : String := ""
  color : String
  fields : List (String × String × Bool)
  deriving DecidableEq

/-- The calls of a controller (module doc). -/
inductive Request where
  | get (k : Kind) (key : Key)
  | list (k : Kind) (ns : String)
  | create (k : Kind) (o : k.Obj)
  | update (k : Kind) (o : k.Obj)
  | updateStatus (k : Kind) (o : k.Obj)
  | delete (k : Kind) (key : Key)
  /-- `time.Now().String()`. -/
  | now
  /-- `os.Getenv`. -/
  | getenv (name : String)
  /-- `slack.SendWebhookAttachment`. -/
  | slack (msg : WebhookMessageAttachment)

abbrev Request.Reply : Request → Type
  | .get k _ | .create k _ | .update k _ | .updateStatus k _ => Except Error k.Obj
  | .list k _ => Except Error (List k.Obj)
  | .delete _ _ | .slack _ => Except Error Unit
  | .now => Timestamp
  | .getenv _ => String

/-- The interface of the controllers. -/
abbrev Api : Sig := ⟨Request, Request.Reply⟩

/-- A controller program. -/
abbrev Ctl (α : Type) := Prog Api α

section Calls

variable {α : Type}

def get (k : Kind) (key : Key) : Ctl (Except Error k.Obj) := .call (.get k key) .ret

def list (k : Kind) (ns : String) : Ctl (Except Error (List k.Obj)) := .call (.list k ns) .ret

def create (k : Kind) (o : k.Obj) : Ctl (Except Error k.Obj) := .call (.create k o) .ret

def update (k : Kind) (o : k.Obj) : Ctl (Except Error k.Obj) := .call (.update k o) .ret

def updateStatus (k : Kind) (o : k.Obj) : Ctl (Except Error k.Obj) :=
  .call (.updateStatus k o) .ret

def delete (k : Kind) (key : Key) : Ctl (Except Error Unit) := .call (.delete k key) .ret

def now : Ctl Timestamp := .call .now .ret

def getenv (name : String) : Ctl String := .call (.getenv name) .ret

def slack (msg : WebhookMessageAttachment) : Ctl (Except Error Unit) := .call (.slack msg) .ret

@[simp] theorem get_bind (k : Kind) (key : Key) (f : Except Error k.Obj → Ctl α) :
    get k key >>= f = .call (.get k key) f := rfl

@[simp] theorem list_bind (k : Kind) (ns : String) (f : Except Error (List k.Obj) → Ctl α) :
    list k ns >>= f = .call (.list k ns) f := rfl

@[simp] theorem create_bind (k : Kind) (o : k.Obj) (f : Except Error k.Obj → Ctl α) :
    create k o >>= f = .call (.create k o) f := rfl

@[simp] theorem update_bind (k : Kind) (o : k.Obj) (f : Except Error k.Obj → Ctl α) :
    update k o >>= f = .call (.update k o) f := rfl

@[simp] theorem updateStatus_bind (k : Kind) (o : k.Obj) (f : Except Error k.Obj → Ctl α) :
    updateStatus k o >>= f = .call (.updateStatus k o) f := rfl

@[simp] theorem delete_bind (k : Kind) (key : Key) (f : Except Error Unit → Ctl α) :
    delete k key >>= f = .call (.delete k key) f := rfl

@[simp] theorem now_bind (f : Timestamp → Ctl α) : now >>= f = .call .now f := rfl

@[simp] theorem getenv_bind (name : String) (f : String → Ctl α) :
    getenv name >>= f = .call (.getenv name) f := rfl

variable {T : Sig}

@[simp] theorem get_inl_bind (k : Kind) (key : Key) (f : Except Error k.Obj → Prog (Api.sum T) α) :
    (get k key).inl >>= f = .call (.inl (.get k key)) f := rfl

@[simp] theorem updateStatus_inl_bind (k : Kind) (o : k.Obj)
    (f : Except Error k.Obj → Prog (Api.sum T) α) :
    (updateStatus k o).inl >>= f = .call (.inl (.updateStatus k o)) f := rfl

@[simp] theorem delete_inl_bind (k : Kind) (key : Key)
    (f : Except Error Unit → Prog (Api.sum T) α) :
    (delete k key).inl >>= f = .call (.inl (.delete k key)) f := rfl

@[simp] theorem getenv_inl_bind (name : String) (f : String → Prog (Api.sum T) α) :
    (getenv name).inl >>= f = .call (.inl (.getenv name)) f := rfl

end Calls

/-! ## The stored objects -/

/-- The objects of one kind. -/
abbrev Tbl (k : Kind) := Table (Object.key : k.Obj → Key)

/-- The state that the calls act on. -/
structure Cluster where
  tbl : (k : Kind) → Tbl k
  /-- The last resource version or uid given to an object. -/
  version : Nat
  time : Timestamp
  env : String → String

namespace Cluster

/-- A server with no objects. -/
def empty : Cluster where
  tbl _ := ∅
  version := 0
  time := ⟨"2019-02-01 10:00:00 +0000 UTC", by decide⟩
  env _ := ""

/-- `c` with the table of `k` replaced. -/
def setTbl (c : Cluster) (k : Kind) (t : Tbl k) : Cluster :=
  { c with tbl := Function.update c.tbl k t, version := c.version + 1 }

def find? (c : Cluster) (k : Kind) (key : Key) : Option k.Obj := (c.tbl k).find? key

/-- The objects of a namespace, or of all namespaces if it is `""`. -/
def inNamespace (c : Cluster) (k : Kind) (ns : String) : List k.Obj :=
  (c.tbl k).items.filter fun o => ns = "" ∨ o.metadata.ns = ns

@[simp] theorem setTbl_self (c : Cluster) (k : Kind) (t : Tbl k) : (c.setTbl k t).tbl k = t :=
  Function.update_self ..

theorem setTbl_ne (c : Cluster) {k k' : Kind} (t : Tbl k) (h : k' ≠ k) :
    (c.setTbl k t).tbl k' = c.tbl k' := Function.update_of_ne h ..

@[simp] theorem find?_setTbl (c : Cluster) (k : Kind) (t : Tbl k) (key : Key) :
    (c.setTbl k t).find? k key = t.find? key := by
  rw [find?, setTbl_self]

theorem find?_setTbl_ne (c : Cluster) {k k' : Kind} (t : Tbl k) (key : Key) (h : k' ≠ k) :
    (c.setTbl k t).find? k' key = c.find? k' key := by
  rw [find?, setTbl_ne c t h, find?]

end Cluster

/-- An empty map under an `omitempty` tag is absent. -/
def omitEmpty (m : Option StringMap) : Option StringMap := if m = some ∅ then none else m

/-- A spec as it is read back from the store. The specs that hold a map are those of the extras and
of the Applications; no controller writes the spec of a Service. -/
def Kind.stored : (k : Kind) → k.Spec → k.Spec
  | .addon _, s => ({ s with parameters := omitEmpty s.parameters } : AddonSpec)
  | .application, s => ({ s with parameters := omitEmpty s.parameters } : ApplicationSpec)
  | .service, s | .module, s | .node, s | .job, s | .pod, s => s

/-- The object that `create` stores at version `v`. -/
def newObj (k : Kind) (o : k.Obj) (v : Nat) : k.Obj where
  metadata := { o.metadata with uid := v, resourceVersion := v }
  spec := k.stored o.spec
  status := k.noStatus

/-- The object that `update` stores at version `v` over `old`. -/
def updatedObj (k : Kind) (old o : k.Obj) (v : Nat) : k.Obj where
  metadata := { o.metadata with uid := old.metadata.uid, resourceVersion := v }
  spec := k.stored o.spec
  status := old.status

/-- The object that `updateStatus` stores at version `v` over `old`. -/
def statusObj (k : Kind) (old o : k.Obj) (v : Nat) : k.Obj where
  metadata := { old.metadata with resourceVersion := v }
  spec := old.spec
  status := o.status

/-- The answer to a call when nothing fails and reads are current (module doc). -/
def serve (c : Cluster) : (op : Request) → op.Reply × Cluster
  | .get k key =>
    match c.find? k key with
    | none => (.error (.newNotFound k key.name), c)
    | some o => (.ok o, c)
  | .list k ns => (.ok (c.inNamespace k ns), c)
  | .create k o =>
    if o.metadata.resourceVersion ≠ 0 then
      (.error (.new "resourceVersion should not be set on objects to be created"), c)
    else
      match c.find? k o.key with
      | some _ => (.error (.newAlreadyExists k o.metadata.name), c)
      | none =>
        let o' := newObj k o (c.version + 1)
        (.ok o', c.setTbl k ((c.tbl k).put o'))
  | .update k o =>
    match c.find? k o.key with
    | none => (.error (.newNotFound k o.metadata.name), c)
    | some old =>
      if o.metadata.resourceVersion = old.metadata.resourceVersion then
        let o' := updatedObj k old o (c.version + 1)
        (.ok o', c.setTbl k ((c.tbl k).put o'))
      else (.error (.newConflict k o.metadata.name), c)
  | .updateStatus k o =>
    match c.find? k o.key with
    | none => (.error (.newNotFound k o.metadata.name), c)
    | some old =>
      if o.metadata.resourceVersion = old.metadata.resourceVersion then
        let o' := statusObj k old o (c.version + 1)
        (.ok o', c.setTbl k ((c.tbl k).put o'))
      else (.error (.newConflict k o.metadata.name), c)
  | .delete k key =>
    match c.find? k key with
    | none => (.error (.newNotFound k key.name), c)
    | some _ => (.ok (), c.setTbl k ((c.tbl k).erase key))
  | .now => (c.time, c)
  | .getenv name => (c.env name, c)
  | .slack _ => (.ok (), c)

end Automium
