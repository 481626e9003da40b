import Automium.Api.Server
import Automium.Effect.Sum
import Automium.Go.Json
import Automium.Go.Url

/-!
# `pkg/controller/application/application_http.go` and `application_utils.go`

The Application controller deploys through Rancher's HTTP API. The functions here make the
requests and read the replies. The three that list something have one body (`getList`), which
looks at the body of a reply but not at its status; the answers of an app are built from the
environment and from the parameters of the Application. Log lines are left out.

A request is one call (`http`): `http.NewRequest` and `Client.Do`, which fail if the URL is not
well formed, if nothing is reached, or if there is no reply in time.
-/

namespace Automium

open Effect Go

/-! ## Requests and replies -/

/-- `rancherDataItem`. -/
structure RancherDataItem where
  name : String := ""
  id : String := ""
  state : String := ""
  deriving DecidableEq

/-- `rancherAppItem`. -/
structure RancherAppItem where
  name : String := ""
  id : String := ""
  state : String := ""
  externalID : String := ""
  projectID : String := ""
  prune : Bool := false
  targetNamespace : String := ""
  answers : Option StringMap := none
  deriving DecidableEq

/-- What the body of a request is the JSON form of. -/
inductive RequestBody where
  | app (item : RancherAppItem)
  /-- The `moveRequest`. -/
  | move (projectID : String)
  deriving DecidableEq

structure HTTPRequest where
  method : String
  url : String
  /-- The `Authorization` header. -/
  authorization : String
  body : Option RequestBody
  deriving DecidableEq

/-- `http.Response`. -/
structure Response where
  statusCode : Nat
  status : String
  /-- What `ioutil.ReadAll` reads of the body, and its error. -/
  body : String := ""
  readError : Option Error := none
  /-- The JSON value of the body, or the error of `json.Unmarshal` for a text that is none. -/
  json : Except Error Json

/-- The interface of Rancher. -/
abbrev Rancher : Sig := ⟨HTTPRequest, fun _ => Except Error Response⟩

/-- The interface of the Application controller. -/
abbrev AppApi : Sig := Api.sum Rancher

abbrev AppCtl (α : Type) := Prog AppApi α

def http (req : HTTPRequest) : AppCtl (Except Error Response) := .call (.inr req) .ret

@[simp] theorem http_bind {α : Type} (req : HTTPRequest) (f : Except Error Response → AppCtl α) :
    http req >>= f = .call (.inr req) f := rfl

/-- The texts of errors of Go's library, which differ from one release to another. -/
structure LibTexts where
  /-- `json.Unmarshal` into a value of the type. -/
  json (type : String) (j : Json) : String
  /-- `url.Parse`. -/
  url (rawurl : String) : String

namespace ReconcileApplication

/-! ## Decoding -/

/-- A `map[string]string`. -/
def decodeMap (old : Option StringMap) : Json → Option (Option StringMap)
  | .null => some none
  | .obj members =>
    (members.foldlM (fun (m : StringMap) (k, v) => (Json.decodeString "" v).map (Finmap.insert k · m))
      (old.getD ∅)).map some
  | _ => none

def decodeDataItem : RancherDataItem → Json → Option RancherDataItem :=
  Json.decodeStruct
    [("name", fun itm j => (Json.decodeString itm.name j).map ({ itm with name := · })),
     ("id", fun itm j => (Json.decodeString itm.id j).map ({ itm with id := · })),
     ("state", fun itm j => (Json.decodeString itm.state j).map ({ itm with state := · }))]

def decodeAppItem : RancherAppItem → Json → Option RancherAppItem :=
  Json.decodeStruct
    [("name", fun itm j => (Json.decodeString itm.name j).map ({ itm with name := · })),
     ("id", fun itm j => (Json.decodeString itm.id j).map ({ itm with id := · })),
     ("state", fun itm j => (Json.decodeString itm.state j).map ({ itm with state := · })),
     ("externalId",
       fun itm j => (Json.decodeString itm.externalID j).map ({ itm with externalID := · })),
     ("projectId",
       fun itm j => (Json.decodeString itm.projectID j).map ({ itm with projectID := · })),
     ("prune", fun itm j => (Json.decodeBool itm.prune j).map ({ itm with prune := · })),
     ("targetNamespace", fun itm j =>
       (Json.decodeString itm.targetNamespace j).map ({ itm with targetNamespace := · })),
     ("answers", fun itm j => (decodeMap itm.answers j).map ({ itm with answers := · }))]

/-- The `Data` of a `rancherList`. -/
def decodeRancherList : Json → Option (List RancherDataItem) :=
  Json.decodeStruct [("data", Json.decodeSlice {} decodeDataItem)] []

/-- The `Data` of a `rancherAppList`. -/
def decodeRancherAppList : Json → Option (List RancherAppItem) :=
  Json.decodeStruct [("data", Json.decodeSlice {} decodeAppItem)] []

/-- The body of a reply is read and decoded. -/
def decodeResponse {α : Type} (texts : LibTexts) (type : String) (decode : Json → Option α)
    (resp : Response) : Except Error α :=
  match resp.readError with
  | some e => .error e
  | none =>
    match resp.json with
    | .error e => .error e
    | .ok j =>
      match decode j with
      | none => .error (.new (texts.json type j))
      | some a => .ok a

/-! ## Lists -/

/-- `prepareHTTPRequest`, and the request. -/
def doRequest (method url : String) (body : Option RequestBody) : AppCtl (Except Error Response) := do
  let token ← (getenv "RANCHER_CLUSTER_TOKEN").inl
  http { method := method, url := url, authorization := "Bearer " ++ token, body := body }

/-- The part that the functions with a list share. -/
def getList {α : Type} (texts : LibTexts) (type : String) (decode : Json → Option α)
    (path : String) : AppCtl (Except Error α) := do
  let host ← (getenv "RANCHER_URL").inl
  match ← doRequest "GET" ("https://" ++ host ++ path) none with
  | .error e => return .error e
  | .ok resp => return decodeResponse texts type decode resp

/-- The ID of the active cluster of the name in the list. -/
def activeCluster (clusterName : String) (clusters : List RancherDataItem) : Except Error String :=
  match clusters.find? fun itm => itm.name = clusterName && itm.state = "active" with
  | none => .error (.new "no cluster found with that name")
  | some itm => .ok itm.id

def getRancherClusterIDFromName (texts : LibTexts) (clusterName : String) :
    AppCtl (Except Error String) := do
  match ← getList texts "application.rancherList" decodeRancherList "/v3/clusters" with
  | .error e => return .error e
  | .ok clusters => return activeCluster clusterName clusters

/-- The ID of the project of the name in the list. -/
def projectNamed (projectName : String) (projects : List RancherDataItem) : Except Error String :=
  match projects.find? fun itm => itm.name = projectName with
  | none => .error (.new "no project found with that name")
  | some itm => .ok itm.id

def getRancherProjectIDFromName (texts : LibTexts) (clusterID projectName : String) :
    AppCtl (Except Error String) := do
  match ← getList texts "application.rancherList" decodeRancherList
      ("/v3/clusters/" ++ clusterID ++ "/projects") with
  | .error e => return .error e
  | .ok projects => return projectNamed projectName projects

/-- `appItem`. What comes from the query of an URL is a list of bytes. -/
structure AppItem where
  name : String
  catalog : List UInt8 := []
  template : List UInt8 := []
  version : List UInt8 := []
  ns : String := ""
  state : String := ""
  answers : Option StringMap := none
  deriving DecidableEq

/-- The app of one item of the list, if its external ID can be parsed. -/
def appOf (texts : LibTexts) (itm : RancherAppItem) : Except Error AppItem :=
  match Url.parse itm.externalID with
  | none => .error (.new (texts.url itm.externalID))
  | some rawQuery =>
    let query := Url.parseQuery rawQuery
    .ok { name := itm.name, catalog := Url.get query "catalog", template := Url.get query "template",
          version := Url.get query "version", ns := itm.targetNamespace, state := itm.state,
          answers := itm.answers }

/-- The URL path of the apps of a project. -/
def appsPath (projectID : String) : String := "/v3/projects/" ++ projectID ++ "/apps"

def getRancherAppsFromProject (texts : LibTexts) (projectID : String) :
    AppCtl (Except Error (List AppItem)) := do
  match ← getList texts "application.rancherAppList" decodeRancherAppList (appsPath projectID) with
  | .error e => return .error e
  | .ok appsList => return appsList.mapM (appOf texts)

/-! ## Answers -/

/-- A map literal. -/
def mapOf (l : List (String × String)) : StringMap := l.foldr (fun kv m => m.insert kv.1 kv.2) ∅

def generateStorageClassConfiguration : Ctl (Except Error StringMap) := do
  if (← getenv "PLATFORM") = "openstack" then
    let values := mapOf
      [("automium.storageClass.provisioner", "kubernetes.io/cinder"),
       ("automium.storageClass.parameters.\"type\"", "Top")]
    if (← getenv "PLATFORM_REGION") ≠ "" then
      let region ← getenv "PLATFORM_REGION"
      return .ok (values.insert "automium.storageClass.parameters.\"availability\"" region)
    else return .ok values
  else return .error (.new "provider not supported")

/-- The answers of the monitoring app. -/
def monitoringDefValues (url username password infraName : String) : StringMap :=
  let alerting := "prometheus.serverFiles.prometheus\\.yml.alerting.alertmanagers[0]."
  mapOf
    [("prometheus.server.persistentVolume.storageClass", "automium-monitoring-sc"),
     ("grafana.persistence.storageClassName", "automium-monitoring-sc"),
     (alerting ++ "static_configs[0].targets[0]", url),
     (alerting ++ "basic_auth.username", username),
     (alerting ++ "basic_auth.password", password),
     (alerting ++ "scheme", "https"),
     ("prometheus.server.global.external_labels.infraName", infraName)]

def getDefaultAnswersForApp (spec : ApplicationSpec) : Ctl (Except Error StringMap) := do
  if spec.name = "automium-monitoring" then
    let url ← getenv "ALERTMANAGER_URL"
    let username ← getenv "ALERTMANAGER_USERNAME"
    let password ← getenv "ALERTMANAGER_PASSWORD"
    let infraName ← getenv "ALERTMANAGER_INFRANAME"
    match ← generateStorageClassConfiguration with
    | .error e => return .error e
    | .ok scMap => return .ok (scMap ∪ monitoringDefValues url username password infraName)
  else if spec.name = "automium-backup" then
    let backupEnv ← getenv "BACKUP_ENV"
    return .ok (mapOf
      [("clusterName", spec.cluster), ("backupEnv", backupEnv),
       ("backupRepository", "swift:automium:/cluster-backups/" ++ spec.cluster)])
  else return .ok ∅

/-- The defaults, with the parameters of the Application over them. -/
def buildAppAnswers (spec : ApplicationSpec) : Ctl (Except Error StringMap) := do
  match ← getDefaultAnswersForApp spec with
  | .error e => return .error e
  | .ok appAnswers => return .ok (spec.parameters.getD ∅ ∪ appAnswers)

/-- `reflect.DeepEqual` tells a nil map from an empty one; the desired map is never nil. -/
def answersEquals (deployedAppAnswers : Option StringMap) (spec : ApplicationSpec) :
    Ctl (Except Error Bool) := do
  match ← buildAppAnswers spec with
  | .error e => return .error e
  | .ok desiredAnswers => return .ok (deployedAppAnswers = some desiredAnswers)

/-! ## Deployment -/

def refreshURL (host : String) : String :=
  "https://" ++ host ++ "/v3/catalogs/automium?action=refresh"

def moveURL (host clusterID ns : String) : String :=
  "https://" ++ host ++ "/v3/cluster/" ++ clusterID ++ "/namespaces/" ++ ns ++ "?action=move"

def installURL (host projectID : String) : String :=
  "https://" ++ host ++ "/v3/projects/" ++ projectID ++ "/app"

def upgradeURL (host projectID appNamespace name : String) : String :=
  "https://" ++ host ++ "/v3/projects/" ++ projectID ++ "/apps/" ++ appNamespace ++ ":" ++ name ++
    "?action=upgrade"

def refreshAutomiumCatalog : AppCtl (Except Error Unit) := do
  let host ← (getenv "RANCHER_URL").inl
  match ← doRequest "POST" (refreshURL host) none with
  | .error e => return .error e
  | .ok resp =>
    if resp.statusCode ≠ 200 then
      return .error (.new ("cannot refresh catalog - error: " ++ resp.status ++ " (" ++
        toString resp.statusCode ++ ")"))
    else return .ok ()

def moveNamespaceInProject (clusterID projectID ns : String) : AppCtl (Except Error Unit) := do
  let host ← (getenv "RANCHER_URL").inl
  match ← doRequest "POST" (moveURL host clusterID ns) (some (.move projectID)) with
  | .error e => return .error e
  | .ok resp =>
    if resp.statusCode ≠ 200 then
      return .error (.new ("cannot move namespace to project - error: " ++ resp.status ++ " (" ++
        toString resp.statusCode ++ ") - " ++ resp.body))
    else return .ok ()

/-- The external ID of an app of the Automium catalog. -/
def externalIDOf (name version : String) : String :=
  "catalog://?catalog=automium&template=" ++ name ++ "&version=" ++ version

/-- The request content. -/
def installBodyOf (spec : ApplicationSpec) (projectID : String) (answers : StringMap) :
    RancherAppItem where
  name := spec.name
  projectID := projectID
  externalID := externalIDOf spec.name spec.version
  prune := false
  targetNamespace := spec.ns
  answers := some answers

/-- `strings.Split(s, ":")[1]`, which panics if there is no colon. -/
def afterColon (s : String) : Option String :=
  (s.toList.splitOn ':')[1]?.map String.ofList

/-- The request that installs or upgrades an app. -/
def postApp (deployURL : String) (installBody : RancherAppItem) : AppCtl (Except Error Unit) := do
  match ← doRequest "POST" deployURL (some (.app installBody)) with
  | .error e => return .error e
  | .ok resp =>
    if resp.statusCode ≠ 201 ∧ resp.statusCode ≠ 204 then
      return .error (.new ("cannot create monitoring app - error: " ++ resp.status ++ " (" ++
        toString resp.statusCode ++ ")"))
    else return .ok ()

/-- A new app: its namespace is moved into the project first. -/
def installApp (clusterID projectID : String) (spec : ApplicationSpec) (installBody : RancherAppItem) :
    AppCtl (Except Error Unit) := do
  match ← moveNamespaceInProject clusterID projectID spec.ns with
  | .error e => return .error e
  | .ok _ =>
    let host ← (getenv "RANCHER_URL").inl
    postApp (installURL host projectID) installBody

/-- An app that is there. -/
def upgradeApp (projectID : String) (spec : ApplicationSpec) (installBody : RancherAppItem) :
    AppCtl (Except Error Unit) := do
  let host ← (getenv "RANCHER_URL").inl
  match afterColon projectID with
  | none => .crash "runtime error: index out of range"
  | some appNamespace =>
    postApp (upgradeURL host projectID appNamespace spec.name) installBody

/-- The catalog is refreshed first; it does not matter if that fails. -/
def deployApplication (clusterID projectID : String) (spec : ApplicationSpec)
    (newInstallation : Bool) : AppCtl (Except Error Unit) := do
  let _ ← refreshAutomiumCatalog
  match ← (buildAppAnswers spec).inl with
  | .error e => return .error e
  | .ok appAnswers =>
    let installBody := installBodyOf spec projectID appAnswers
    if newInstallation then installApp clusterID projectID spec installBody
    else upgradeApp projectID spec installBody

end ReconcileApplication

end Automium
