import Automium.Api.Server
import Automium.Data.SliceSort
import Automium.Go.Marshal
import Automium.Go.Strings

/-!
# `pkg/utils/node.go`
-/

namespace Automium

open Data Effect

/-! ## `SortNodesByNumber` -/

/-- The state of the `less` closure is `globalErr`; an index out of range in it is a panic, with
its text. -/
abbrev LessM := StateT (Option Error) (Except String)

/-- `re.FindAllString(node.Spec.Hostname, -1)[0]`, which panics if there is no match. -/
def firstNumberOf (node : Node) : LessM String :=
  match Go.firstNumber node.spec.hostname with
  | none => throw "runtime error: index out of range"
  | some ds => pure ds

/-- `strconv.Atoi`, with the error kept in `globalErr`. -/
def atoiGlobal (ds : String) : LessM Int :=
  match Go.atoi ds with
  | (n, none) => pure n
  | (n, some text) => do
    set (some (Error.new text))
    pure n

/-- The `less` closure of `SortNodesByNumber`. It reads the first number of the hostname, which
is the last one only if the names before it have no digit. -/
def lessByNumber (a b : Node) : LessM Bool := do
  if (← getThe (Option Error)).isSome then
    return false
  let itm1 ← atoiGlobal (← firstNumberOf a)
  let itm2 ← atoiGlobal (← firstNumberOf b)
  return decide (itm1 < itm2)

/-- `SortNodesByNumber`: the sorted slice, or the error of the closure. -/
def SortNodesByNumber (sort : SliceSort) (nodes : List Node) : Ctl (Except Error (List Node)) :=
  match (sort.sortM lessByNumber nodes).run none with
  | .error msg => .crash msg
  | .ok (_, some e) => .ret (.error e)
  | .ok (sorted, none) => .ret (.ok sorted)

theorem atoiGlobal_run (ds : String) (globalErr : Option Error) :
    (atoiGlobal ds).run globalErr =
      pure ((Go.atoi ds).1, ((Go.atoi ds).2.map Error.new).or globalErr) := by
  unfold atoiGlobal
  rcases Go.atoi ds with ⟨n, _ | text⟩
  · rfl
  · rfl

theorem firstNumberOf_run {node : Node} {ds : String}
    (h : Go.firstNumber node.spec.hostname = some ds) (globalErr : Option Error) :
    (firstNumberOf node).run globalErr = pure (ds, globalErr) := by
  unfold firstNumberOf
  rw [h]
  rfl

/-- The `less` closure for two Nodes with numbers. -/
theorem lessByNumber_eq {a b : Node} {da db : String}
    (ha : Go.firstNumber a.spec.hostname = some da) (hb : Go.firstNumber b.spec.hostname = some db) :
    (lessByNumber a b).run none = pure (decide ((Go.atoi da).1 < (Go.atoi db).1),
      ((Go.atoi db).2.map Error.new).or ((Go.atoi da).2.map Error.new)) := by
  have hget : (getThe (Option Error) : LessM (Option Error)).run none = pure (none, none) := rfl
  unfold lessByNumber
  simp only [StateT.run_bind, hget, pure_bind, Option.isSome_none, Bool.false_eq_true, if_false,
    firstNumberOf_run ha, firstNumberOf_run hb, atoiGlobal_run, Option.or_none]
  rfl

/-- After an error nothing is compared. -/
theorem lessByNumber_some (a b : Node) (e : Error) :
    (lessByNumber a b).run (some e) = pure (false, some e) := rfl

/-- Once an error is recorded, it stays. -/
theorem lessByNumber_sticky : Decision.Sticky lessByNumber none := by
  intro a b t c ht
  cases t with
  | none => exact absurd rfl ht
  | some e => exact nofun

/-- How `SortNodesByNumber` ends: it panics, fails or returns the Nodes in another order. -/
theorem SortNodesByNumber_cases (sort : SliceSort) (nodes : List Node) :
    (∃ msg, SortNodesByNumber sort nodes = .crash msg) ∨
      (∃ e, SortNodesByNumber sort nodes = .ret (.error e)) ∨
      ∃ sorted, SortNodesByNumber sort nodes = .ret (.ok sorted) ∧ sorted.Perm nodes := by
  unfold SortNodesByNumber
  split
  · exact .inl ⟨_, rfl⟩
  · exact .inr (.inl ⟨_, rfl⟩)
  · rename_i sorted hs
    exact .inr (.inr ⟨sorted, rfl, sort.sortM_perm lessByNumber_sticky hs⟩)

theorem SortNodesByNumber_perm {sort : SliceSort} {nodes sorted : List Node}
    (h : SortNodesByNumber sort nodes = .ret (.ok sorted)) : sorted.Perm nodes := by
  rcases SortNodesByNumber_cases sort nodes with ⟨msg, he⟩ | ⟨e, he⟩ | ⟨l, he, hp⟩
  · exact nomatch he.symm.trans h
  · exact nomatch he.symm.trans h
  · cases he.symm.trans h
    exact hp

/-! ## Predicates on nodes -/

/-- `EqNodeImage`. -/
def EqNodeImage (node : Node) (image : String) : Bool := node.status.nodeProperties.image = image

/-- `EqNodeFlavor`. -/
def EqNodeFlavor (node : Node) (flavor : String) : Bool :=
  node.status.nodeProperties.flavor = flavor

/-- The ID that the node controller records when Consul has no machine of the hostname. -/
def nonExistentMachine : String := "non-existent-machine"

/-- The ID that the node controller records when it cannot make a Consul client. -/
def consulConnectionError : String := "consul-connection-error"

/-- `NodeExists`. -/
def NodeExists (node : Node) : Bool :=
  !(node.status.nodeProperties.id = "" || node.status.nodeProperties.id = nonExistentMachine)

/-- `NodeIsHealthy`. -/
def NodeIsHealthy (node : Node) : Bool :=
  NodeExists node && node.status.nodeHealthChecks.all (fun svc => svc.status = "passing") &&
    !(node.status.nodeProperties.image = "" || node.status.nodeProperties.flavor = "")

/-- `GetNodesCount`. -/
def GetNodesCount (nodes : List Node) : Int :=
  (nodes.filter fun node => node.status.nodeProperties.id ≠ nonExistentMachine).length

/-- The zero value of a Node. -/
def zeroNode : Node where
  metadata := { name := "", ns := "" }
  spec := { hostname := "" }
  status := {}

/-- The node that the others are compared with: the first healthy one. -/
def healthyNodeOf (nodes : List Node) : Node := (nodes.find? NodeIsHealthy).getD zeroNode

/-- A node that makes the list inconsistent with `healthyNode`. -/
def mismatches (healthyNode node : Node) : Bool :=
  node.spec.hostname ≠ healthyNode.spec.hostname && NodeExists node &&
    (!EqNodeFlavor healthyNode node.status.nodeProperties.flavor ||
      !EqNodeImage healthyNode node.status.nodeProperties.image)

/-- `NodesAreConsistent`. -/
def NodesAreConsistent (nodes : List Node) : Bool × Node :=
  let healthyNode := healthyNodeOf nodes
  if healthyNode.status.nodeProperties.node = "" then (true, healthyNode)
  else (!nodes.any (mismatches healthyNode), healthyNode)

/-! ## `CompareStatuses` -/

/-- A status in memory. -/
abbrev LocalStatus := NodeStatusOf Go.Text

def NodeStatusOf.map {α β : Type} (f : α → β) (status : NodeStatusOf α) : NodeStatusOf β where
  nodeProperties := status.nodeProperties
  nodeHealthChecks := status.nodeHealthChecks.map fun hc => { hc with output := f hc.output }

/-- A stored status as it is read. -/
def loaded (status : NodeStatus) : LocalStatus := status.map Go.Text.ofString

/-- A status as it is stored when it is sent. -/
def sent (status : LocalStatus) : NodeStatus := status.map Go.Text.wire

/-- The members of `NodePropertiesStatusSpec`. -/
def propertiesFields (p : NodeProperties) : List (String × Go.Text) :=
  [("id", .ofString p.id), ("node", .ofString p.node), ("address", .ofString p.address),
    ("publicAddress", .ofString p.publicAddress), ("flavor", .ofString p.flavor),
    ("image", .ofString p.image)]

/-- The members of `NodeHealthCheckStatusSpec`. -/
def healthCheckFields (hc : NodeHealthCheckOf Go.Text) : List (String × Go.Text) :=
  [("checkID", .ofString hc.checkID), ("name", .ofString hc.name), ("status", .ofString hc.status),
    ("output", hc.output), ("serviceID", .ofString hc.serviceID),
    ("serviceName", .ofString hc.serviceName)]

/-- `json.Marshal` of a status. The health checks have the tag `omitempty`; for the properties, a
struct, it has no effect. -/
def marshalStatus (status : LocalStatus) : List Char :=
  '{' :: (Go.member "nodeProperties" (Go.stringStruct (propertiesFields status.nodeProperties)) ++
    ((if status.nodeHealthChecks = [] then [] else
      ',' :: Go.member "nodeHealthChecks"
        (Go.array (status.nodeHealthChecks.map fun hc => Go.stringStruct (healthCheckFields hc)))) ++
      ['}']))

/-- `CompareStatuses`. -/
def CompareStatuses (old new : LocalStatus) : Bool := marshalStatus old = marshalStatus new

/-- Valid UTF-8 is read back as it was. -/
@[simp] theorem sent_loaded (status : NodeStatus) : sent (loaded status) = status := by
  obtain ⟨properties, checks⟩ := status
  simp [sent, loaded, NodeStatusOf.map, Function.comp_def]

/-- What is stored depends on the characters only. -/
theorem sent_eq (status : LocalStatus) :
    sent status = (status.map Go.Text.runes).map Go.Text.readBack := by
  simp [sent, NodeStatusOf.map, Function.comp_def, Go.Text.wire]

theorem loaded_sent_iff {status : LocalStatus} :
    loaded (sent status) = status ↔ ∀ hc ∈ status.nodeHealthChecks, hc.output.Valid := by
  obtain ⟨properties, checks⟩ := status
  have hmap : loaded (sent ⟨properties, checks⟩) =
      ⟨properties, checks.map fun hc => { hc with output := .ofString hc.output.wire }⟩ := by
    simp [sent, loaded, NodeStatusOf.map, Function.comp_def]
  rw [hmap, NodeStatusOf.mk.injEq, and_iff_right rfl]
  nth_rewrite 2 [← List.map_id checks]
  rw [List.map_inj_left]
  refine forall₂_congr fun hc _ => ?_
  rw [Go.Text.valid_iff]
  exact ⟨fun h => congrArg NodeHealthCheckOf.output h, fun h => by rw [h]; rfl⟩

/-- The JSON text of the properties tells them. -/
theorem properties_delimited :
    Delimited (fun p : NodeProperties => Go.stringStruct (propertiesFields p)) id := by
  refine (Go.stringStruct_delimited.comap propertiesFields).mono fun p q h => ?_
  simp only [propertiesFields, List.map_cons, List.map_nil, List.cons.injEq, Prod.mk.injEq,
    Go.Text.runes_ofString_inj, true_and, and_true] at h
  obtain ⟨h₁, h₂, h₃, h₄, h₅, h₆⟩ := h
  cases p
  cases q
  simp_all

/-- The JSON text of a health check tells it, but for the bytes that were cut. -/
theorem healthCheck_delimited :
    Delimited (fun hc : NodeHealthCheckOf Go.Text => Go.stringStruct (healthCheckFields hc))
      fun hc => ({ hc with output := hc.output.runes } : NodeHealthCheckOf (List (Option Char))) := by
  refine (Go.stringStruct_delimited.comap healthCheckFields).mono fun p q h => ?_
  simp only [healthCheckFields, List.map_cons, List.map_nil, List.cons.injEq, Prod.mk.injEq,
    Go.Text.runes_ofString_inj, true_and, and_true] at h
  obtain ⟨h₁, h₂, h₃, h₄, h₅, h₆⟩ := h
  rw [NodeHealthCheckOf.mk.injEq]
  exact ⟨h₁, h₂, h₃, h₄, h₅, h₆⟩

/-- Statuses with one JSON text have the same characters. -/
theorem map_runes_of_marshalStatus {old new : LocalStatus}
    (h : marshalStatus old = marshalStatus new) :
    old.map Go.Text.runes = new.map Go.Text.runes := by
  have hprops : Delimited (fun p : NodeProperties =>
      Go.member "nodeProperties" (Go.stringStruct (propertiesFields p))) id :=
    (properties_delimited.lit [':']).lit _
  have hchecks : Delimited (fun l : List (NodeHealthCheckOf Go.Text) =>
      Go.member "nodeHealthChecks" (Go.array (l.map fun hc => Go.stringStruct (healthCheckFields hc)))) _ :=
    ((Go.array_delimited healthCheck_delimited fun hc => ⟨_, rfl⟩).lit [':']).lit _
  obtain ⟨hp, hrest⟩ := hprops _ _ _ _ (List.cons.inj h).2
  suffices hc : old.nodeHealthChecks.map _ = new.nodeHealthChecks.map _ by
    unfold NodeStatusOf.map
    rw [NodeStatusOf.mk.injEq]
    exact ⟨hp, hc⟩
  by_cases hold : old.nodeHealthChecks = [] <;> by_cases hnew : new.nodeHealthChecks = []
  · rw [hold, hnew]
  · rw [if_pos hold, if_neg hnew] at hrest
    exact absurd (List.cons.inj hrest).1 (by decide)
  · rw [if_neg hold, if_pos hnew] at hrest
    exact absurd (List.cons.inj hrest).1 (by decide)
  · rw [if_neg hold, if_neg hnew] at hrest
    exact (hchecks _ _ _ _ (List.cons.inj hrest).2).1

/-- A stored status is compared as equal only with itself. -/
theorem CompareStatuses_loaded {old : NodeStatus} {new : LocalStatus} :
    CompareStatuses (loaded old) new = true ↔ loaded old = new := by
  unfold CompareStatuses
  rw [decide_eq_true_iff]
  refine ⟨fun h => ?_, congrArg marshalStatus⟩
  have hrunes := map_runes_of_marshalStatus h
  have hvalid : ∀ hc ∈ new.nodeHealthChecks, hc.output.Valid := by
    intro hc hm
    have hmem : ({ hc with output := hc.output.runes } : NodeHealthCheckOf (List (Option Char))) ∈
        ((loaded old).map Go.Text.runes).nodeHealthChecks := hrunes ▸ List.mem_map_of_mem hm
    obtain ⟨_, ho, hsame⟩ := List.mem_map.mp hmem
    obtain ⟨stored, -, rfl⟩ := List.mem_map.mp ho
    have houtput := congrArg NodeHealthCheckOf.output hsame
    rw [Go.Text.runes_eq_ofString.mp houtput.symm]
    exact Go.Text.valid_ofString _
  calc loaded old = loaded (sent (loaded old)) := by rw [sent_loaded]
    _ = loaded (sent new) := by rw [sent_eq, sent_eq, hrunes]
    _ = new := loaded_sent_iff.mpr hvalid

/-- A status whose strings are valid UTF-8 is compared as equal only with itself. -/
theorem CompareStatuses_valid {old new : LocalStatus}
    (hold : ∀ hc ∈ old.nodeHealthChecks, hc.output.Valid) :
    CompareStatuses old new = true ↔ old = new := by
  have hloaded : CompareStatuses (loaded (sent old)) new = true ↔ loaded (sent old) = new :=
    CompareStatuses_loaded
  rwa [loaded_sent_iff.mpr hold] at hloaded

/-! ### A nil slice

In a `LocalStatus` a nil slice and an empty one are the same value. In a `StatusValue` they are
not, but `json.Marshal` leaves out both, and so it does not tell them apart
(`marshalValue_eq`). -/

/-- A value of type `NodeStatus`, with a slice that may be nil. -/
structure StatusValue where
  nodeProperties : NodeProperties := {}
  nodeHealthChecks : Option (List (NodeHealthCheckOf Go.Text)) := none

namespace StatusValue

/-- The elements of the slice. -/
def checks (status : StatusValue) : List (NodeHealthCheckOf Go.Text) :=
  status.nodeHealthChecks.getD []

def toLocal (status : StatusValue) : LocalStatus := ⟨status.nodeProperties, status.checks⟩

end StatusValue

/-- `json.Marshal` of a value: `omitempty` leaves out a slice of length 0. -/
def marshalValue (status : StatusValue) : List Char :=
  let checks := status.nodeHealthChecks.map
    fun items => items.map fun hc => Go.stringStruct (healthCheckFields hc)
  Go.object (("nodeProperties", Go.stringStruct (propertiesFields status.nodeProperties)) ::
    if status.checks.length = 0 then [] else [("nodeHealthChecks", Go.slice checks)])

/-- `CompareStatuses` of two values. -/
def CompareStatusValues (old new : StatusValue) : Bool := marshalValue old = marshalValue new

/-- A nil slice has the text of an empty one. -/
theorem marshalValue_eq (status : StatusValue) :
    marshalValue status = marshalStatus status.toLocal := by
  obtain ⟨properties, checks⟩ := status
  unfold marshalValue marshalStatus
  dsimp only
  rw [Go.object_cons]
  cases checks with
  | none => rfl
  | some items =>
    cases items with
    | nil => rfl
    | cons hc items => exact congrArg _ (congrArg _ (congrArg (· ++ ['}']) (List.append_nil _)))

/-- So the two models of `CompareStatuses` agree. -/
theorem CompareStatusValues_eq (old new : StatusValue) :
    CompareStatusValues old new = CompareStatuses old.toLocal new.toLocal := by
  unfold CompareStatusValues CompareStatuses
  rw [marshalValue_eq, marshalValue_eq]

/-- `CompareStatuses` decides if two values have the same properties and the same health checks. One
of them may have any strings. -/
theorem CompareStatusValues_iff {old new : StatusValue}
    (hold : ∀ hc ∈ old.checks, hc.output.Valid) :
    CompareStatusValues old new = true ↔
      old.nodeProperties = new.nodeProperties ∧ old.checks = new.checks := by
  rw [CompareStatusValues_eq, CompareStatuses_valid hold]
  exact iff_of_eq (NodeStatusOf.mk.injEq ..)

/-- The status of a machine with one health check. -/
def checkedValue (output : String) : StatusValue where
  nodeHealthChecks := some [⟨"c1", "disk", "passing", .ofString output, "", ""⟩]

/-- A character and the text of its escape are told apart, a nil slice and an empty one are not. -/
theorem CompareStatusValues_escape :
    CompareStatusValues (checkedValue "<") (checkedValue "\\u003c") = false ∧
      CompareStatusValues {} { nodeHealthChecks := some [] } = true := by
  have hvalid : ∀ hc ∈ (checkedValue "<").checks, hc.output.Valid :=
    List.forall_mem_singleton.mpr (Go.Text.valid_ofString _)
  constructor
  · rw [Bool.eq_false_iff, ne_eq, CompareStatusValues_iff hvalid]
    rintro ⟨-, h⟩
    exact absurd h (by decide)
  · exact (CompareStatusValues_iff (List.forall_mem_nil _)).mpr ⟨rfl, rfl⟩

end Automium
