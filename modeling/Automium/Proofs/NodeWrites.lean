import Automium.Proofs.NodeStatus

/-!
# A Node that is reconciled again

The next reconcile, with the same answers of Consul, compares the status that was stored with the
one that it computes. They are the same unless the output of a health check was cut inside a
character: the bytes that are left of it are stored as U+FFFD, and the JSON text of the computed
status has them as escapes (`no_write_again_iff`).
-/

namespace Automium

open Data Effect

namespace ReconcileNode

/-- The output is short, or its first 60 bytes end with a character. -/
def CutWhole (output : String) : Prop :=
  output.utf8ByteSize < 64 ∨ ∃ s₁ s₂, output = s₁ ++ s₂ ∧ s₁.utf8ByteSize = 60

/-- Consul has this machine for the Node, with these health checks. -/
structure Found (view : ConsulView) (inst : Node) (machine : ConsulNode) (nodeFIP : String)
    (nodeHC : List HealthCheck) : Prop where
  client : ∃ u, view.client = .ok u
  catalog : view.catalog inst.spec.hostname = .ok (some ⟨some machine⟩)
  health : view.health inst.spec.hostname = .ok nodeHC
  external : nodeFIPOf (view.catalog ("external" ++ inst.spec.hostname)) = .ok nodeFIP

section

variable {view : ConsulView} {request : Key} {inst inst' : Node} {status : LocalStatus} {c : Cluster}
  {machine : ConsulNode} {nodeFIP : String} {nodeHC : List HealthCheck}

theorem Found.statusOf (h : Found view inst machine nodeFIP nodeHC) :
    statusOf view inst = some (machineStatus inst.status machine nodeFIP nodeHC) := by
  rw [statusOf_registered h.client h.catalog h.health, h.external]

theorem hcOutput_valid_iff (output : String) : (hcOutput output).Valid ↔ CutWhole output := by
  unfold hcOutput CutWhole
  split
  · rename_i hlong
    rw [Go.Text.valid_append, and_iff_left (Go.Text.valid_ofString _), Go.takeBytes_valid_iff,
      or_iff_right (by omega), or_iff_right (by omega)]
  · rename_i hshort
    exact iff_of_true (Go.Text.valid_ofString _) (.inl (by omega))

theorem not_cutWhole {output : String} {b : UInt8} (hlong : 65 ≤ output.utf8ByteSize)
    (hb : Go.Piece.byte b ∈ Go.takeBytes 60 output.toList) : ¬ CutWhole output := by
  rw [← hcOutput_valid_iff, hcOutput, if_pos (by omega), Go.Text.valid_append]
  exact fun h => h.1 _ hb rfl

/-- The status of a machine, computed again after it was stored. -/
theorem machineStatus_again {old : NodeStatus} :
    let stored := sent (machineStatus old machine nodeFIP nodeHC)
    loaded stored = machineStatus stored machine nodeFIP nodeHC ↔
      ∀ hc ∈ nodeHC, CutWhole hc.output := by
  intro stored
  cases nodeHC with
  | nil => exact iff_of_true rfl nofun
  | cons hc rest =>
    have hsame : machineStatus stored machine nodeFIP (hc :: rest) =
        machineStatus old machine nodeFIP (hc :: rest) := rfl
    rw [hsame, loaded_sent_iff]
    refine List.forall_mem_map.trans (forall₂_congr fun hc _ => ?_)
    exact hcOutput_valid_iff hc.output

/-- A machine is found for a Node by its hostname. -/
theorem Found.congr (h : Found view inst machine nodeFIP nodeHC) (hspec : inst'.spec = inst.spec) :
    Found view inst' machine nodeFIP nodeHC := by
  obtain ⟨hclient, hcatalog, hhealth, hexternal⟩ := h
  exact ⟨hclient, hspec ▸ hcatalog, hspec ▸ hhealth, hspec ▸ hexternal⟩

/-- A status is computed for a machine, or it is a placeholder that depends on the hostname only. -/
theorem statusOf_cases (hs : statusOf view inst = some status) :
    (∃ machine nodeFIP nodeHC, Found view inst machine nodeFIP nodeHC) ∨
      (∀ machine nodeFIP nodeHC, ¬ Found view inst machine nodeFIP nodeHC) ∧
        (∃ id node, status = placeholder id node) ∧
        ∀ inst' : Node, inst'.spec = inst.spec → statusOf view inst' = some status := by
  unfold statusOf at hs ⊢
  cases hclient : view.client with
  | error e =>
    rw [hclient] at hs
    cases hs
    refine .inr ⟨fun _ _ _ hfound => ?_, ⟨_, _, rfl⟩, fun _ _ => rfl⟩
    obtain ⟨_, hu⟩ := hfound.client
    exact nomatch hclient.symm.trans hu
  | ok u =>
    rw [hclient] at hs
    dsimp only at hs ⊢
    cases hcat : view.catalog inst.spec.hostname with
    | error e => rw [hcat] at hs; cases hs
    | ok nodeInfo =>
      rw [hcat] at hs
      cases nodeInfo with
      | none =>
        cases hs
        refine .inr ⟨fun _ _ _ hfound => ?_, ⟨_, _, rfl⟩, fun _ hspec => ?_⟩
        · exact nomatch hcat.symm.trans hfound.catalog
        · rw [hspec, hcat]
      | some nodeInfo =>
        dsimp only at hs
        cases hhealth : view.health inst.spec.hostname with
        | error e => rw [hhealth] at hs; cases hs
        | ok nodeHC =>
          rw [hhealth] at hs
          dsimp only at hs
          cases hfip : nodeFIPOf (view.catalog ("external" ++ inst.spec.hostname)) with
          | error msg => rw [hfip] at hs; cases hs
          | ok nodeFIP =>
            rw [hfip] at hs
            obtain ⟨node⟩ := nodeInfo
            cases node with
            | none => cases hs
            | some machine => exact .inl ⟨machine, nodeFIP, nodeHC, ⟨u, hclient⟩, hcat, hhealth, hfip⟩

variable (inst') in
/-- Which status is computed after the first one was stored, and whether it is the same. -/
theorem statusOf_again (hs : statusOf view inst = some status) (hspec : inst'.spec = inst.spec)
    (hstatus : inst'.status = sent status) :
    ∃ status', statusOf view inst' = some status' ∧
      (loaded (sent status) = status' ↔ ∀ machine nodeFIP nodeHC,
        Found view inst machine nodeFIP nodeHC → ∀ hc ∈ nodeHC, CutWhole hc.output) := by
  rcases statusOf_cases hs with ⟨machine, nodeFIP, nodeHC, h⟩ | ⟨hnone, ⟨id, node, rfl⟩, hsame⟩
  · cases hs.symm.trans h.statusOf
    refine ⟨_, (h.congr hspec).statusOf, ?_⟩
    rw [hstatus]
    refine machineStatus_again.trans ⟨?_, fun hwhole => hwhole machine nodeFIP nodeHC h⟩
    intro hwhole machine' nodeFIP' nodeHC' h'
    cases h.health.symm.trans h'.health
    exact hwhole
  · exact ⟨_, hsame inst' hspec, iff_of_true rfl fun _ _ _ h => (hnone _ _ _ h).elim⟩

variable (view) in
/-- The reconcile of a Node that is not stored does nothing. -/
theorem reconcile_absent (hf : c.find? .node request = none) :
    (run view.serve (Reconcile request) c).final = c ∧
      NoStatusWrite (run view.serve (Reconcile request) c).trace := by
  have hget : view.serve c (.inl (.get .node request)) =
    (.error (.newNotFound .node request.name), c) := serve_get_none hf
  unfold Reconcile
  rw [get_inl_bind, run_call, hget]
  exact ⟨rfl, List.forall_mem_singleton.mpr id⟩

/-- The reconcile of a Node that is to be deleted. -/
theorem reconcile_deletable (hf : c.find? .node request = some inst) (hd : deletable inst = true) :
    (run view.serve (Reconcile request) c).final.find? .node request = none ∧
      NoStatusWrite (run view.serve (Reconcile request) c).trace := by
  have hget : view.serve c (.inl (.get .node request)) = (.ok inst, c) := serve_get hf
  have hdelete : view.serve c (.inl (.delete .node inst.key)) =
      (.ok (), c.setTbl .node ((c.tbl .node).erase request)) := by
    rw [find?_key hf]
    exact serve_delete hf
  unfold Reconcile
  rw [get_inl_bind, run_call, hget]
  dsimp only
  rw [if_pos hd, delete_inl_bind, run_call, hdelete]
  refine ⟨?_, List.forall_mem_cons.mpr ⟨id, List.forall_mem_singleton.mpr id⟩⟩
  show (c.setTbl _ _).find? _ _ = _
  rw [Cluster.find?_setTbl, Table.find?_erase, if_pos rfl]

/-- The Node is to be deleted once this status is stored. -/
def DeletedNext (inst : Node) (status : LocalStatus) : Prop :=
  inst.spec.deletionDate ≠ "" ∧ status.nodeProperties.id = nonExistentMachine

theorem deletable_withStatus (v : Nat) :
    deletable (withStatus inst (sent status) v) = true ↔ DeletedNext inst status := by
  unfold deletable DeletedNext
  rw [Bool.and_eq_true, decide_eq_true_iff, decide_eq_true_iff]
  exact Iff.rfl

/-- The second reconcile, after a status was stored. -/
theorem second_reconcile (hf : c.find? .node request = some inst) (hd : deletable inst = false)
    (hs : statusOf view inst = some status) :
    NoStatusWrite (run view.serve (Reconcile request)
        (run view.serve (Reconcile request) c).final).trace ↔
      (¬ DeletedNext inst status → ∀ machine nodeFIP nodeHC,
        Found view inst machine nodeFIP nodeHC → ∀ hc ∈ nodeHC, CutWhole hc.output) := by
  obtain ⟨⟨v, hv⟩, -⟩ := hs ▸ reconcile_records view hf hd
  obtain ⟨status', hs', hiff⟩ := statusOf_again (withStatus inst (sent status) v) hs rfl rfl
  by_cases hnext : DeletedNext inst status
  · have hdel := (deletable_withStatus v).mpr hnext
    exact iff_of_true (reconcile_deletable hv hdel).2 fun h => absurd hnext h
  · have hlive := (Bool.not_eq_true _).mp (mt (deletable_withStatus v).mp hnext)
    obtain ⟨-, hwrites⟩ := hs' ▸ reconcile_records view hv hlive
    rw [hwrites, forall_prop_of_true hnext]
    exact hiff

/-- The next reconcile, with the same answers, writes no status exactly if no output is cut inside a
character. (A Node that is marked, and whose machine has the ID that stands for none, is deleted
then.) -/
theorem no_write_again_iff (view : ConsulView) (request : Key) (c : Cluster) :
    NoStatusWrite (run view.serve (Reconcile request)
        (run view.serve (Reconcile request) c).final).trace ↔
      ∀ inst machine nodeFIP nodeHC, c.find? .node request = some inst →
        deletable inst = false → Found view inst machine nodeFIP nodeHC →
        inst.spec.deletionDate = "" ∨ machine.id ≠ nonExistentMachine →
        ∀ hc ∈ nodeHC, CutWhole hc.output := by
  cases hf : c.find? .node request with
  | none =>
    have hidle := reconcile_absent view hf
    rw [hidle.1]
    exact iff_of_true hidle.2 fun _ _ _ _ h => nomatch h
  | some inst =>
    cases hd : deletable inst with
    | true =>
      refine iff_of_true (reconcile_absent view (reconcile_deletable hf hd).1).2 ?_
      rintro _ _ _ _ ⟨⟩ hlive
      exact nomatch hd.symm.trans hlive
    | false =>
      cases hs : statusOf view inst with
      | none =>
        have hidle := hs ▸ reconcile_records view hf hd
        rw [hidle.1]
        refine iff_of_true hidle.2 ?_
        rintro _ _ _ _ ⟨⟩ - hfound
        exact nomatch hs.symm.trans hfound.statusOf
      | some status =>
        rw [second_reconcile hf hd hs]
        constructor
        · rintro h _ machine nodeFIP nodeHC ⟨⟩ - hfound hid
          cases hs.symm.trans hfound.statusOf
          exact h (fun hnext => hid.elim hnext.1 fun hne => hne hnext.2) machine nodeFIP nodeHC hfound
        · intro h hnext machine nodeFIP nodeHC hfound
          cases hs.symm.trans hfound.statusOf
          refine h inst machine nodeFIP nodeHC rfl hd hfound ?_
          exact (not_and_or.mp hnext).imp_left Decidable.not_not.mp

end

/-! ### A character that is cut -/

/-- Letters of which one has the 60th byte in its middle. -/
def longChars : List Char := List.replicate 59 'a' ++ List.replicate 3 'é'

def longOutput : String := String.ofList longChars

/-- Consul with a check that has this output. -/
def cutView : ConsulView := { webView with
  health := fun _ => .ok [{ checkID := "http", name := "http", status := "passing",
                            output := longOutput, serviceID := "", serviceName := "" }] }

theorem longOutput_cut : ¬ CutWhole longOutput := by
  have hlen : String.utf8Len longChars = 65 := by decide +kernel
  have hbyte : Go.Piece.byte 0xC3 ∈ Go.takeBytes 60 longChars := by decide +kernel
  have hchars : longOutput.toList = longChars := String.toList_ofList
  exact not_cutWhole ((String.utf8ByteSize_ofList longChars).trans hlen).ge (hchars ▸ hbyte)

/-- The status is written again by the next reconcile, and by every one after it. -/
theorem status_written_again :
    ¬ ∀ (view : ConsulView) (request : Key) (c : Cluster), (∃ u, view.client = .ok u) →
      (∀ hostname, ∃ r, view.catalog hostname = .ok r) →
      (∀ hostname, ∃ r, view.health hostname = .ok r) →
      NoStatusWrite (run view.serve (Reconcile request)
        (run view.serve (Reconcile request) c).final).trace := by
  intro h
  have hquiet := h cutView webNode.key webNodeStore ⟨(), rfl⟩ (fun _ => ⟨_, rfl⟩) fun _ => ⟨_, rfl⟩
  have hfound : Found cutView webNode _ _ _ := ⟨⟨(), rfl⟩, rfl, rfl, rfl⟩
  have hwhole := (second_reconcile webNodeStore_find? rfl hfound.statusOf).mp hquiet
    (fun hnext => hnext.1 rfl) _ _ _ hfound _ List.mem_cons_self
  exact longOutput_cut hwhole

end ReconcileNode

end Automium
