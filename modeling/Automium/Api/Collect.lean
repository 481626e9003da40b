import Automium.Api.World

/-!
# Garbage collection

The garbage collector removes an object whose controller owner is gone: no object of the owner's
kind, namespace and name is stored, or one with another uid. `Collected c key o` says that it
removes `o` from the store `c` once the Service of the key is deleted, at once or after the owners
of `o`.
-/

namespace Automium

open Effect Data

/-- The object has a controller owner of this kind and name. -/
def Owned (kind name : String) (metadata : ObjectMeta) : Prop :=
  ∃ ref ∈ metadata.ownerReferences, ref.controller = true ∧ ref.kind = kind ∧ ref.name = name

/-- What the garbage collector removes (module doc). -/
inductive Collected (c : Cluster) (key : Key) : (k : Kind) → k.Obj → Prop
  /-- The Service of the key is the owner. -/
  | service {k : Kind} {o : k.Obj} : Owned Kind.service.kindName key.name o.metadata →
      o.metadata.ns = key.ns → Collected c key k o
  /-- The owner is gone. -/
  | gone {k k' : Kind} {o : k.Obj} {ref : OwnerReference} : ref ∈ o.metadata.ownerReferences →
      ref.controller = true → ref.kind = k'.kindName →
      (∀ owner : k'.Obj, c.find? k' ⟨o.metadata.ns, ref.name⟩ = some owner →
        owner.metadata.uid ≠ ref.uid) → Collected c key k o
  /-- The owner is removed. -/
  | owner {k k' : Kind} {o : k.Obj} {owner : k'.Obj} {ref : OwnerReference} :
      ref ∈ o.metadata.ownerReferences → ref.controller = true → ref.kind = k'.kindName →
      c.find? k' ⟨o.metadata.ns, ref.name⟩ = some owner → owner.metadata.uid = ref.uid →
      Collected c key k' owner → Collected c key k o

theorem owned_controllerReference (kind : String) (owner : ObjectMeta) {metadata : ObjectMeta}
    (h : metadata.ownerReferences = [⟨kind, owner.name, owner.uid, true⟩]) :
    Owned kind owner.name metadata :=
  ⟨_, h ▸ List.mem_singleton.mpr rfl, rfl, rfl, rfl⟩

section

variable {c : Cluster} {key : Key} {k k' : Kind} {o : k.Obj}

/-- An object is removed if its owner is removed or gone. -/
theorem collected_of_owned {name : String} (h : Owned k'.kindName name o.metadata)
    (howner : ∀ owner : k'.Obj, c.find? k' ⟨o.metadata.ns, name⟩ = some owner →
      Collected c key k' owner) : Collected c key k o := by
  obtain ⟨ref, hm, hc, hk, rfl⟩ := h
  cases hf : c.find? k' ⟨o.metadata.ns, ref.name⟩ with
  | none => exact .gone hm hc hk fun owner h => by rw [hf] at h; cases h
  | some owner =>
    by_cases hu : owner.metadata.uid = ref.uid
    · exact .owner hm hc hk hf hu (howner owner hf)
    · refine .gone hm hc hk fun owner' h => ?_
      rw [hf] at h
      cases h
      exact hu

/-- An object without owner references stays. -/
theorem Collected.references_ne_nil (h : Collected c key k o) :
    o.metadata.ownerReferences ≠ [] := by
  cases h with
  | service h => obtain ⟨ref, hm, -⟩ := h; exact List.ne_nil_of_mem hm
  | gone hm => exact List.ne_nil_of_mem hm
  | owner hm => exact List.ne_nil_of_mem hm

end

end Automium
