import Automium.Api.Types

/-!
# `pkg/utils/module.go`
-/

namespace Automium

/-- `EqualEnvVars`: the lists have one length, and no variable of the first has another value
under the same name in the second. -/
def EqualEnvVars (oldVars newVars : List EnvVar) : Bool :=
  if oldVars.length ≠ newVars.length then false
  else oldVars.all fun oldVar => newVars.all fun newVar =>
    !(oldVar.name = newVar.name && oldVar.value ≠ newVar.value)

/-- `IsModuleDifferent`. It does not compare `Spec.Source`. -/
def IsModuleDifferent (actual new : Module) : Bool :=
  !(actual.spec.flavor = new.spec.flavor && actual.spec.image = new.spec.image &&
    actual.spec.replicas = new.spec.replicas && EqualEnvVars actual.spec.env new.spec.env)

/-- What `EqualEnvVars` decides. -/
theorem EqualEnvVars_iff {oldVars newVars : List EnvVar} :
    EqualEnvVars oldVars newVars = true ↔
      oldVars.length = newVars.length ∧
        ∀ a ∈ oldVars, ∀ b ∈ newVars, a.name = b.name → a.value = b.value := by
  unfold EqualEnvVars
  split
  · rename_i h; simp [h]
  · rename_i h
    simp only [ne_eq, Decidable.not_not] at h
    simp [h, ← imp_iff_not_or]

/-- What `IsModuleDifferent` overlooks: it returns `false` exactly on these pairs. -/
theorem IsModuleDifferent_eq_false_iff {actual new : Module} :
    IsModuleDifferent actual new = false ↔
      actual.spec.flavor = new.spec.flavor ∧ actual.spec.image = new.spec.image ∧
        actual.spec.replicas = new.spec.replicas ∧
          EqualEnvVars actual.spec.env new.spec.env = true := by
  simp [IsModuleDifferent, and_assoc]

end Automium
