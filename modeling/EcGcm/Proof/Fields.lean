import EcGcm.Proof.Queues

/-!
# One field of the newest instances

The quota, or the memory limit, of whoever an id stands for now, and its sum over all instances:
what is left alone by a step that does not write the field, and what one write does.
-/

set_option autoImplicit false

namespace EcGcm.ElasticContainer

variable {g : SubContainer → UInt64} {ec ec' : ElasticContainer} {id : ContainerId}
  {sc : SubContainer} {f : SubContainer → SubContainer}

/-- The field of the newest instance. -/
def field? (g : SubContainer → UInt64) (ec : ElasticContainer) (id : ContainerId) :
    Option UInt64 :=
  (ec.back? id).map g

/-- The field of all instances together. -/
def fieldSum (g : SubContainer → UInt64) (ec : ElasticContainer) : ℕ :=
  ec.sumOver fun sc => (g sc).toNat

/-- The field has not been written. -/
structure SameField (g : SubContainer → UInt64) (ec ec' : ElasticContainer) : Prop where
  sum : ec'.fieldSum g = ec.fieldSum g
  field? : ∀ id, ec'.field? g id = ec.field? g id

/-- It has been written at one id. -/
structure WroteField (g : SubContainer → UInt64) (ec : ElasticContainer) (id : ContainerId)
    (x x' : UInt64) (ec' : ElasticContainer) : Prop where
  sum : ec'.fieldSum g + x.toNat = ec.fieldSum g + x'.toNat
  field? : ec'.field? g id = some x'
  others : ∀ id', id' ≠ id → ec'.field? g id' = ec.field? g id'

theorem field?_of_back? (hb : ec.back? id = some sc) : ec.field? g id = some (g sc) := by
  unfold field?
  rw [hb]
  rfl

theorem sameField_of_subcontainers (h : ec'.subcontainers = ec.subcontainers) :
    SameField g ec ec' where
  sum := by
    unfold fieldSum sumOver
    rw [h]
  field? id := by
    unfold ElasticContainer.field? back?
    rw [h]

theorem wroteField_modifyBack (hb : ec.back? id = some sc) :
    WroteField g ec id (g sc) (g (f sc)) (ec.modifyBack id f) where
  sum := sumOver_modifyBack (g := fun sc => (g sc).toNat) hb
  field? := field?_of_back? (back?_modifyBack hb)
  others id' hne := by
    unfold ElasticContainer.field?
    rw [back?_modifyBack_ne hne]

/-- A write that leaves the field alone. -/
theorem sameField_modifyBack (hb : ec.back? id = some sc) (hf : g (f sc) = g sc) :
    SameField g ec (ec.modifyBack id f) := by
  have hw : WroteField g ec id (g sc) (g (f sc)) (ec.modifyBack id f) := wroteField_modifyBack hb
  rw [hf] at hw
  refine ⟨Nat.add_right_cancel hw.sum, fun id' => ?_⟩
  by_cases heq : id' = id
  · subst heq
    rw [hw.field?, field?_of_back? hb]
  · exact hw.others id' heq

end EcGcm.ElasticContainer
