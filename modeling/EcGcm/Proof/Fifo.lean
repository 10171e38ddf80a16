import EcGcm.Proof.Quiet

/-!
# One queue for each id

What `subcontainers` is for: under every id a first-in-first-out queue of the instances that are
alive, with no trace of an id that has none. Seen as a function from ids to queues
(`ElasticContainer.instances`), an insertion appends to one queue and a deletion takes the head off
one. The map carries more than that function: a key with an empty queue would be there for
`find`, and every handler that finds a key reads its front or its back. `Queued` says that there is
no such key, and with it the map is determined by the function (`Queued.lookup_eq`).
-/

set_option autoImplicit false

namespace EcGcm

namespace ElasticContainer

open UnorderedMap

variable {ec : ElasticContainer} {id : ContainerId} {sc : SubContainer}

/-- The live instances of an id, oldest first. -/
def instances (ec : ElasticContainer) (id : ContainerId) : List SubContainer :=
  (ec.subcontainers.lookup id).getD []

theorem Queued.lookup_eq (h : ec.Queued) :
    ec.subcontainers.lookup id =
      if ec.instances id = [] then none else some (ec.instances id) := by
  unfold instances
  cases hq : ec.subcontainers.lookup id with
  | none => exact (if_pos rfl).symm
  | some q => exact (if_neg (h id q hq).1).symm

theorem instances_insertSc :
    (ec.insertSc sc).instances id =
      if id = sc.cId then ec.instances id ++ [sc] else ec.instances id := by
  unfold instances insertSc
  cases hq : ec.subcontainers.lookup sc.cId with
  | none =>
    dsimp only
    rw [lookup_insert']
    split
    · rename_i heq
      rw [heq, hq]
      rfl
    · rfl
  | some q =>
    dsimp only
    rw [lookup_insert']
    split
    · rename_i heq
      rw [heq, hq]
      rfl
    · rfl

/-- A deletion of an id that has no instance. -/
theorem Queued.delete_of_none (h : ec.Queued) (hnone : ec.instances id = []) :
    ec.ecDeleteFromSubcontainersMap id = (-1, ec) := by
  unfold ecDeleteFromSubcontainersMap
  rw [h.lookup_eq, if_pos hnone]

/-- A deletion of one that has: the oldest goes. -/
theorem Queued.delete_of_some (h : ec.Queued) (hsome : ec.instances id ≠ []) :
    (ec.ecDeleteFromSubcontainersMap id).1 = 0 ∧
      ∀ id', (ec.ecDeleteFromSubcontainersMap id).2.instances id' =
        if id' = id then (ec.instances id).tail else ec.instances id' := by
  have hq : ec.subcontainers.lookup id = some (ec.instances id) := by
    rw [h.lookup_eq, if_neg hsome]
  obtain ⟨oldest, rest, hcons⟩ := List.exists_cons_of_ne_nil hsome
  rw [hcons] at hq
  constructor
  · unfold ecDeleteFromSubcontainersMap
    rw [hq]
    dsimp only
    split
    · rfl
    · rfl
  · intro id'
    unfold instances
    rw [lookup_delete hq, hq]
    split
    · split
      · rename_i hnil
        rw [hnil]
        rfl
      · rfl
    · rfl

theorem queued_new : new.Queued := fun _ _ hq => absurd hq (by simp [new])

end ElasticContainer

namespace Manager

open Handler

variable {m : Manager} {id : ContainerId}

/-- The newest instance, or the end of the process. -/
theorem run_ecGetScForUpdate (h : m.ec.Queued) :
    (ecGetScForUpdate id).run m =
      match (m.ec.instances id).getLast? with
      | some sc => .ret sc m
      | none => .halt .exit m := by
  unfold ecGetScForUpdate ElasticContainer.instances
  rw [run_bind_of_ret run_get]
  cases hq : m.ec.subcontainers.lookup id with
  | none => rfl
  | some q =>
    dsimp only
    rw [Option.getD_some, List.getLast?_eq_some_getLast (h id q hq).1]
    rfl

/-- The oldest instance, or the end of the process. -/
theorem run_getSubcontainerFront (h : m.ec.Queued) :
    (getSubcontainerFront id).run m =
      match (m.ec.instances id).head? with
      | some sc => .ret sc m
      | none => .halt .exit m := by
  unfold getSubcontainerFront ElasticContainer.instances
  rw [run_bind_of_ret run_get]
  cases hq : m.ec.subcontainers.lookup id with
  | none => rfl
  | some q =>
    dsimp only
    rw [Option.getD_some, List.head?_eq_some_head (h id q hq).1]
    rfl

end Manager

/-! ## Insertions and deletions -/

/-- An elastic container, what has been inserted under each id, oldest first, and how many
deletions of it have been successful. -/
structure Roll where
  ec : ElasticContainer
  inserted : ContainerId → List SubContainer
  removed : ContainerId → ℕ

namespace Roll

open ElasticContainer Manager Handler

inductive Call
  | insertSc (sc : SubContainer)
  | delete (id : ContainerId)

def new : Roll := ⟨.new, fun _ => [], fun _ => 0⟩

/-- Calls of `insert_sc` and `ec_delete_from_subcontainers_map`, in any order. -/
def calls : System Roll Call where
  enabled _ _ := True
  next
    | .insertSc sc, r => some
      { r with
        ec := r.ec.insertSc sc
        inserted := Function.update r.inserted sc.cId (r.inserted sc.cId ++ [sc]) }
    | .delete id, r => some
      { r with
        ec := (r.ec.ecDeleteFromSubcontainersMap id).2
        removed :=
          if (r.ec.ecDeleteFromSubcontainersMap id).1 = 0 then
            Function.update r.removed id (r.removed id + 1)
          else r.removed }

instance (r : Roll) (c : Call) : Decidable (calls.enabled r c) := .isTrue trivial

/-- The instances of an id that have been inserted and not been removed. -/
def live (r : Roll) (id : ContainerId) : List SubContainer := (r.inserted id).drop (r.removed id)

variable {r r' : Roll} {id : ContainerId}

structure RollInv (r : Roll) : Prop where
  queued : r.ec.Queued
  counted : ∀ id, r.removed id ≤ (r.inserted id).length
  instances : ∀ id, r.ec.instances id = r.live id

theorem rollInv_new : RollInv new where
  queued := queued_new
  counted _ := le_rfl
  instances _ := rfl

/-- The newest goes to the end of one queue. -/
theorem RollInv.insertSc (h : RollInv r) (sc : SubContainer) : RollInv
    { r with
      ec := r.ec.insertSc sc
      inserted := Function.update r.inserted sc.cId (r.inserted sc.cId ++ [sc]) } := by
  refine ⟨h.queued.insertSc, fun id => ?_, fun id => ?_⟩
  · dsimp only
    rcases eq_or_ne id sc.cId with rfl | hne
    · rw [Function.update_self, List.length_append]
      exact (h.counted _).trans (Nat.le_add_right _ _)
    · rw [Function.update_of_ne hne]
      exact h.counted id
  · unfold live
    dsimp only
    rw [instances_insertSc, h.instances]
    split
    · rename_i heq
      rw [heq, Function.update_self, List.drop_append_of_le_length (h.counted _)]
      rfl
    · rename_i hne
      rw [Function.update_of_ne hne]
      rfl

/-- The oldest goes. -/
theorem RollInv.delete {id₀ : ContainerId} (h : RollInv r) (hsome : r.ec.instances id₀ ≠ []) :
    RollInv
      { r with
        ec := (r.ec.ecDeleteFromSubcontainersMap id₀).2
        removed := Function.update r.removed id₀ (r.removed id₀ + 1) } := by
  obtain ⟨-, hrest⟩ := h.queued.delete_of_some hsome
  have hpos : r.removed id₀ < (r.inserted id₀).length := by
    rw [h.instances, live, ne_eq, List.drop_eq_nil_iff] at hsome
    omega
  refine ⟨h.queued.delete, fun id => ?_, fun id => ?_⟩
  · dsimp only
    rcases eq_or_ne id id₀ with rfl | hne
    · rw [Function.update_self]
      exact hpos
    · rw [Function.update_of_ne hne]
      exact h.counted id
  · unfold live
    dsimp only
    rw [hrest]
    split
    · rename_i heq
      rw [heq, Function.update_self, h.instances, live, List.tail_drop]
    · rename_i hne
      rw [Function.update_of_ne hne]
      exact h.instances id

/-- The step lemma. -/
theorem RollInv.next {c : Call} (h : RollInv r) (hnext : calls.next c r = some r') :
    RollInv r' := by
  cases c with
  | insertSc sc =>
    cases hnext
    exact h.insertSc sc
  | delete id₀ =>
    obtain rfl := Option.some.inj hnext
    by_cases hnone : r.ec.instances id₀ = []
    · rw [h.queued.delete_of_none hnone, if_neg (show ¬ (-1 : Int) = 0 by decide)]
      exact h
    · rw [if_pos (h.queued.delete_of_some hnone).1]
      exact h.delete hnone

/-- The map is a family of queues. -/
structure Fifo (r : Roll) : Prop where
  /-- Every key has a front and a back. -/
  nonempty : ∀ id q, r.ec.subcontainers.lookup id = some q → q ≠ []
  queue : ∀ id, (r.ec.subcontainers.lookup id).getD [] = r.live id
  present : ∀ id, id ∈ r.ec.subcontainers.keys ↔ r.live id ≠ []
  /-- `get_sc_for_update_back` finds the newest instance. -/
  back : ∀ m : Manager, m.ec = r.ec → ∀ id, (ecGetScForUpdate id).run m =
    match (r.live id).getLast? with
    | some sc => .ret sc m
    | none => .halt .exit m
  /-- `get_subcontainer_front` finds the oldest. -/
  front : ∀ m : Manager, m.ec = r.ec → ∀ id, (getSubcontainerFront id).run m =
    match (r.live id).head? with
    | some sc => .ret sc m
    | none => .halt .exit m
  delete_absent : ∀ id, r.live id = [] → r.ec.ecDeleteFromSubcontainersMap id = (-1, r.ec)
  delete_oldest : ∀ id, r.live id ≠ [] →
    (r.ec.ecDeleteFromSubcontainersMap id).1 = 0 ∧
      (r.ec.ecDeleteFromSubcontainersMap id).2.instances id = (r.live id).tail
  insert_newest : ∀ sc, (r.ec.insertSc sc).instances sc.cId = r.live sc.cId ++ [sc]
  /-- An operation on one id leaves the others alone. -/
  insert_others : ∀ sc id, id ≠ sc.cId →
    (r.ec.insertSc sc).subcontainers.lookup id = r.ec.subcontainers.lookup id
  delete_others : ∀ id₀ id, id ≠ id₀ →
    (r.ec.ecDeleteFromSubcontainersMap id₀).2.subcontainers.lookup id =
      r.ec.subcontainers.lookup id

theorem RollInv.fifo (h : RollInv r) : r.Fifo where
  nonempty id q hq := (h.queued id q hq).1
  queue := h.instances
  present id := by
    rw [UnorderedMap.mem_keys_iff_lookup, h.queued.lookup_eq, ← h.instances]
    split
    · rename_i hnil
      exact iff_of_false (by simp) (not_not.mpr hnil)
    · rename_i hne
      exact iff_of_true ⟨_, rfl⟩ hne
  back m hm id := by
    rw [run_ecGetScForUpdate (hm ▸ h.queued), hm, h.instances]
  front m hm id := by
    rw [run_getSubcontainerFront (hm ▸ h.queued), hm, h.instances]
  delete_absent id hnil := h.queued.delete_of_none (by rw [h.instances]; exact hnil)
  delete_oldest id hne := by
    have hsome : r.ec.instances id ≠ [] := by
      rw [h.instances]
      exact hne
    obtain ⟨hret, hrest⟩ := h.queued.delete_of_some hsome
    rw [hrest, if_pos rfl, h.instances]
    exact ⟨hret, rfl⟩
  insert_newest sc := by rw [instances_insertSc, if_pos rfl, h.instances]
  insert_others sc id hne := by
    rw [h.queued.insertSc.lookup_eq, h.queued.lookup_eq, instances_insertSc, if_neg hne]
  delete_others id₀ id hne := by
    by_cases hnone : r.ec.instances id₀ = []
    · rw [h.queued.delete_of_none hnone]
    · rw [h.queued.delete.lookup_eq, h.queued.lookup_eq, (h.queued.delete_of_some hnone).2,
        if_neg hne]

/-- **The map implements a queue of instances for each id.** -/
theorem subcontainers_fifo (hrun : calls.Run new r) : r.Fifo := by
  have hinv : RollInv r :=
    System.invariant rollInv_new (fun _ _ _ ht _ hnext => ht.next hnext) hrun
  exact hinv.fifo

/-- The same id on two sockets; the older instance goes. -/
theorem subcontainers_fifo_of_reconnect :
    ∃ r, calls.Run new r ∧
      (r.live ⟨1, ⟨0⟩⟩).map (fun sc => sc.fd) = [9] ∧ r.live ⟨2, ⟨0⟩⟩ = [] ∧ r.Fifo := by
  have hreplay : ((calls.replay
      [.insertSc (.new 1 0 8 0 0 0), .insertSc (.new 1 0 9 0 0 0), .delete ⟨2, ⟨0⟩⟩,
        .delete ⟨1, ⟨0⟩⟩] new).any fun r =>
      decide ((r.live ⟨1, ⟨0⟩⟩).map (fun sc => sc.fd) = [9] ∧ r.live ⟨2, ⟨0⟩⟩ = [])) = true := by
    decide +kernel
  obtain ⟨r, hrun, htest⟩ := System.exists_run_of_replay hreplay
  obtain ⟨hone, hnone⟩ := of_decide_eq_true htest
  exact ⟨r, hrun, hone, hnone, subcontainers_fifo hrun⟩

end Roll

end EcGcm
