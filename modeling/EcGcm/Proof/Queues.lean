import EcGcm.Deploy

/-!
# The queues, and sums over all instances

Four operations change `subcontainers`: a write to the newest instance, an insertion, and the two
arms of a deletion. Each changes a sum over all live instances (`sumOver g`, for any measure
`g`) by the measure of one instance, and that is all the bookkeeping proofs need to know about
queues and maps.
-/

set_option autoImplicit false

namespace EcGcm.ElasticContainer

open UnorderedMap

variable {ec : ElasticContainer} {id id' : ContainerId} {sc : SubContainer}
  {f : SubContainer → SubContainer} {g : SubContainer → ℕ} {q : List SubContainer}

/-! ## The newest instance -/

theorem back?_of_lookup {l : List SubContainer}
    (h : ec.subcontainers.lookup id = some (l ++ [sc])) : ec.back? id = some sc := by
  simp [back?, h]

theorem lookup_of_back? (h : ec.back? id = some sc) :
    ∃ l, ec.subcontainers.lookup id = some (l ++ [sc]) := by
  simp only [back?, Option.bind_eq_some_iff] at h
  obtain ⟨q, hq, hlast⟩ := h
  obtain ⟨l, rfl⟩ := List.getLast?_eq_some_iff.mp hlast
  exact ⟨l, hq⟩

theorem subcontainers_modifyBack {l : List SubContainer}
    (h : ec.subcontainers.lookup id = some (l ++ [sc])) :
    (ec.modifyBack id f).subcontainers = ec.subcontainers.insert id (l ++ [f sc]) := by
  simp only [modifyBack, h, List.modifyLast_concat]

theorem lookup_modifyBack_ne (h : id' ≠ id) :
    (ec.modifyBack id f).subcontainers.lookup id' = ec.subcontainers.lookup id' := by
  unfold modifyBack
  split
  · exact AList.lookup_insert_ne h
  · rfl

theorem back?_modifyBack (h : ec.back? id = some sc) :
    (ec.modifyBack id f).back? id = some (f sc) := by
  obtain ⟨l, hl⟩ := lookup_of_back? h
  refine back?_of_lookup (l := l) ?_
  rw [subcontainers_modifyBack hl, AList.lookup_insert]

/-- The same for an id that may have no instance. -/
theorem back?_modifyBack_map : (ec.modifyBack id f).back? id = (ec.back? id).map f := by
  cases hb : ec.back? id with
  | some sc => exact back?_modifyBack hb
  | none =>
    unfold back? modifyBack at *
    cases hq : ec.subcontainers.lookup id with
    | none =>
      dsimp only
      rw [hq]
      rfl
    | some q =>
      rw [hq, Option.bind_some, List.getLast?_eq_none_iff] at hb
      dsimp only
      rw [AList.lookup_insert, hb]
      rfl

theorem back?_modifyBack_ne (h : id' ≠ id) : (ec.modifyBack id f).back? id' = ec.back? id' := by
  simp only [back?, lookup_modifyBack_ne h]

@[simp] theorem cpu_modifyBack : (ec.modifyBack id f).cpu = ec.cpu := by
  unfold modifyBack; split <;> rfl

@[simp] theorem mem_modifyBack : (ec.modifyBack id f).mem = ec.mem := by
  unfold modifyBack; split <;> rfl

@[simp] theorem scAcMap_modifyBack : (ec.modifyBack id f).scAcMap = ec.scAcMap := by
  unfold modifyBack; split <;> rfl

@[simp] theorem fairCpuShare_modifyBack : (ec.modifyBack id f).fairCpuShare = ec.fairCpuShare := by
  unfold modifyBack; split <;> rfl

/-! ## Sums -/

theorem sumOver_modifyBack (h : ec.back? id = some sc) :
    (ec.modifyBack id f).sumOver g + g sc = ec.sumOver g + g (f sc) := by
  obtain ⟨l, hl⟩ := lookup_of_back? h
  have := total_insert_of_lookup (f := fun q : List SubContainer => (q.map g).sum)
    (w := l ++ [f sc]) hl
  unfold sumOver
  rw [subcontainers_modifyBack hl]
  simp only [List.map_append, List.map_cons, List.map_nil, List.sum_append, List.sum_cons,
    List.sum_nil] at this
  omega

/-- A write that leaves the measure alone leaves the sum alone. -/
theorem sumOver_modifyBack_of_eq (h : ∀ sc, g (f sc) = g sc) :
    (ec.modifyBack id f).sumOver g = ec.sumOver g := by
  cases hb : ec.back? id with
  | some sc =>
    have := sumOver_modifyBack (f := f) (g := g) hb
    rw [h sc] at this
    omega
  | none =>
    -- no newest instance: the key is missing or its queue is empty
    simp only [back?, Option.bind_eq_none_iff] at hb
    unfold modifyBack
    split
    · rename_i q hq
      have hq' : q = [] := List.getLast?_eq_none_iff.mp (hb q hq)
      subst hq'
      have := total_insert_of_lookup (f := fun q : List SubContainer => (q.map g).sum)
        (w := []) hq
      exact Nat.add_right_cancel this
    · rfl

theorem le_sumOver (h : ec.back? id = some sc) : g sc ≤ ec.sumOver g := by
  obtain ⟨l, hl⟩ := lookup_of_back? h
  have := le_total (f := fun q : List SubContainer => (q.map g).sum) hl
  simp only [List.map_append, List.map_cons, List.map_nil, List.sum_append, List.sum_cons,
    List.sum_nil] at this
  unfold sumOver
  omega

theorem back?_insertSc : (ec.insertSc sc).back? sc.cId = some sc := by
  unfold insertSc
  split
  · exact back?_of_lookup (AList.lookup_insert _)
  · exact back?_of_lookup (l := []) (AList.lookup_insert _)

theorem sumOver_insertSc : (ec.insertSc sc).sumOver g = ec.sumOver g + g sc := by
  unfold insertSc sumOver
  cases h : ec.subcontainers.lookup sc.cId with
  | none =>
    rw [total_insert_of_lookup_none h]
    simp only [List.map_cons, List.map_nil, List.sum_cons, List.sum_nil]
    omega
  | some q =>
    have := total_insert_of_lookup (f := fun q : List SubContainer => (q.map g).sum)
      (w := q ++ [sc]) h
    simp only [List.map_append, List.map_cons, List.map_nil, List.sum_append, List.sum_cons,
      List.sum_nil] at this ⊢
    omega

/-- A deletion takes the oldest instance out of the sum, whether or not the key goes with it. -/
theorem sumOver_delete (h : ec.subcontainers.lookup id = some (sc :: q)) :
    (ec.ecDeleteFromSubcontainersMap id).2.sumOver g + g sc = ec.sumOver g := by
  unfold ecDeleteFromSubcontainersMap sumOver
  simp only [h]
  cases q with
  | nil =>
    have := total_erase_of_lookup (f := fun q : List SubContainer => (q.map g).sum) h
    simp only [List.map_cons, List.map_nil, List.sum_cons, List.sum_nil, List.length_cons,
      List.length_nil, Nat.lt_irrefl, if_false] at this ⊢
    omega
  | cons b l =>
    have := total_insert_of_lookup (f := fun q : List SubContainer => (q.map g).sum)
      (w := b :: l) h
    simp only [List.map_cons, List.sum_cons, List.length_cons, List.tail_cons] at this ⊢
    rw [if_pos (by omega)]
    dsimp only
    omega

theorem lookup_modifyBack (id' : ContainerId) :
    (ec.modifyBack id f).subcontainers.lookup id' =
      if id' = id then (ec.subcontainers.lookup id).map (List.modifyLast f)
      else ec.subcontainers.lookup id' := by
  by_cases heq : id' = id
  · subst heq
    rw [if_pos rfl]
    unfold modifyBack
    cases hq : ec.subcontainers.lookup id' with
    | none =>
      dsimp only
      rw [hq]
      rfl
    | some q => exact AList.lookup_insert _
  · rw [if_neg heq, lookup_modifyBack_ne heq]

theorem lookup_insertSc : (ec.insertSc sc).subcontainers.lookup id =
    if id = sc.cId then some ((ec.subcontainers.lookup sc.cId).getD [] ++ [sc])
    else ec.subcontainers.lookup id := by
  unfold insertSc
  cases ec.subcontainers.lookup sc.cId with
  | none => exact lookup_insert' ..
  | some q => exact lookup_insert' ..

/-- A deletion takes the head of one queue; an emptied queue goes with its key. -/
theorem lookup_delete (h : ec.subcontainers.lookup id = some (sc :: q)) :
    (ec.ecDeleteFromSubcontainersMap id).2.subcontainers.lookup id' =
      if id' = id then (if q = [] then none else some q) else ec.subcontainers.lookup id' := by
  unfold ecDeleteFromSubcontainersMap
  simp only [h]
  cases q with
  | nil =>
    rw [if_neg (show ¬ [sc].length > 1 by simp)]
    show (ec.subcontainers.erase id).lookup id' = _
    rw [lookup_erase', if_pos rfl]
  | cons b l =>
    rw [if_pos (show (sc :: b :: l).length > 1 by simp), if_neg (List.cons_ne_nil b l)]
    show (ec.subcontainers.insert id (b :: l)).lookup id' = _
    rw [lookup_insert']

section Frames

@[simp] theorem scAcMap_delete :
    (ec.ecDeleteFromSubcontainersMap id).2.scAcMap = ec.scAcMap := by
  unfold ecDeleteFromSubcontainersMap; repeat' split
  all_goals rfl

@[simp] theorem cpu_insertSc : (ec.insertSc sc).cpu = ec.cpu := by
  unfold insertSc; split <;> rfl

@[simp] theorem mem_insertSc : (ec.insertSc sc).mem = ec.mem := by
  unfold insertSc; split <;> rfl

@[simp] theorem scAcMap_insertSc : (ec.insertSc sc).scAcMap = ec.scAcMap := by
  unfold insertSc; split <;> rfl

@[simp] theorem cpu_delete : (ec.ecDeleteFromSubcontainersMap id).2.cpu = ec.cpu := by
  unfold ecDeleteFromSubcontainersMap; repeat' split
  all_goals rfl

@[simp] theorem mem_delete : (ec.ecDeleteFromSubcontainersMap id).2.mem = ec.mem := by
  unfold ecDeleteFromSubcontainersMap; repeat' split
  all_goals rfl

@[simp] theorem fairCpuShare_delete :
    (ec.ecDeleteFromSubcontainersMap id).2.fairCpuShare = ec.fairCpuShare := by
  unfold ecDeleteFromSubcontainersMap; repeat' split
  all_goals rfl

@[simp] theorem cpu_updateFairCpuShare : ec.updateFairCpuShare.cpu = ec.cpu := by
  unfold updateFairCpuShare; split <;> rfl

@[simp] theorem mem_updateFairCpuShare : ec.updateFairCpuShare.mem = ec.mem := by
  unfold updateFairCpuShare; split <;> rfl

@[simp] theorem scAcMap_updateFairCpuShare : ec.updateFairCpuShare.scAcMap = ec.scAcMap := by
  unfold updateFairCpuShare; split <;> rfl

@[simp] theorem subcontainers_updateFairCpuShare :
    ec.updateFairCpuShare.subcontainers = ec.subcontainers := by
  unfold updateFairCpuShare; split <;> rfl

@[simp] theorem sumOver_updateFairCpuShare : ec.updateFairCpuShare.sumOver g = ec.sumOver g := by
  unfold sumOver; rw [subcontainers_updateFairCpuShare]

end Frames

theorem fairCpuShare_updateFairCpuShare_le :
    ec.updateFairCpuShare.fairCpuShare.toNat ≤ ec.cpu.totalCpu.toNat := by
  unfold updateFairCpuShare
  split
  · exact le_refl _
  · show (ec.cpu.totalCpu / UInt64.ofNat ec.subcontainers.keys.length).toNat ≤ _
    rw [UInt64.toNat_div]
    exact Nat.div_le_self _ _

end EcGcm.ElasticContainer

namespace EcGcm.Manager

open Handler

variable {m : Manager} {id : ContainerId} {sc : SubContainer}

/-! ## Reaching the newest instance -/

theorem wp_ecGetScForUpdate {Q : SubContainer → Manager → Prop} {E : Halt → Manager → Prop}
    (hb : m.ec.back? id = some sc) : wp (ecGetScForUpdate id) Q E m ↔ Q sc m := by
  obtain ⟨l, hl⟩ := ElasticContainer.lookup_of_back? hb
  simp only [ecGetScForUpdate, wp_bind, wp_get, hl, List.getLast?_append, List.getLast?_singleton,
    Option.some_or, wp_pure]

theorem run_ecGetScForUpdate_of_back (hb : m.ec.back? id = some sc) :
    (ecGetScForUpdate id).run m = .ret sc m := by
  obtain ⟨l, hl⟩ := ElasticContainer.lookup_of_back? hb
  unfold ecGetScForUpdate
  rw [run_bind_of_ret run_get, hl]
  dsimp only
  rw [List.getLast?_concat]
  rfl

theorem run_backOf (hb : m.ec.back? id = some sc) : (backOf id).run m = .ret sc m := by
  unfold backOf
  rw [run_bind_of_ret run_get, hb]
  rfl

theorem run_backOf_of_absent (hb : m.ec.back? id = none) :
    (backOf id).run m = .halt .undef m := by
  unfold backOf
  rw [run_bind_of_ret run_get, hb]
  rfl

theorem wp_backOf {Q : SubContainer → Manager → Prop} {E : Halt → Manager → Prop}
    (hb : m.ec.back? id = some sc) : wp (backOf id) Q E m ↔ Q sc m := by
  simp only [backOf, wp_bind, wp_get, hb, wp_pure]

theorem wp_backOf_of {Q : SubContainer → Manager → Prop} {E : Halt → Manager → Prop}
    (hQ : ∀ sc, m.ec.back? id = some sc → Q sc m) (hE : m.ec.back? id = none → E .undef m) :
    wp (backOf id) Q E m := by
  cases hb : m.ec.back? id with
  | some sc => exact (wp_backOf hb).mpr (hQ sc hb)
  | none =>
    simp only [backOf, wp_bind, wp_get, hb, wp_halt]
    exact hE hb

theorem wp_ecGetScForUpdate_of {Q : SubContainer → Manager → Prop} {E : Halt → Manager → Prop}
    (hQ : ∀ sc, m.ec.back? id = some sc → Q sc m) (hE : m.ec.back? id = none → ∀ e, E e m) :
    wp (ecGetScForUpdate id) Q E m := by
  cases hq : m.ec.subcontainers.lookup id with
  | none =>
    have hb : m.ec.back? id = none := by simp only [ElasticContainer.back?, hq, Option.bind_none]
    simp only [ecGetScForUpdate, wp_bind, wp_get, hq, wp_halt]
    exact hE hb _
  | some q =>
    cases hl : q.getLast? with
    | none =>
      have hb : m.ec.back? id = none := by simp only [ElasticContainer.back?, hq, hl,
        Option.bind_some]
      simp only [ecGetScForUpdate, wp_bind, wp_get, hq, hl, wp_halt]
      exact hE hb _
    | some sc =>
      have hb : m.ec.back? id = some sc := by simp only [ElasticContainer.back?, hq, hl,
        Option.bind_some]
      exact (wp_ecGetScForUpdate hb).mpr (hQ sc hb)

end EcGcm.Manager
