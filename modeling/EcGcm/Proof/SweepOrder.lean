import EcGcm.Proof.IdleSweep

/-!
# The order of a sweep

`check_for_idle_containers` goes through a `std::unordered_map`, which does not say in which order.
The counters it gives back to are decremented with a clip at zero, and what a container gives back
is negative where its quota is below `min_quota`, so in general the order counts.

`sweep_in_any_order`: it does not, as long as `alloc_rt` covers the quotas of the newest instances
and no visit gets stuck. Then no decrement clips, in whatever order the quotas come.
-/

set_option autoImplicit false

namespace EcGcm

open Handler Word

namespace Manager

variable {m t : Manager} {env : Env} {ids ids' done : List ContainerId} {c c₁ c₂ : Global.Cpu}

/-! ## The counters -/

/-- What `ids` give back when they are set to the minimum. -/
def given (m : Manager) (ids : List ContainerId) : ℤ :=
  (ids.map fun id => ((m.quotaOf id).toNat : ℤ) - minQuota.toNat).sum

/-- The quotas of the newest instances. -/
def newestQuotas (m : Manager) (ids : List ContainerId) : ℕ :=
  (ids.map fun id => (m.quotaOf id).toNat).sum

/-- The counters `c`, after `ids` have given back. -/
structure GaveBack (m : Manager) (ids : List ContainerId) (c c₁ : Global.Cpu) : Prop where
  allocRt : (c₁.allocRt.toNat : ℤ) = c.allocRt.toNat - m.given ids
  unallocatedRt : (c₁.unallocatedRt.toNat : ℤ) = (c.unallocatedRt.toNat + m.given ids) % 2 ^ 64
  overrun : c₁.overrun = c.overrun
  totalCpu : c₁.totalCpu = c.totalCpu
  sliceSize : c₁.sliceSize = c.sliceSize
  clipped : c₁.clipped = c.clipped

theorem gaveBack_nil : GaveBack m [] c c := by
  have hlt := c.unallocatedRt.toNat_lt
  refine ⟨?_, ?_, rfl, rfl, rfl, rfl⟩
  · simp [given]
  · simp only [given, List.map_nil, List.sum_nil]
    omega

/-- A quota that is part of `alloc_rt` leaves it, and the minimum takes its place. It may be below
the minimum. -/
theorem allocRt_give {quota : UInt64} (hcovered : quota.toNat ≤ c.allocRt.toNat)
    (hA : c.allocRt.toNat < 2 ^ 63) :
    ((Transfer.give (quota - minQuota)).apply c).allocRt.toNat =
      c.allocRt.toNat - quota.toNat + minQuota.toNat ∧
    clips c.allocRt (quota - minQuota) = false := by
  have hamount := amount_sub (a := quota) (b := minQuota) (by omega) (by decide)
  have hle : amount (quota - minQuota) ≤ c.allocRt.toNat := by omega
  have hallocRt := satSub_toNat hA hle
  refine ⟨?_, clips_eq_false hA hle⟩
  show (satSub c.allocRt (quota - minQuota)).toNat = _
  omega

theorem GaveBack.cons {id : ContainerId}
    (h : GaveBack m ids ((Transfer.give (m.quotaOf id - minQuota)).apply c) c₁)
    (hcovered : (m.quotaOf id).toNat ≤ c.allocRt.toNat) (hA : c.allocRt.toNat < 2 ^ 63) :
    GaveBack m (id :: ids) c c₁ := by
  obtain ⟨hallocRt, hclips⟩ := allocRt_give hcovered hA
  have hgiven : m.given (id :: ids) =
      ((m.quotaOf id).toNat : ℤ) - minQuota.toNat + m.given ids := by
    unfold given
    rw [List.map_cons, List.sum_cons]
  have hunallocatedRt : ((Transfer.give (m.quotaOf id - minQuota)).apply c).unallocatedRt =
      c.unallocatedRt + (m.quotaOf id - minQuota) := rfl
  refine ⟨?_, ?_, h.overrun, h.totalCpu, h.sliceSize, ?_⟩
  · have hrest := h.allocRt
    omega
  · have hmin : minQuota.toNat = 30000000 := rfl
    rw [h.unallocatedRt, hunallocatedRt, hgiven, UInt64.toNat_add, UInt64.toNat_sub]
    omega
  · rw [h.clipped]
    show c.clipped + (clips c.allocRt (m.quotaOf id - minQuota)).toNat = c.clipped
    rw [hclips]
    rfl

/-- In any order, no decrement clips. -/
theorem gaveBack_foldl (hcovered : m.newestQuotas ids ≤ c.allocRt.toNat)
    (hroom : c.allocRt.toNat + ids.length * minQuota.toNat < 2 ^ 63) :
    GaveBack m ids c
      (ids.foldl (fun c id => (Transfer.give (m.quotaOf id - minQuota)).apply c) c) := by
  induction ids generalizing c with
  | nil => exact gaveBack_nil
  | cons id ids ih =>
    have hsum : m.newestQuotas (id :: ids) = (m.quotaOf id).toNat + m.newestQuotas ids := by
      unfold newestQuotas
      rw [List.map_cons, List.sum_cons]
    rw [List.length_cons, Nat.add_mul, Nat.one_mul] at hroom
    have hid : (m.quotaOf id).toNat ≤ c.allocRt.toNat := by omega
    have hA : c.allocRt.toNat < 2 ^ 63 := by omega
    obtain ⟨hallocRt, -⟩ := allocRt_give hid hA
    rw [List.foldl_cons]
    exact (ih (by omega) (by omega)).cons hid hA

theorem GaveBack.eq_of_perm (h₁ : GaveBack m ids c c₁) (h₂ : GaveBack m ids' c c₂)
    (hids : ids.Perm ids') : c₁ = c₂ := by
  have hgiven : m.given ids = m.given ids' := (hids.map _).sum_eq
  have hallocRt : c₁.allocRt = c₂.allocRt := by
    refine UInt64.toNat_inj.mp ?_
    have := h₁.allocRt
    have := h₂.allocRt
    omega
  have hunallocatedRt : c₁.unallocatedRt = c₂.unallocatedRt := by
    refine UInt64.toNat_inj.mp ?_
    have := h₁.unallocatedRt
    have := h₂.unallocatedRt
    omega
  have hoverrun := h₁.overrun.trans h₂.overrun.symm
  have htotalCpu := h₁.totalCpu.trans h₂.totalCpu.symm
  have hsliceSize := h₁.sliceSize.trans h₂.sliceSize.symm
  have hclipped := h₁.clipped.trans h₂.clipped.symm
  cases c₁
  cases c₂
  rw [Global.Cpu.mk.injEq]
  exact ⟨hsliceSize, hunallocatedRt, htotalCpu, hoverrun, hallocRt, hclipped⟩

/-! ## The sweep -/

/-- The containers that a visit sets to the minimum. -/
def shrinking (m : Manager) (env : Env) (ids : List ContainerId) : List ContainerId :=
  ids.filter fun id => m.visit env id = .shrinks

/-- A pass in which no visit gets stuck comes to its end. -/
theorem wp_sweep_of_not_stuck (h : SweptTo m done t) (hnd : (done ++ ids).Nodup)
    (hstuck : ∀ id ∈ ids, m.visit env id ≠ .stuck) :
    wp (ids.forM (checkIdleContainer env)) (fun _ => SweptTo m (done ++ m.shrinking env ids))
      (fun _ _ => False) t := by
  induction ids generalizing done t with
  | nil =>
    unfold shrinking
    rw [List.filter_nil, List.append_nil]
    exact h
  | cons id ids ih =>
    have hid : id ∉ done := fun hmem => List.disjoint_of_nodup_append hnd hmem List.mem_cons_self
    have hrest : (done ++ ids).Nodup :=
      hnd.sublist ((List.sublist_cons_self id ids).append_left done)
    have hstuck' : ∀ id' ∈ ids, m.visit env id' ≠ .stuck :=
      fun id' hid' => hstuck id' (List.mem_cons_of_mem id hid')
    have hvisit : t.visit env id = m.visit env id := visit_congr (h.back? hid) h.agent
    show wp (checkIdleContainer env id >>= fun _ => ids.forM (checkIdleContainer env)) _ _ t
    rw [wp_bind]
    refine wp_checkIdleContainer_of (fun hv e m' hm => ?_) (fun hv m' n hm => ?_)
      (fun hv m' n hm => ?_)
    all_goals rw [hvisit] at hv
    · exact hstuck id List.mem_cons_self hv
    · have hshrinking : m.shrinking env (id :: ids) = m.shrinking env ids := by
        unfold shrinking
        rw [List.filter_cons, if_neg (by simp [hv])]
      rw [hshrinking]
      exact ih (h.of_frame hm) hrest hstuck'
    · have hshrinking : m.shrinking env (id :: ids) = id :: m.shrinking env ids := by
        unfold shrinking
        rw [List.filter_cons, if_pos (by simp [hv])]
      have hquota : t.quotaOf id = m.quotaOf id := by
        unfold quotaOf
        rw [h.back? hid]
      obtain ⟨sc, hb, -⟩ := idle_of_shrinks hv
      rw [hshrinking, List.append_cons, hquota]
      refine ih ?_ ?_ hstuck'
      · have hframe := h.of_frame (n := m'.idleContainerSyscallSeqNum) hm
        have hshrunk := hframe.shrink hid hb
        exact ⟨hshrunk.lookup, hshrunk.agent, hshrunk.cpu, hshrunk.total⟩
      · rw [List.append_assoc]
        exact hnd

theorem exists_swept (hids : ids.Nodup) (hstuck : ∀ id ∈ ids, m.visit env id ≠ .stuck) :
    ∃ s, (ids.forM (checkIdleContainer env)).run m = .ret ⟨⟩ s ∧
      SweptTo m (m.shrinking env ids) s := by
  have hstart : SweptTo m [] m := by
    refine ⟨fun id => ?_, fun _ => rfl, rfl, ?_⟩
    · rw [if_neg List.not_mem_nil]
    · simp
  have hwp := wp_sweep_of_not_stuck hstart hids hstuck
  unfold wp at hwp
  cases hrun : (ids.forM (checkIdleContainer env)).run m with
  | ret a s =>
    rw [hrun] at hwp
    exact ⟨s, rfl, hwp⟩
  | halt e s =>
    rw [hrun] at hwp
    exact hwp.elim

/-- The containers that are set hold no more than all of them. -/
theorem newestQuotas_shrinking_le :
    m.newestQuotas (m.shrinking env ids) ≤ m.newestQuotas ids := by
  unfold newestQuotas shrinking
  exact (List.filter_sublist.map _).sum_le_sum fun _ _ => Nat.zero_le _

/-- **The order in which a sweep visits the containers does not count**, as long as `alloc_rt`
covers the quotas of the newest instances and no visit gets stuck. -/
theorem sweep_in_any_order (hids : ids.Perm m.ec.subcontainers.keys)
    (hstuck : ∀ id ∈ m.ec.subcontainers.keys, m.visit env id ≠ .stuck)
    (hcovered : m.newestQuotas m.ec.subcontainers.keys ≤ m.ec.cpu.allocRt.toNat)
    (hroom : m.ec.cpu.allocRt.toNat + m.ec.subcontainers.size * minQuota.toNat < 2 ^ 63) :
    ∃ s s', (ids.forM (checkIdleContainer env)).run m = .ret ⟨⟩ s ∧
      (checkForIdleContainers env).run m = .ret ⟨⟩ s' ∧
      (∀ id, s.ec.subcontainers.lookup id = s'.ec.subcontainers.lookup id) ∧
      (∀ id, s.ec.agent? id = s'.ec.agent? id) ∧ s.ec.cpu = s'.ec.cpu := by
  have hnodup := AList.keys_nodup m.ec.subcontainers
  obtain ⟨s, hrun, hs⟩ := exists_swept (hids.nodup_iff.mpr hnodup)
    fun id hid => hstuck id (hids.mem_iff.mp hid)
  obtain ⟨s', hrun', hs'⟩ := exists_swept hnodup hstuck
  have hshrinking : (m.shrinking env ids).Perm (m.shrinking env m.ec.subcontainers.keys) :=
    hids.filter _
  -- what is given back, in either order
  have hgave : ∀ {l : List ContainerId}, l.Perm m.ec.subcontainers.keys →
      GaveBack m (m.shrinking env l) m.ec.cpu
        ((m.shrinking env l).foldl (fun c id => (Transfer.give (m.quotaOf id - minQuota)).apply c)
          m.ec.cpu) := by
    intro l hl
    have hsum : m.newestQuotas l = m.newestQuotas m.ec.subcontainers.keys := (hl.map _).sum_eq
    have hlength : (m.shrinking env l).length ≤ m.ec.subcontainers.size :=
      (List.length_filter_le _ l).trans_eq hl.length_eq
    have hle := Nat.mul_le_mul_right minQuota.toNat hlength
    refine gaveBack_foldl (newestQuotas_shrinking_le.trans ?_) (by omega)
    rw [hsum]
    exact hcovered
  refine ⟨s, s', hrun, hrun', fun id => ?_, fun id => (hs.agent id).trans (hs'.agent id).symm, ?_⟩
  · rw [hs.lookup, hs'.lookup]
    simp only [hshrinking.mem_iff]
  · rw [hs.cpu, hs'.cpu]
    exact (hgave hids).eq_of_perm (hgave (.refl _)) hshrinking

/-- A container with half a core and one with less, from the last one to the first. -/
theorem sweep_backwards :
    ∃ m s s', gcm.Run (.new oneAgent) m ∧
      m.shrinking idleEnv m.ec.subcontainers.keys = [⟨2, node⟩, ⟨1, node⟩] ∧
      (m.ec.subcontainers.keys.reverse.forM (checkIdleContainer idleEnv)).run m = .ret ⟨⟩ s ∧
      (checkForIdleContainers idleEnv).run m = .ret ⟨⟩ s' ∧ s.ec.cpu = s'.ec.cpu := by
  have hreplay : ((gcm.replay
      [.appSpec ⟨1000, 100⟩, deliver 0 (msgOf 1 initReq 50000000 0),
        deliver 0 (msgOf 2 initReq 20000000 0)] (.new oneAgent)).any fun m =>
        m.shrinking idleEnv m.ec.subcontainers.keys = [⟨2, node⟩, ⟨1, node⟩] ∧
          (∀ id ∈ m.ec.subcontainers.keys, m.visit idleEnv id ≠ .stuck) ∧
          m.newestQuotas m.ec.subcontainers.keys ≤ m.ec.cpu.allocRt.toNat ∧
          m.ec.cpu.allocRt.toNat + m.ec.subcontainers.size * minQuota.toNat < 2 ^ 63) = true := by
    decide +kernel
  obtain ⟨m, hrun, hm⟩ := System.exists_run_of_replay hreplay
  obtain ⟨hshrinking, hstuck, hcovered, hroom⟩ := of_decide_eq_true hm
  obtain ⟨s, s', hs, hs', -, -, hcpu⟩ :=
    sweep_in_any_order (List.reverse_perm m.ec.subcontainers.keys) hstuck hcovered hroom
  exact ⟨m, s, s', hrun, hshrinking, hs, hs', hcpu⟩

end Manager

end EcGcm
