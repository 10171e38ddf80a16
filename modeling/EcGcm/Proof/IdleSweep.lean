import EcGcm.Proof.Quiet

/-!
# What a sweep reclaims

One pass of `check_for_idle_containers` visits every container once. It leaves a container alone,
gets stuck at one it cannot push to, or sets it to `min_quota`; what a visit comes to is decided by
the state before the pass, since a visit changes nothing that a later one looks at
(`Manager.visit`). So a pass has one effect, `SweptTo`, which names the containers it set.

The source's comment says "only update containers that have > 30% of core", and its test is
`idle_quota != min_quota`.
-/

set_option autoImplicit false

namespace EcGcm

open Handler Word

namespace Manager

open ElasticContainer

variable {m m' t : Manager} {env : Env} {id : ContainerId} {sc : SubContainer}
  {ids done : List ContainerId}

/-! ## One visit -/

inductive Visit
  | stuck
  | leaves
  | shrinks
  deriving DecidableEq

/-- What the sweep does about one container. -/
def visit (m : Manager) (env : Env) (id : ContainerId) : Visit :=
  match m.ec.back? id with
  | none => .stuck
  | some sc =>
    if sc.checkIfIdle env.now ∧ sc.quota ≠ minQuota then
      if sc.inserted = false ∨ m.ec.agent? sc.cId = none then .stuck
      else if env.updateContainerQuota sc.cId ≠ 0 then .leaves
      else .shrinks
    else .leaves

theorem visit_congr (hb : t.ec.back? id = m.ec.back? id)
    (hagent : ∀ id, t.ec.agent? id = m.ec.agent? id) : t.visit env id = m.visit env id := by
  unfold visit
  rw [hb]
  simp only [hagent]

/-- Only an idle container with another quota than the minimum is set to it. -/
theorem idle_of_shrinks (h : m.visit env id = .shrinks) :
    ∃ sc, m.ec.back? id = some sc ∧ sc.checkIfIdle env.now = true ∧ sc.quota ≠ minQuota := by
  unfold visit at h
  cases hb : m.ec.back? id with
  | none =>
    rw [hb] at h
    cases h
  | some sc =>
    rw [hb] at h
    dsimp only at h
    split at h
    · rename_i hidle
      exact ⟨sc, rfl, hidle⟩
    · cases h

/-- The quota of the newest instance. -/
def quotaOf (m : Manager) (id : ContainerId) : UInt64 := ((m.ec.back? id).map (·.quota)).getD 0

theorem quotaOf_of_back (hb : m.ec.back? id = some sc) : m.quotaOf id = sc.quota := by
  unfold quotaOf
  rw [hb]
  rfl

/-- The state after a successful visit. -/
def shrunk (m : Manager) (id : ContainerId) (quota : UInt64) : Manager :=
  { m with ec :=
    { m.ec.modifyBack id fun sc => sc.resized minQuota with
      cpu := (Transfer.give (quota - minQuota)).apply m.ec.cpu } }

/-- The rule for a visit. -/
theorem wp_checkIdleContainer_of {Q : PUnit → Manager → Prop} {E : Halt → Manager → Prop}
    (hstuck : m.visit env id = .stuck → ∀ e m', AgentFrame m m' → E e m')
    (hleaves : m.visit env id = .leaves → ∀ m' n, AgentFrame m m' →
      Q ⟨⟩ { m' with idleContainerSyscallSeqNum := n })
    (hshrinks : m.visit env id = .shrinks → ∀ m' n, AgentFrame m m' →
      Q ⟨⟩ { m'.shrunk id (m.quotaOf id) with idleContainerSyscallSeqNum := n }) :
    wp (checkIdleContainer env id) Q E m := by
  unfold checkIdleContainer
  rw [wp_bind]
  refine wp_backOf_of (fun sc hb => ?_) fun hb => ?_
  · rw [quotaOf_of_back hb] at hshrinks
    unfold visit at hstuck hleaves hshrinks
    rw [hb] at hstuck hleaves hshrinks
    dsimp only at hstuck hleaves hshrinks
    rw [wp_ite]
    split
    · rename_i hidle
      rw [if_pos hidle] at hstuck hleaves hshrinks
      simp only [wp_bind, wp_get, wp_modify]
      refine wp_applyResize (fun hins => ?_) (fun m' hm hins hnone => ?_)
        (fun m' agent hm hins hagent hfailed => ?_) (fun m' agent hm hins hagent hzero => ?_)
      · exact hstuck (if_pos (.inl hins)) _ _ (.refl m)
      · exact hstuck (if_pos (.inr hnone)) _ _ hm
      · refine hleaves ?_ m' _ hm
        rw [if_neg (by simp [hins, hagent]), if_pos hfailed]
      · refine hshrinks ?_ m' _ hm
        rw [if_neg (by simp [hins, hagent]), if_neg (not_not.mpr hzero)]
    · rename_i hidle
      rw [if_neg hidle] at hleaves
      exact hleaves rfl m m.idleContainerSyscallSeqNum (.refl m)
  · refine hstuck ?_ _ _ (.refl m)
    unfold visit
    rw [hb]

/-! ## A pass -/

/-- The containers a pass sets to the minimum: of those before the first it gets stuck at. -/
def swept (m : Manager) (env : Env) (ids : List ContainerId) : List ContainerId :=
  (ids.takeWhile fun id => m.visit env id ≠ .stuck).filter fun id => m.visit env id = .shrinks

/-- `t` is `m` after the containers `done` have been set to the minimum, in this order. -/
structure SweptTo (m : Manager) (done : List ContainerId) (t : Manager) : Prop where
  lookup : ∀ id, t.ec.subcontainers.lookup id =
    if id ∈ done then
      (m.ec.subcontainers.lookup id).map (List.modifyLast fun sc => sc.resized minQuota)
    else m.ec.subcontainers.lookup id
  agent : ∀ id, t.ec.agent? id = m.ec.agent? id
  cpu : t.ec.cpu =
    done.foldl (fun c id => (Transfer.give (m.quotaOf id - minQuota)).apply c) m.ec.cpu
  total : t.ec.totalQuota + (done.map fun id => (m.quotaOf id).toNat).sum =
    m.ec.totalQuota + done.length * minQuota.toNat

theorem SweptTo.of_frame {n : UInt32} (h : SweptTo m done t) (hm : AgentFrame t m') :
    SweptTo m done { m' with idleContainerSyscallSeqNum := n } := by
  obtain ⟨_, _, hagent, rfl⟩ := hm
  exact ⟨h.lookup, fun id => (hagent id).trans (h.agent id), h.cpu, h.total⟩

theorem SweptTo.back? (h : SweptTo m done t) (hid : id ∉ done) :
    t.ec.back? id = m.ec.back? id := by
  unfold ElasticContainer.back?
  rw [h.lookup, if_neg hid]

theorem SweptTo.shrink (h : SweptTo m done t) (hid : id ∉ done) (hb : m.ec.back? id = some sc) :
    SweptTo m (done ++ [id]) (t.shrunk id (m.quotaOf id)) := by
  have hbt : t.ec.back? id = some sc := (h.back? hid).trans hb
  refine ⟨fun id' => ?_, fun id' => ?_, ?_, ?_⟩
  · show (t.ec.modifyBack id fun sc => sc.resized minQuota).subcontainers.lookup id' = _
    by_cases heq : id' = id
    · subst heq
      obtain ⟨l, hl⟩ := lookup_of_back? hb
      have hlt : t.ec.subcontainers.lookup id' = some (l ++ [sc]) := by
        rw [h.lookup, if_neg hid, hl]
      rw [if_pos (by simp), subcontainers_modifyBack hlt, AList.lookup_insert, hl,
        Option.map_some, List.modifyLast_concat]
    · rw [lookup_modifyBack_ne heq, h.lookup]
      simp only [List.mem_append, List.mem_singleton, heq, or_false]
  · exact (agent?_congr scAcMap_modifyBack id').trans (h.agent id')
  · rw [List.foldl_append, ← h.cpu]
    rfl
  · have htotal := h.total
    have hsum := sumOver_modifyBack (f := fun sc => sc.resized minQuota)
      (g := fun sc => sc.quota.toNat) hbt
    simp only [SubContainer.quota_resized] at hsum
    have hquota := quotaOf_of_back hb
    show (t.ec.modifyBack id fun sc => sc.resized minQuota).totalQuota + _ = _
    unfold totalQuota at *
    rw [List.map_append, List.sum_append, List.map_singleton, List.sum_singleton, hquota,
      List.length_append, List.length_singleton, Nat.add_mul, Nat.one_mul]
    omega

/-- **What a pass does**, whether it comes to its end or gets stuck. -/
theorem wp_sweep (h : SweptTo m done t) (hnd : (done ++ ids).Nodup) :
    wp (ids.forM (checkIdleContainer env)) (fun _ => SweptTo m (done ++ m.swept env ids))
      (fun _ => SweptTo m (done ++ m.swept env ids)) t := by
  induction ids generalizing done t with
  | nil =>
    unfold swept
    rw [List.takeWhile_nil, List.filter_nil, List.append_nil]
    exact h
  | cons id ids ih =>
    have hid : id ∉ done := fun hmem =>
      List.disjoint_of_nodup_append hnd hmem List.mem_cons_self
    have hrest : (done ++ ids).Nodup :=
      hnd.sublist ((List.sublist_cons_self id ids).append_left done)
    have hvisit : t.visit env id = m.visit env id := visit_congr (h.back? hid) h.agent
    show wp (checkIdleContainer env id >>= fun _ => ids.forM (checkIdleContainer env)) _ _ t
    rw [wp_bind]
    refine wp_checkIdleContainer_of (fun hv e m' hm => ?_) (fun hv m' n hm => ?_)
      (fun hv m' n hm => ?_)
    all_goals rw [hvisit] at hv
    · have hswept : m.swept env (id :: ids) = [] := by
        unfold swept
        rw [List.takeWhile_cons, if_neg (by simp [hv]), List.filter_nil]
      rw [hswept, List.append_nil]
      exact h.of_frame (n := m'.idleContainerSyscallSeqNum) hm
    · have hswept : m.swept env (id :: ids) = m.swept env ids := by
        unfold swept
        rw [List.takeWhile_cons, if_pos (by simp [hv]), List.filter_cons, if_neg (by simp [hv])]
      rw [hswept]
      exact ih (h.of_frame hm) hrest
    · have hswept : m.swept env (id :: ids) = id :: m.swept env ids := by
        unfold swept
        rw [List.takeWhile_cons, if_pos (by simp [hv]), List.filter_cons, if_pos (by simp [hv])]
      have hquota : t.quotaOf id = m.quotaOf id := by
        unfold quotaOf
        rw [h.back? hid]
      obtain ⟨sc, hb, _⟩ := idle_of_shrinks hv
      rw [hswept, List.append_cons, hquota]
      refine ih ?_ ?_
      · have hframe := h.of_frame (n := m'.idleContainerSyscallSeqNum) hm
        have hshrunk := hframe.shrink hid hb
        exact ⟨hshrunk.lookup, hshrunk.agent, hshrunk.cpu, hshrunk.total⟩
      · rw [List.append_assoc]
        exact hnd

/-! ## What it should do -/

/-- The quotas registered under an id, oldest first. -/
def quotas (m : Manager) (id : ContainerId) : Option (List UInt64) :=
  (m.ec.subcontainers.lookup id).map (List.map (·.quota))

/-- Quotas above the minimum of idle containers have been lowered to it; the pool has what they
lost, and the allocated total lacks it. -/
structure OnlyReclaims (m : Manager) (env : Env) (m' : Manager) : Prop where
  quotas : ∀ id, m'.quotas id = m.quotas id ∨
    ∃ l sc, m.ec.subcontainers.lookup id = some (l ++ [sc]) ∧ sc.checkIfIdle env.now = true ∧
      minQuota < sc.quota ∧ m'.quotas id = some (l.map (·.quota) ++ [minQuota])
  lowered : m'.ec.totalQuota ≤ m.ec.totalQuota
  unallocatedRt : m'.ec.cpu.unallocatedRt.toNat =
    m.ec.cpu.unallocatedRt.toNat + (m.ec.totalQuota - m'.ec.totalQuota)
  allocRt : m'.ec.cpu.allocRt.toNat + (m.ec.totalQuota - m'.ec.totalQuota) =
    m.ec.cpu.allocRt.toNat

/-- What a pass has to free, container by container. -/
def toFree (m : Manager) (ids : List ContainerId) : List UInt64 :=
  ids.map fun id => m.quotaOf id - minQuota

/-- Every container the pass sets is above the minimum, and what this frees has room in the pool
and can be taken from what was allocated. -/
structure Sweepable (m : Manager) (env : Env) : Prop where
  above : ∀ id ∈ m.swept env m.ec.subcontainers.keys, minQuota ≤ m.quotaOf id
  room : m.ec.cpu.unallocatedRt.toNat + wordSum (m.toFree (m.swept env m.ec.subcontainers.keys)) <
    2 ^ 64
  allocated : DrawsAll m.ec.cpu.allocRt (m.toFree (m.swept env m.ec.subcontainers.keys))

theorem sum_quotas (hids : ∀ id ∈ ids, minQuota ≤ m.quotaOf id) :
    (ids.map fun id => (m.quotaOf id).toNat).sum =
      wordSum (m.toFree ids) + ids.length * minQuota.toNat := by
  unfold toFree
  induction ids with
  | nil => rfl
  | cons id ids ih =>
    have hle := hids id List.mem_cons_self
    have hsub := UInt64.toNat_sub_of_le _ _ hle
    have hrest := ih fun id' hid' => hids id' (List.mem_cons_of_mem _ hid')
    rw [UInt64.le_iff_toNat_le] at hle
    rw [List.map_cons, List.map_cons, List.sum_cons, wordSum_cons, List.length_cons, Nat.add_mul,
      Nat.one_mul, hrest]
    omega

/-- What the pool gets, one quota after the other. -/
theorem unallocatedRt_gives {c : Global.Cpu}
    (hroom : c.unallocatedRt.toNat + wordSum (m.toFree ids) < 2 ^ 64) :
    (ids.foldl (fun c id => (Transfer.give (m.quotaOf id - minQuota)).apply c)
      c).unallocatedRt.toNat = c.unallocatedRt.toNat + wordSum (m.toFree ids) := by
  induction ids generalizing c with
  | nil => rfl
  | cons id ids ih =>
    have hfree : wordSum (m.toFree (id :: ids)) =
        (m.quotaOf id - minQuota).toNat + wordSum (m.toFree ids) := wordSum_cons _ _
    have hpool : ((Transfer.give (m.quotaOf id - minQuota)).apply c).unallocatedRt.toNat =
        c.unallocatedRt.toNat + (m.quotaOf id - minQuota).toNat := add_toNat_of_lt (by omega)
    rw [List.foldl_cons, ih (by omega)]
    omega

/-- What it costs the allocated total. -/
theorem allocRt_gives {c : Global.Cpu} :
    (ids.foldl (fun c id => (Transfer.give (m.quotaOf id - minQuota)).apply c) c).allocRt =
      (m.toFree ids).foldl satSub c.allocRt := by
  induction ids generalizing c with
  | nil => rfl
  | cons id ids ih =>
    rw [List.foldl_cons, ih]
    rfl

theorem mem_swept (h : id ∈ m.swept env ids) : m.visit env id = .shrinks :=
  of_decide_eq_true (List.mem_filter.mp h).2

theorem SweptTo.quotas_of_mem (h : SweptTo m done t) (hid : id ∈ done)
    (hb : m.ec.back? id = some sc) :
    ∃ l, m.ec.subcontainers.lookup id = some (l ++ [sc]) ∧
      t.quotas id = some (l.map (·.quota) ++ [minQuota]) := by
  obtain ⟨l, hl⟩ := lookup_of_back? hb
  refine ⟨l, hl, ?_⟩
  unfold quotas
  rw [h.lookup, if_pos hid, hl, Option.map_some, Option.map_some, List.modifyLast_concat,
    List.map_append]
  rfl

theorem SweptTo.onlyReclaims (h : SweptTo m (m.swept env m.ec.subcontainers.keys) t)
    (hsafe : m.Sweepable env) : OnlyReclaims m env t := by
  have hsum := sum_quotas hsafe.above
  have htotal := h.total
  have hpool := unallocatedRt_gives hsafe.room
  have hheld := drawsAll_iff.mp hsafe.allocated
  rw [← allocRt_gives] at hheld
  rw [← h.cpu] at hpool hheld
  refine ⟨fun id => ?_, by omega, by omega, by omega⟩
  by_cases hid : id ∈ m.swept env m.ec.subcontainers.keys
  · obtain ⟨sc, hb, hidle, hne⟩ := idle_of_shrinks (mem_swept hid)
    obtain ⟨l, hl, hquotas⟩ := h.quotas_of_mem hid hb
    have hle := hsafe.above id hid
    rw [quotaOf_of_back hb] at hle
    exact .inr ⟨l, sc, hl, hidle, UInt64.lt_of_le_of_ne hle hne.symm, hquotas⟩
  · refine .inl ?_
    unfold quotas
    rw [h.lookup, if_neg hid]

/-- A container that was set to the minimum was above it. -/
theorem OnlyReclaims.above (hr : OnlyReclaims m env t)
    (h : SweptTo m (m.swept env m.ec.subcontainers.keys) t)
    (hid : id ∈ m.swept env m.ec.subcontainers.keys) : minQuota ≤ m.quotaOf id := by
  obtain ⟨sc, hb, _, hne⟩ := idle_of_shrinks (mem_swept hid)
  obtain ⟨l, hl, hquotas⟩ := h.quotas_of_mem hid hb
  rw [quotaOf_of_back hb]
  rcases hr.quotas id with hsame | ⟨l', sc', hl', _, hlt, _⟩
  · unfold Manager.quotas at hsame hquotas
    rw [hquotas, hl, Option.map_some, List.map_append] at hsame
    have hlast := List.append_cancel_left (Option.some.inj hsame)
    exact absurd (List.cons.inj hlast).1.symm hne
  · rw [hl] at hl'
    obtain ⟨_, hsc⟩ := List.append_inj' (Option.some.inj hl') rfl
    rw [(List.cons.inj hsc).1]
    exact UInt64.le_of_lt hlt

theorem OnlyReclaims.sweepable (hr : OnlyReclaims m env t)
    (h : SweptTo m (m.swept env m.ec.subcontainers.keys) t) : m.Sweepable env := by
  have habove : ∀ id ∈ m.swept env m.ec.subcontainers.keys, minQuota ≤ m.quotaOf id :=
    fun _ hid => hr.above h hid
  have hsum := sum_quotas habove
  have htotal := h.total
  have hpool := hr.unallocatedRt
  have hheld := hr.allocRt
  have := t.ec.cpu.unallocatedRt.toNat_lt
  refine ⟨habove, by omega, drawsAll_iff.mpr ?_⟩
  rw [← allocRt_gives, ← h.cpu]
  omega

theorem sweptTo_state : SweptTo m (m.swept env m.ec.subcontainers.keys)
    ((checkForIdleContainers env).run m).state := by
  refine wp_state_iff.mp ?_
  unfold checkForIdleContainers
  rw [wp_bind, wp_get]
  have h0 : SweptTo m [] m := by
    refine ⟨fun id => ?_, fun _ => rfl, rfl, ?_⟩
    · rw [if_neg List.not_mem_nil]
    · simp
  rw [← List.nil_append (m.swept env _)]
  exact wp_sweep h0 (AList.keys_nodup m.ec.subcontainers)

/-- **A pass only reclaims** exactly when every container it sets is above the minimum and the
counters have room for what that frees. -/
theorem onlyReclaims_iff_sweepable :
    OnlyReclaims m env ((checkForIdleContainers env).run m).state ↔ m.Sweepable env :=
  ⟨fun hr => hr.sweepable sweptTo_state, fun hsafe => sweptTo_state.onlyReclaims hsafe⟩

instance : Decidable (m.Sweepable env) :=
  decidable_of_iff
    ((∀ id ∈ m.swept env m.ec.subcontainers.keys, minQuota ≤ m.quotaOf id) ∧
      m.ec.cpu.unallocatedRt.toNat + wordSum (m.toFree (m.swept env m.ec.subcontainers.keys)) <
        2 ^ 64 ∧
      DrawsAll m.ec.cpu.allocRt (m.toFree (m.swept env m.ec.subcontainers.keys)))
    ⟨fun h => ⟨h.1, h.2.1, h.2.2⟩, fun h => ⟨h.above, h.room, h.allocated⟩⟩

/-- Three seconds after the last sign of life. -/
def idleEnv : Env := .uniform 3000000000 0 0 0 0

/-- A container with half a core gives back a fifth of a core. -/
theorem onlyReclaims_of_half_core :
    ∃ m, gcm.Run (.new oneAgent) m ∧ m.swept idleEnv m.ec.subcontainers.keys = [⟨1, node⟩] ∧
      OnlyReclaims m idleEnv ((checkForIdleContainers idleEnv).run m).state := by
  have hreplay : ((gcm.replay
      [.appSpec ⟨1000, 100⟩, deliver 0 (msgOf 1 initReq 50000000 0)] (.new oneAgent)).any fun m =>
        m.swept idleEnv m.ec.subcontainers.keys = [⟨1, node⟩] ∧ m.Sweepable idleEnv) = true := by
    decide +kernel
  obtain ⟨m, hrun, hm⟩ := System.exists_run_of_replay hreplay
  obtain ⟨hswept, hsafe⟩ := of_decide_eq_true hm
  exact ⟨m, hrun, hswept, onlyReclaims_iff_sweepable.mpr hsafe⟩

/-- A container with a microsecond is set to 30% of a core, at the expense of the pool. -/
theorem idle_sweep_raises_quota :
    ¬ ∀ (db : UnorderedMap Ip4Addr AgentClient) (m : Manager) (env : Env), gcm.Run (.new db) m →
      OnlyReclaims m env ((checkForIdleContainers env).run m).state := by
  intro hclaim
  have hreplay : ((gcm.replay [.appSpec ⟨1000, 100⟩, connect 1 8] (.new oneAgent)).any fun m =>
      ¬ m.Sweepable idleEnv) = true := by
    decide +kernel
  obtain ⟨m, hrun, hnot⟩ := System.exists_run_of_replay hreplay
  exact of_decide_eq_true hnot ((hclaim oneAgent m idleEnv hrun).sweepable sweptTo_state)

end Manager

end EcGcm
