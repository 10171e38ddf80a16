import EcGcm.Proof.Agents

/-!
# What a reclaim pass can do

`reclaim` looks at one container: it leaves it alone, or shrinks it to its usage and the margin and
reports the pages it freed. It does not come back when cAdvisor does not answer, or when there is
something to shrink and the agent is missing or does not answer. A pass adds the reports up;
crediting the pool with the sum is somebody else's business.

The tasks of `handle_reclaim_memory` all run, whatever becomes of the others. But if they all come
back, they have done what a pass of one container after the other does
(`run_handleReclaimMemory_iff`).

The condition for a shrink (`Manager.Reclaimable`) is stated on the state before the pass, with
the unsigned difference the source takes: a container that uses more than its limit counts as
having a lot to give.
-/

set_option autoImplicit false

namespace EcGcm.Manager

open Handler

variable {m m' : Manager} {env : Env} {id : ContainerId} {sc : SubContainer}

/-- cAdvisor is not asked for the usage, or answers. -/
def ReadsUsage (m : Manager) (env : Env) (id : ContainerId) (sc : SubContainer) : Prop :=
  m.ec.agent? id = none ∨ sc.dockerId = "" ∨ (env.getContMemUsage id).isSome

instance (m : Manager) (env : Env) (id : ContainerId) (sc : SubContainer) :
    Decidable (m.ReadsUsage env id sc) := inferInstanceAs (Decidable (_ ∨ _ ∨ _))

/-- The usage the reclaim reads: 0 without an agent or a docker id. -/
def usageOf (m : Manager) (env : Env) (id : ContainerId) (sc : SubContainer) : UInt64 :=
  if m.ec.agent? id = none ∨ sc.dockerId = "" then 0 else (env.getContMemUsage id).getD 0

/-- What a shrunk container is shrunk to, in bytes. -/
def resizeTarget (m : Manager) (env : Env) (id : ContainerId) (sc : SubContainer) : UInt64 :=
  m.usageOf env id sc + safeMarginBytes

/-- There is a reading, it is valid, and the limit is more than the margin above it. -/
def Reclaimable (m : Manager) (env : Env) (id : ContainerId) (sc : SubContainer) : Prop :=
  m.ReadsUsage env id sc ∧ m.usageOf env id sc ≠ (0 - 1) * 4096 ∧
    pageToByte sc.memLimitInPages - m.usageOf env id sc > safeMarginBytes

instance (m : Manager) (env : Env) (id : ContainerId) (sc : SubContainer) :
    Decidable (m.Reclaimable env id sc) := inferInstanceAs (Decidable (_ ∧ _ ∧ _))

/-- The test passes, and the agent makes the resize. -/
def Shrinks (m : Manager) (env : Env) (id : ContainerId) (sc : SubContainer) : Prop :=
  m.Reclaimable env id sc ∧ m.ec.agent? id ≠ none ∧ env.resizeMemoryLimitPages id = some 0

instance (m : Manager) (env : Env) (id : ContainerId) (sc : SubContainer) :
    Decidable (m.Shrinks env id sc) := inferInstanceAs (Decidable (_ ∧ _ ∧ _))

/-- Everybody who is asked answers, and nobody is missing. -/
def Answered (m : Manager) (env : Env) (id : ContainerId) (sc : SubContainer) : Prop :=
  m.ReadsUsage env id sc ∧
    (m.Reclaimable env id sc →
      (m.ec.agent? id).isSome ∧ (env.resizeMemoryLimitPages id).isSome)

instance (m : Manager) (env : Env) (id : ContainerId) (sc : SubContainer) :
    Decidable (m.Answered env id sc) := inferInstanceAs (Decidable (_ ∧ (_ → _)))

theorem Shrinks.answered (h : m.Shrinks env id sc) : m.Answered env id sc :=
  ⟨h.1.1, fun _ => ⟨Option.isSome_iff_ne_none.mpr h.2.1, by rw [h.2.2]; rfl⟩⟩

/-- All containers but those on the requester's socket get their answers. -/
def Served (m : Manager) (env : Env) (clientFd : Int) : Prop :=
  ∀ id sc, m.ec.back? id = some sc → sc.fd ≠ clientFd → m.Answered env id sc

theorem usageOf_congr (h : ∀ id, m'.ec.agent? id = m.ec.agent? id) :
    m'.usageOf env id sc = m.usageOf env id sc := by
  unfold usageOf
  rw [h id]

theorem resizeTarget_congr (h : ∀ id, m'.ec.agent? id = m.ec.agent? id) :
    m'.resizeTarget env id sc = m.resizeTarget env id sc := by
  unfold resizeTarget
  rw [usageOf_congr h]

theorem usageOf_setMemLimitInPages {limit : UInt64} :
    m.usageOf env id (sc.setMemLimitInPages limit) = m.usageOf env id sc := rfl

theorem readsUsage_congr (h : ∀ id, m'.ec.agent? id = m.ec.agent? id) :
    m'.ReadsUsage env id sc ↔ m.ReadsUsage env id sc := by
  unfold ReadsUsage
  rw [h id]

theorem reclaimable_congr (h : ∀ id, m'.ec.agent? id = m.ec.agent? id) :
    m'.Reclaimable env id sc ↔ m.Reclaimable env id sc := by
  unfold Reclaimable
  rw [readsUsage_congr h, usageOf_congr h]

theorem shrinks_congr (h : ∀ id, m'.ec.agent? id = m.ec.agent? id) :
    m'.Shrinks env id sc ↔ m.Shrinks env id sc := by
  unfold Shrinks
  rw [reclaimable_congr h, h id]

theorem answered_congr (h : ∀ id, m'.ec.agent? id = m.ec.agent? id) :
    m'.Answered env id sc ↔ m.Answered env id sc := by
  unfold Answered
  rw [readsUsage_congr h, reclaimable_congr h, h id]

/-- A shrink changes the limit, whatever the unsigned arithmetic makes of the reading. -/
theorem byteToPage_resizeTarget_ne (hr : m.Reclaimable env id sc) :
    byteToPage (m.resizeTarget env id sc) ≠ sc.memLimitInPages := by
  obtain ⟨_, _, hgap⟩ := hr
  have hmargin : safeMarginBytes.toNat = 52428800 := rfl
  have hpage : (4096 : UInt64).toNat = 4096 := rfl
  have hlimit := sc.memLimitInPages.toNat_lt
  have husage := (m.usageOf env id sc).toNat_lt
  rw [gt_iff_lt, UInt64.lt_iff_toNat_lt, UInt64.toNat_sub, pageToByte, UInt64.toNat_mul, hpage,
    hmargin] at hgap
  intro heq
  have hnat := congrArg UInt64.toNat heq
  rw [byteToPage, resizeTarget, UInt64.toNat_div, UInt64.toNat_add, hpage, hmargin] at hnat
  omega

/-- With an agent, the reading leaves nothing behind. -/
theorem run_scGetMemoryUsageInBytesCadvisor {agent : AgentClient}
    (hagent : m.ec.agent? id = some agent) (hread : m.ReadsUsage env id sc) :
    (scGetMemoryUsageInBytesCadvisor env id sc.dockerId).run m = .ret (m.usageOf env id sc) m := by
  unfold scGetMemoryUsageInBytesCadvisor usageOf
  rw [run_bind_of_ret (getCorresAgentClient_of_agent hagent), hagent]
  dsimp only
  by_cases hdocker : sc.dockerId = ""
  · rw [if_pos hdocker, if_pos (.inr hdocker)]
    rfl
  · have hlinked : m.ec.agent? id ≠ none := by
      rw [hagent]
      exact Option.some_ne_none agent
    have hsome := hread.resolve_left hlinked |>.resolve_left hdocker
    obtain ⟨usage, husage⟩ := Option.isSome_iff_exists.mp hsome
    rw [if_neg hdocker, if_neg (by simp [hdocker]), husage]
    rfl

/-- With an agent, the RPC answers what the agent does, or never comes back. -/
theorem run_scResizeMemoryLimitInPages (env : Env) {agent : AgentClient}
    (hagent : m.ec.agent? id = some agent) :
    (scResizeMemoryLimitInPages env id).run m =
      (answer .hang (env.resizeMemoryLimitPages id)).run m :=
  (run_bind_of_ret (getCorresAgentClient_of_agent hagent)).trans rfl

theorem wp_scGetMemoryUsageInBytesCadvisor {Q : UInt64 → Manager → Prop}
    {E : Halt → Manager → Prop}
    (hlost : ∀ e m', AgentFrame m m' → ¬ m.ReadsUsage env id sc → E e m')
    (hQ : ∀ m', AgentFrame m m' → m.ReadsUsage env id sc → Q (m.usageOf env id sc) m') :
    wp (scGetMemoryUsageInBytesCadvisor env id sc.dockerId) Q E m := by
  unfold scGetMemoryUsageInBytesCadvisor
  rw [wp_bind]
  refine wp_getCorresAgentClient fun m' hm => ?_
  have h := hQ m' hm
  have hl := hlost .throw m' hm
  unfold ReadsUsage at h hl
  unfold usageOf at h
  cases hagent : m.ec.agent? id with
  | none =>
    rw [hagent, if_pos (.inl rfl)] at h
    exact h (.inl rfl)
  | some agent =>
    rw [hagent] at h hl
    dsimp only
    rw [wp_ite]
    split
    · rename_i hdocker
      rw [if_pos (.inr hdocker)] at h
      exact h (.inr (.inl hdocker))
    · rename_i hdocker
      rw [if_neg (by simp [hdocker])] at h
      cases husage : env.getContMemUsage id with
      | none =>
        rw [husage] at hl
        exact hl (by simp [hdocker])
      | some usage =>
        rw [husage] at h
        exact h (.inr (.inr rfl))

theorem wp_scResizeMemoryLimitInPages {Q : Int → Manager → Prop} {E : Halt → Manager → Prop}
    (hlost : ∀ e m', AgentFrame m m' →
      ¬ ((m.ec.agent? id).isSome ∧ (env.resizeMemoryLimitPages id).isSome) → E e m')
    (hret : ∀ m' status, AgentFrame m m' → m.ec.agent? id ≠ none →
      env.resizeMemoryLimitPages id = some status → Q status m') :
    wp (scResizeMemoryLimitInPages env id) Q E m := by
  unfold scResizeMemoryLimitInPages
  rw [wp_bind]
  refine wp_getCorresAgentClient fun m' hm => ?_
  cases hagent : m.ec.agent? id with
  | none =>
    refine hlost .exit m' hm fun h => ?_
    rw [hagent] at h
    cases h.1
  | some agent =>
    dsimp only
    cases hstatus : env.resizeMemoryLimitPages id with
    | none =>
      refine hlost .hang m' hm fun h => ?_
      rw [hstatus] at h
      cases h.2
    | some status => exact hret m' status hm (by rw [hagent]; nofun) hstatus

/-- The rule for one container. -/
theorem wp_reclaim {Q : UInt64 → Manager → Prop} {E : Halt → Manager → Prop}
    (hb : m.ec.back? id = some sc) (hid : sc.cId = id)
    (hkept : ∀ m', AgentFrame m m' → m.Answered env id sc → ¬ m.Shrinks env id sc → Q 0 m')
    (hlost : ∀ e m', AgentFrame m m' → ¬ m.Answered env id sc → E e m')
    (hshrunk : ∀ m', AgentFrame m m' → m.Shrinks env id sc →
      Q (byteToPage (pageToByte sc.memLimitInPages - m.resizeTarget env id sc))
        { m' with ec := m'.ec.modifyBack id fun sc' =>
          sc'.setMemLimitInPages (byteToPage (m.resizeTarget env id sc)) }) :
    wp (reclaim env id sc) Q E m := by
  have hleft : m.ReadsUsage env id sc → ¬ m.Reclaimable env id sc → ∀ m', AgentFrame m m' →
      Q 0 m' := fun hread hnot m' hm =>
    hkept m' hm ⟨hread, fun hr => absurd hr hnot⟩ fun hs => hnot hs.1
  unfold reclaim
  rw [wp_bind]
  refine wp_scGetMemoryUsageInBytesCadvisor (fun e m₁ h₁ hnot => ?_) (fun m₁ h₁ hread => ?_)
  · exact hlost e m₁ h₁ fun h => hnot h.1
  · rw [wp_ite]
    split
    · rename_i hmark
      exact hleft hread (fun hr => hr.2.1 hmark) m₁ h₁
    · rename_i hvalid
      rw [wp_ite]
      split
      · rename_i hgap
        have hr : m.Reclaimable env id sc := ⟨hread, hvalid, hgap⟩
        rw [wp_bind]
        refine wp_scResizeMemoryLimitInPages (fun e m₂ h₂ hnot => ?_)
          (fun m₂ status h₂ hagent hstatus => ?_)
        · refine hlost e m₂ (h₁.trans h₂) fun h => hnot ?_
          rw [h₁.agent?]
          exact h.2 hr
        · have h₁₂ := h₁.trans h₂
          rw [h₁.agent?] at hagent
          rw [wp_ite]
          split
          · rename_i hzero
            have hb₂ : m₂.ec.back? sc.cId = some sc := by
              rw [hid, h₁₂.back? id]
              exact hb
            unfold scSetMemoryLimitInPages
            rw [wp_bind, wp_bind, wp_ecGetScForUpdate hb₂, hid]
            exact hshrunk m₂ h₁₂ ⟨hr, hagent, hstatus.trans (congrArg some hzero)⟩
          · rename_i hfailed
            refine hkept m₂ h₁₂ ⟨hread, fun _ => ⟨Option.isSome_iff_ne_none.mpr hagent, ?_⟩⟩
              fun hs => ?_
            · rw [hstatus]
              rfl
            · exact hfailed (Option.some.inj (hstatus.symm.trans hs.2.2))
      · rename_i hgap
        exact hleft hread (fun hr => hgap hr.2.2) m₁ h₁

/-- One container, then the rest: the first report is added to what the rest frees. -/
theorem wp_reclaimFrom_cons {keep : SubContainer → Bool} {Q : UInt64 → Manager → Prop}
    {E : Halt → Manager → Prop} {ids : List ContainerId}
    (hundef : m.ec.back? id = none → E .undef m)
    (hkept : ∀ sc, m.ec.back? id = some sc → keep sc = true → wp (reclaimFrom env keep ids) Q E m)
    (hreclaim : ∀ sc, m.ec.back? id = some sc → keep sc = false →
      wp (reclaim env id sc) (fun amnt t =>
        wp (reclaimFrom env keep ids) (fun r t' => Q (amnt + r) t') E t) E m) :
    wp (reclaimFrom env keep (id :: ids)) Q E m := by
  show wp (backOf id >>= _) Q E m
  rw [wp_bind]
  refine wp_backOf_of (fun sc hb => ?_) hundef
  dsimp only
  cases hk : keep sc with
  | true =>
    rw [if_pos rfl, wp_bind, wp_pure, wp_bind]
    refine wp_mono_ret (hkept sc hb hk) fun r t hr => ?_
    rw [wp_pure, UInt64.zero_add]
    exact hr
  | false =>
    rw [if_neg Bool.false_ne_true, wp_bind]
    refine wp_mono_ret (hreclaim sc hb hk) fun amnt t ht => ?_
    rw [wp_bind]
    exact ht

/-- The rule for a pass: `P` relates what has been freed so far to the state. -/
theorem wp_reclaimFrom {keep : SubContainer → Bool} {P : UInt64 → Manager → Prop}
    {E : Halt → Manager → Prop} {ids : List ContainerId} (h0 : P 0 m)
    (hundef : ∀ acc t, ∀ id ∈ ids, P acc t → t.ec.back? id = none → E .undef t)
    (hreclaim : ∀ acc t, ∀ id ∈ ids, ∀ sc, P acc t → t.ec.back? id = some sc → keep sc = false →
      wp (reclaim env id sc) (fun amnt t' => P (acc + amnt) t') E t) :
    wp (reclaimFrom env keep ids) P E m := by
  have hgen : ∀ (ids' : List ContainerId), ids' ⊆ ids → ∀ acc t, P acc t →
      wp (reclaimFrom env keep ids') (fun r t' => P (acc + r) t') E t := by
    intro ids'
    induction ids' with
    | nil =>
      intro _ acc t ht
      show P (acc + 0) t
      rwa [UInt64.add_zero]
    | cons id rest ih =>
      intro hsub acc t ht
      have hmem : id ∈ ids := hsub List.mem_cons_self
      have hrest : rest ⊆ ids := fun i hi => hsub (List.mem_cons_of_mem _ hi)
      refine wp_reclaimFrom_cons (hundef acc t id hmem ht) (fun sc hb hk => ih hrest acc t ht)
        (fun sc hb hk => ?_)
      refine wp_mono_ret (hreclaim acc t id hmem sc ht hb hk) fun amnt t' h' => ?_
      have h := ih hrest (acc + amnt) t' h'
      simp only [UInt64.add_assoc] at h
      exact h
  have h := hgen ids (List.Subset.refl _) 0 m h0
  simp only [UInt64.zero_add] at h
  exact h

/-! ## The tasks of a pass -/

section Tasks

variable {clientFd : Int} {ids : List ContainerId} {r : UInt64}

/-- The tasks all come back exactly when a pass of one container after the other does. -/
theorem run_launchFrom_iff :
    (∃ amounts : List UInt64, (launchFrom env clientFd ids).run m = .ret (amounts.map .ok) m' ∧
      amounts.sum = r) ↔
      (reclaimFrom env (fun sc => sc.fd = clientFd) ids).run m = .ret r m' := by
  induction ids generalizing m r with
  | nil =>
    constructor
    · rintro ⟨amounts, hrun, rfl⟩
      cases amounts with
      | nil =>
        cases hrun
        rfl
      | cons amnt amounts => cases hrun
    · intro hrun
      cases hrun
      exact ⟨[], rfl, rfl⟩
  | cons id ids ih =>
    unfold launchFrom reclaimFrom
    cases hb : m.ec.back? id with
    | none =>
      rw [run_bind_of_halt (run_backOf_of_absent hb), run_bind_of_halt (run_backOf_of_absent hb)]
      exact ⟨nofun, nofun⟩
    | some sc =>
      simp only [run_bind_of_ret (run_backOf hb), decide_eq_true_eq]
      by_cases hfd : sc.fd = clientFd
      · simp only [if_pos hfd]
        rw [ih, run_bind_of_ret (rfl : (pure (0 : UInt64) : M UInt64).run m = .ret 0 m),
          run_bind_eq_ret]
        constructor
        · intro hrest
          refine ⟨r, m', hrest, ?_⟩
          rw [UInt64.zero_add]
          rfl
        · rintro ⟨rest, t, hrest, hret⟩
          cases hret
          rw [UInt64.zero_add]
          exact hrest
      · simp only [if_neg hfd]
        rw [run_bind_eq_ret]
        constructor
        · rintro ⟨amounts, hrun, rfl⟩
          obtain ⟨reclaimed, t, htask, hrun⟩ := run_bind_eq_ret.mp hrun
          obtain ⟨futures, t', hfutures, hret⟩ := run_bind_eq_ret.mp hrun
          cases amounts with
          | nil => cases hret
          | cons amnt amounts =>
            cases hret
            have hrest := ih.mp ⟨amounts, hfutures, rfl⟩
            exact ⟨amnt, t, run_task_eq_ok.mp htask, (run_bind_of_ret hrest).trans rfl⟩
        · rintro ⟨amnt, t, hrun, hrest⟩
          obtain ⟨rest, t', hrest, hret⟩ := run_bind_eq_ret.mp hrest
          cases hret
          obtain ⟨amounts, hfutures, rfl⟩ := ih.mpr hrest
          refine ⟨amnt :: amounts, ?_, rfl⟩
          rw [run_bind_of_ret (run_task_eq_ok.mpr hrun), run_bind_of_ret hfutures]
          rfl

/-- What is known of what a pass of one container after the other returns is true of the tasks. -/
theorem run_handleReclaimMemory_iff :
    (handleReclaimMemory env clientFd).run m = .ret r m' ↔
      (reclaimFrom env (fun sc => sc.fd = clientFd) m.ec.subcontainers.keys).run m = .ret r m' := by
  rw [← run_launchFrom_iff]
  unfold handleReclaimMemory
  rw [run_bind_of_ret run_get, run_bind_eq_ret]
  constructor
  · rintro ⟨futures, t, hfutures, hrun⟩
    obtain ⟨amounts, t', hcollect, hret⟩ := run_bind_eq_ret.mp hrun
    cases hret
    unfold collect at hcollect
    split at hcollect
    · rename_i amounts' hresults
      cases hcollect
      obtain rfl := results_eq_ok.mp hresults
      exact ⟨amounts, hfutures, rfl⟩
    · cases hcollect
  · rintro ⟨amounts, hfutures, rfl⟩
    refine ⟨_, m', hfutures, ?_⟩
    have hcollect : (collect (amounts.map .ok) : M (List UInt64)).run m' = .ret amounts m' := by
      unfold collect
      rw [results_eq_ok.mpr rfl]
      rfl
    exact (run_bind_of_ret hcollect).trans rfl

/-- The rule: a result is one of the sequential pass, and where there is none, `P` is the reason. -/
theorem wp_handleReclaimMemory {Q : UInt64 → Manager → Prop} {P : Prop}
    (h : wp (reclaimFrom env (fun sc => sc.fd = clientFd) m.ec.subcontainers.keys) Q
      (fun _ _ => P) m) :
    wp (handleReclaimMemory env clientFd) Q (fun _ _ => P) m := by
  unfold wp
  split
  · rename_i r m' hrun
    exact (wp_of_run (run_handleReclaimMemory_iff.mp hrun)).mp h
  · rename_i e m' hrun
    unfold wp at h
    cases hpass : (reclaimFrom env (fun sc => sc.fd = clientFd) m.ec.subcontainers.keys).run m with
    | ret r s =>
      rw [run_handleReclaimMemory_iff.mpr hpass] at hrun
      cases hrun
    | halt e' s =>
      rw [hpass] at h
      exact h

end Tasks

/-! ## Memory requests -/

/-- `ec_update_reclaim_memory_in_pages`, on the counters. -/
def credited (freed : UInt64) (g : Global.Mem) : Global.Mem :=
  (g.incrUnallocatedMemoryInPages freed).decrAllocatedMemoryInPages freed.toInt64

/-- `ec_update_alloc_memory_in_pages`, on the counters. -/
def charged (pages : UInt64) (g : Global.Mem) : Global.Mem :=
  (g.decrUnallocatedMemoryInPages pages).incrAllocatedMemoryInPages pages.toInt64

theorem wp_ecUpdateReclaimMemoryInPages {mem : UInt64} {Q : PUnit → Manager → Prop}
    {E : Halt → Manager → Prop} :
    wp (ecUpdateReclaimMemoryInPages mem) Q E m ↔
      Q ⟨⟩ { m with ec := { m.ec with mem := credited mem m.ec.mem } } := Iff.rfl

theorem wp_ecUpdateAllocMemoryInPages {mem : UInt64} {Q : PUnit → Manager → Prop}
    {E : Halt → Manager → Prop} :
    wp (ecUpdateAllocMemoryInPages mem) Q E m ↔
      Q ⟨⟩ { m with ec := { m.ec with mem := charged mem m.ec.mem } } := Iff.rfl

/-- The rule for a grant: the pool is charged first, then the requester is looked up. -/
theorem wp_grantMemory {req : Msg} {memoryAvailable : Int64} {Q : AllocRet × Msg → Manager → Prop}
    {E : Halt → Manager → Prop}
    (hhalt : m.ec.back? req.containerId = none → ∀ e, E e { m with ec :=
      { m.ec with mem := charged (grantOf m.ec.mem.sliceSize memoryAvailable) m.ec.mem } })
    (hret : ∀ sc, m.ec.back? req.containerId = some sc →
      Q (.allocSuccess,
        { req with
          rsrcAmnt := req.rsrcAmnt + grantOf m.ec.mem.sliceSize memoryAvailable, request := 0 })
      { m with ec := ({ m.ec with
          mem := charged (grantOf m.ec.mem.sliceSize memoryAvailable) m.ec.mem } :
            ElasticContainer).modifyBack req.containerId fun sc =>
              sc.setMemLimitInPages (req.rsrcAmnt + grantOf m.ec.mem.sliceSize memoryAvailable) }) :
    wp (grantMemory req memoryAvailable) Q E m := by
  unfold grantMemory
  rw [wp_bind, wp_get, wp_bind, wp_ecUpdateAllocMemoryInPages, wp_bind]
  exact wp_ecGetScForUpdate_of (fun sc hb => hret sc hb) hhalt

/-- `memlock` has been left locked. -/
def memLocked (m : Manager) : Manager := { m with memlock := true }

theorem wp_handleMemReq {req : Msg} {clifd : Int} {Q : AllocRet × Msg → Manager → Prop}
    {E : Halt → Manager → Prop} (ht : req.reqType = memReq) :
    wp (handleMemReq env req clifd) Q E m ↔
      if m.memlock then E .hang m
      else wp (serveMemReq env req clifd) Q (fun e t => E e t.memLocked) m := by
  unfold handleMemReq
  rw [if_neg (by simp [ht]), wp_locked]
  exact Iff.rfl

theorem wp_handleMemReq_of_pool {req : Msg} {clifd : Int} {Q : AllocRet × Msg → Manager → Prop}
    {E : Halt → Manager → Prop} (ht : req.reqType = memReq) (hlocked : m.memlock = true → E .hang m)
    (hpool : m.ec.mem.unallocatedMemoryInPages > 0)
    (h : wp (grantMemory req m.ec.mem.unallocatedMemoryInPages) Q (fun e t => E e t.memLocked) m) :
    wp (handleMemReq env req clifd) Q E m := by
  rw [wp_handleMemReq ht]
  split
  · rename_i htaken
    exact hlocked htaken
  · unfold serveMemReq
    rw [wp_bind, wp_get, wp_ite, if_pos hpool]
    exact h

theorem wp_modifyMem_modifyMem {f f' : Global.Mem → Global.Mem} {Q : PUnit → Manager → Prop}
    {E : Halt → Manager → Prop}
    (h : Q ⟨⟩ { m with ec := { m.ec with mem := f' (f m.ec.mem) } }) :
    wp (modifyMem f >>= fun _ => modifyMem f') Q E m := h

/-- A negative pool is filled up like a credit of its absolute value. -/
def filledUp (memoryAvailable : Int64) (g : Global.Mem) : Global.Mem :=
  credited (memoryAvailable * -1).toUInt64 g

theorem wp_fillNegativePool {memoryAvailable : Int64} {Q : PUnit → Manager → Prop}
    {E : Halt → Manager → Prop}
    (h : Q ⟨⟩ { m with ec := { m.ec with mem := filledUp memoryAvailable m.ec.mem } }) :
    wp (fillNegativePool memoryAvailable) Q E m := by
  unfold fillNegativePool
  refine wp_modifyMem_modifyMem ?_
  unfold filledUp credited at h
  rw [Int64.toInt64_toUInt64] at h
  exact h

theorem wp_credit_then_grant {req : Msg} {freed : UInt64} {g₀ : Global.Mem}
    {Q : AllocRet × Msg → Manager → Prop} {E : Halt → Manager → Prop}
    (h : ∀ g, g = g₀ → wp (grantMemory req (credited freed g).unallocatedMemoryInPages) Q E
      { m with ec := { m.ec with mem := credited freed g } }) :
    wp (ecUpdateReclaimMemoryInPages freed >>= fun _ => get >>= fun m : Manager =>
      grantMemory req m.ec.mem.unallocatedMemoryInPages) Q E
      { m with ec := { m.ec with mem := g₀ } } := by
  rw [wp_bind, wp_ecUpdateReclaimMemoryInPages, wp_bind, wp_get]
  exact h g₀ rfl

/-- The rule for a request to an empty pool. -/
theorem wp_handleMemReq_of_empty {req : Msg} {clifd : Int} {Q : AllocRet × Msg → Manager → Prop}
    {E : Halt → Manager → Prop} (ht : req.reqType = memReq) (hlocked : m.memlock = true → E .hang m)
    (hpool : ¬ m.ec.mem.unallocatedMemoryInPages > 0)
    (h : wp (handleReclaimMemory env clifd) (fun freed t =>
      (freed = 0 → Q (.allocMemFailed, { req with rsrcAmnt := 0 }) t) ∧
      (freed > 0 → m.ec.mem.unallocatedMemoryInPages < 0 → ∀ g,
        g = filledUp m.ec.mem.unallocatedMemoryInPages t.ec.mem →
        wp (grantMemory req (credited freed g).unallocatedMemoryInPages) Q
          (fun e t => E e t.memLocked) { t with ec := { t.ec with mem := credited freed g } }) ∧
      (freed > 0 → ¬ m.ec.mem.unallocatedMemoryInPages < 0 →
        wp (grantMemory req (credited freed t.ec.mem).unallocatedMemoryInPages) Q
          (fun e t => E e t.memLocked)
          { t with ec := { t.ec with mem := credited freed t.ec.mem } }))
      (fun e t => E e t.memLocked) m) :
    wp (handleMemReq env req clifd) Q E m := by
  rw [wp_handleMemReq ht]
  split
  · rename_i htaken
    exact hlocked htaken
  unfold serveMemReq
  rw [wp_bind, wp_get, wp_ite, if_neg hpool, wp_bind]
  refine wp_mono_ret h fun freed t hfreed => ?_
  obtain ⟨hzero, hneg, hnonneg⟩ := hfreed
  rw [wp_ite]
  split
  · rename_i hpos
    rw [wp_ite]
    split
    · rename_i hlt
      rw [wp_bind]
      refine wp_fillNegativePool ?_
      exact wp_credit_then_grant (hneg hpos hlt)
    · rename_i hlt
      rw [wp_bind, wp_ecUpdateReclaimMemoryInPages, wp_bind, wp_get]
      exact hnonneg hpos hlt
  · rename_i hpos
    refine hzero ?_
    rw [gt_iff_lt, UInt64.lt_iff_toNat_lt] at hpos
    have hzero : (0 : UInt64).toNat = 0 := rfl
    rw [← UInt64.toNat_inj]
    omega

end EcGcm.Manager
