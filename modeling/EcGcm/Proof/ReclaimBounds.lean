import EcGcm.Proof.Quiet
import EcGcm.Proof.Reclaim

/-!
# Pages that were there

What a reclaim reports as freed goes into the pool, so it should have been part of a limit. The
test in front of a shrink is an unsigned difference, `limit - usage > margin`, and passes when the
usage is the larger of the two. `Manager.GivesHeld` says that it does not pass for that reason: a
shrink that is made leaves the container what it uses, the margin, and at most what it had.

A container that has just been shrunk is not shrunk again (`not_reclaimable_shrunk`), so a pass
may be followed container by container with `GivesHeld` stated on the state before it.
-/

set_option autoImplicit false

namespace EcGcm.Manager

open Handler ElasticContainer

variable {m m' : Manager} {env : Env} {id : ContainerId} {sc : SubContainer}
  {keep : SubContainer → Bool}

/-- Usage and margin are below the limit, as numbers of bytes. -/
def BelowLimit (m : Manager) (env : Env) (id : ContainerId) (sc : SubContainer) : Prop :=
  (m.usageOf env id sc).toNat + safeMarginBytes.toNat < sc.memLimitInPages.toNat * 4096

/-- A container is shrunk only when there is something to take. -/
def GivesHeld (m : Manager) (env : Env) (id : ContainerId) (sc : SubContainer) : Prop :=
  m.Shrinks env id sc → m.BelowLimit env id sc

instance : Decidable (m.BelowLimit env id sc) := inferInstanceAs (Decidable (_ < _))

instance : Decidable (m.GivesHeld env id sc) := inferInstanceAs (Decidable (_ → _))

/-- What one reclaim may report and leave behind. -/
structure Reclaimed (m : Manager) (env : Env) (id : ContainerId) (sc : SubContainer)
    (freed : UInt64) (m' : Manager) : Prop where
  freed_le : freed ≤ sc.memLimitInPages
  limit_le : ∃ sc', m'.ec.back? id = some sc' ∧ sc'.memLimitInPages ≤ sc.memLimitInPages
  untouched : ¬ m.BelowLimit env id sc → freed = 0 ∧ m'.ec.back? id = some sc

/-! ## Page arithmetic -/

theorem reclaimable_toNat (hr : m.Reclaimable env id sc) :
    52428800 < (2 ^ 64 - (m.usageOf env id sc).toNat + sc.memLimitInPages.toNat * 4096 % 2 ^ 64) %
      2 ^ 64 := by
  have hgap := hr.2.2
  rw [gt_iff_lt, UInt64.lt_iff_toNat_lt, UInt64.toNat_sub, pageToByte, UInt64.toNat_mul] at hgap
  exact hgap

/-- What is left and what is freed were there before. -/
theorem pages_le_of_belowLimit (h : m.BelowLimit env id sc) :
    (byteToPage (m.resizeTarget env id sc)).toNat +
      (byteToPage (pageToByte sc.memLimitInPages - m.resizeTarget env id sc)).toNat ≤
      sc.memLimitInPages.toNat := by
  have hmargin : safeMarginBytes.toNat = 52428800 := rfl
  have hpage : (4096 : UInt64).toNat = 4096 := rfl
  have husage := (m.usageOf env id sc).toNat_lt
  unfold BelowLimit at h
  rw [hmargin] at h
  simp only [byteToPage, resizeTarget, pageToByte, UInt64.toNat_div, UInt64.toNat_sub,
    UInt64.toNat_add, UInt64.toNat_mul, hpage, hmargin]
  omega

/-- After a shrink the limit is within the margin of the usage. -/
theorem not_reclaimable_shrunk :
    ¬ m.Reclaimable env id (sc.setMemLimitInPages (byteToPage (m.resizeTarget env id sc))) := by
  intro hr
  have hgap := reclaimable_toNat hr
  have hmargin : safeMarginBytes.toNat = 52428800 := rfl
  have hpage : (4096 : UInt64).toNat = 4096 := rfl
  have husage := (m.usageOf env id sc).toNat_lt
  rw [usageOf_setMemLimitInPages, SubContainer.memLimitInPages_setMemLimitInPages, byteToPage,
    resizeTarget, UInt64.toNat_div, UInt64.toNat_add, hpage, hmargin] at hgap
  omega

/-- A container that can still be shrunk after a shrink is another one. -/
theorem back?_of_reclaimable {t : Manager} {id' : ContainerId} {sc' : SubContainer}
    (hb : t.ec.back? id = some sc)
    (hb' : (t.ec.modifyBack id fun sc' =>
      sc'.setMemLimitInPages (byteToPage (t.resizeTarget env id sc))).back? id' = some sc')
    (hr : t.Reclaimable env id' sc') : t.ec.back? id' = some sc' := by
  by_cases hid : id' = id
  · subst hid
    have hnew := back?_modifyBack (f := fun sc' : SubContainer =>
      sc'.setMemLimitInPages (byteToPage (t.resizeTarget env id' sc))) hb
    obtain rfl := Option.some.inj (hb'.symm.trans hnew)
    exact absurd hr not_reclaimable_shrunk
  · exact (back?_modifyBack_ne hid).symm.trans hb'

/-! ## One container -/

theorem reclaimed_of_kept (hb : m.ec.back? id = some sc) (hm : AgentFrame m m') :
    Reclaimed m env id sc 0 m' :=
  have hb' : m'.ec.back? id = some sc := (hm.back? id).trans hb
  ⟨UInt64.zero_le, ⟨sc, hb', UInt64.le_refl _⟩, fun _ => ⟨rfl, hb'⟩⟩

theorem wp_reclaim_of_givesHeld (hb : m.ec.back? id = some sc) (hid : sc.cId = id)
    (hgives : m.GivesHeld env id sc) :
    wp (reclaim env id sc) (Reclaimed m env id sc) (fun _ _ => True) m := by
  refine wp_reclaim hb hid (fun m' hm _ _ => reclaimed_of_kept hb hm) (fun _ _ _ _ => trivial) ?_
  intro m' hm hshrinks
  have hbelow := hgives hshrinks
  have hpages := pages_le_of_belowLimit hbelow
  refine ⟨?_, ⟨_, back?_modifyBack ((hm.back? id).trans hb), ?_⟩, fun h => absurd hbelow h⟩
  · rw [UInt64.le_iff_toNat_le]
    omega
  · rw [SubContainer.memLimitInPages_setMemLimitInPages, UInt64.le_iff_toNat_le]
    omega

/-- A shrink that should not have been made has been made. -/
theorem not_reclaimed_of_not_givesHeld (hb : m.ec.back? id = some sc) (hid : sc.cId = id)
    (hgives : ¬ m.GivesHeld env id sc) :
    wp (reclaim env id sc) (fun freed m' => ¬ Reclaimed m env id sc freed m')
      (fun _ _ => False) m := by
  obtain ⟨hshrinks, hbelow⟩ := Classical.not_imp.mp hgives
  refine wp_reclaim hb hid (fun _ _ _ hkept => absurd hshrinks hkept)
    (fun _ _ _ hlost => hlost hshrinks.answered) ?_
  · intro m' hm _ hreclaimed
    have hsame := (hreclaimed.untouched hbelow).2
    have hnew := back?_modifyBack (f := fun sc' =>
      sc'.setMemLimitInPages (byteToPage (m.resizeTarget env id sc))) ((hm.back? id).trans hb)
    have heq := Option.some.inj (hnew.symm.trans hsame)
    refine byteToPage_resizeTarget_ne hshrinks.1 ?_
    have hlimit := congrArg SubContainer.memLimitInPages heq
    rw [SubContainer.memLimitInPages_setMemLimitInPages] at hlimit
    exact hlimit

theorem reclaimed_iff_givesHeld (hb : m.ec.back? id = some sc) (hid : sc.cId = id) :
    wp (reclaim env id sc) (Reclaimed m env id sc) (fun _ _ => True) m ↔ m.GivesHeld env id sc := by
  constructor
  · intro h
    by_contra hgives
    have hboth := wp_and (not_reclaimed_of_not_givesHeld hb hid hgives) h
    obtain ⟨freed, m', _, hnot, hreclaimed⟩ := wp_total.mp hboth
    exact hnot hreclaimed
  · exact wp_reclaim_of_givesHeld hb hid

/-! ## A pass -/

/-- Every container the pass looks at. -/
def PassGivesHeld (m : Manager) (env : Env) (keep : SubContainer → Bool) : Prop :=
  ∀ id ∈ m.ec.subcontainers.keys, ∀ sc ∈ m.ec.back? id, keep sc = false → m.GivesHeld env id sc

instance : Decidable (m.PassGivesHeld env keep) := inferInstanceAs (Decidable (∀ id ∈ _, _))

/-- What holds between two containers of a pass. -/
structure Freed (m : Manager) (env : Env) (keep : SubContainer → Bool) (freed : UInt64)
    (t : Manager) : Prop where
  queued : t.ec.Queued
  mem : t.ec.mem = m.ec.mem
  limits : t.ec.totalLimit + freed.toNat ≤ m.ec.totalLimit
  gives : ∀ id sc, t.ec.back? id = some sc → keep sc = false → t.GivesHeld env id sc

theorem givesHeld_congr (h : ∀ id, m'.ec.agent? id = m.ec.agent? id) :
    m'.GivesHeld env id sc ↔ m.GivesHeld env id sc := by
  unfold GivesHeld BelowLimit
  rw [shrinks_congr h, usageOf_congr h]

theorem Freed.start (hq : m.ec.Queued) (hgives : m.PassGivesHeld env keep) :
    Freed m env keep 0 m := by
  refine ⟨hq, rfl, Nat.le_refl _, fun id sc hb hk => ?_⟩
  obtain ⟨l, hl⟩ := lookup_of_back? hb
  exact hgives id (UnorderedMap.mem_keys_iff_lookup.mpr ⟨_, hl⟩) sc hb hk

theorem Freed.of_frame {freed : UInt64} {t t' : Manager} (h : Freed m env keep freed t)
    (ht : AgentFrame t t') : Freed m env keep freed t' where
  queued := ht.quiet.queued h.queued
  mem := ht.mem.trans h.mem
  limits := by
    unfold totalLimit sumOver at *
    rw [ht.subcontainers]
    exact h.limits
  gives id sc hb hk := by
    rw [givesHeld_congr ht.agent?]
    exact h.gives id sc ((ht.back? id).symm.trans hb) hk

theorem Freed.shrink {acc : UInt64} {t : Manager} (h : Freed m env keep acc t)
    (hb : t.ec.back? id = some sc) (hbelow : t.BelowLimit env id sc) :
    Freed m env keep
      (acc + byteToPage (pageToByte sc.memLimitInPages - t.resizeTarget env id sc))
      { t with ec := t.ec.modifyBack id fun sc' =>
        sc'.setMemLimitInPages (byteToPage (t.resizeTarget env id sc)) } := by
  have hpages := pages_le_of_belowLimit hbelow
  have hagent : ∀ id', (t.ec.modifyBack id fun sc' =>
      sc'.setMemLimitInPages (byteToPage (t.resizeTarget env id sc))).agent? id' =
      t.ec.agent? id' := agent?_congr scAcMap_modifyBack
  refine ⟨h.queued.modifyBack fun _ => SubContainer.cId_setMemLimitInPages,
    mem_modifyBack.trans h.mem, ?_, fun id' sc' hb' hk' => ?_⟩
  · have hlimits := h.limits
    have hsum := sumOver_modifyBack (f := fun sc' : SubContainer =>
      sc'.setMemLimitInPages (byteToPage (t.resizeTarget env id sc)))
      (g := fun sc => sc.memLimitInPages.toNat) hb
    simp only [SubContainer.memLimitInPages_setMemLimitInPages] at hsum
    unfold totalLimit at *
    dsimp only
    rw [UInt64.toNat_add]
    have := Nat.mod_le (acc.toNat +
      (byteToPage (pageToByte sc.memLimitInPages - t.resizeTarget env id sc)).toNat) (2 ^ 64)
    omega
  · rw [givesHeld_congr hagent]
    intro hshrinks
    exact h.gives id' sc' (back?_of_reclaimable hb hb' hshrinks.1) hk' hshrinks

theorem wp_reclaimFrom_freed {ids : List ContainerId} (hq : m.ec.Queued)
    (hgives : m.PassGivesHeld env keep) :
    wp (reclaimFrom env keep ids) (Freed m env keep) (fun _ _ => True) m := by
  refine wp_reclaimFrom (.start hq hgives) (fun _ _ _ _ _ _ => trivial) ?_
  intro acc t id _ sc h hb hk
  refine wp_reclaim hb (h.queued.cId_of_back hb) (fun t' ht _ _ => ?_) (fun _ _ _ _ => trivial) ?_
  · rw [UInt64.add_zero]
    exact h.of_frame ht
  · intro t' ht hshrinks
    have hbelow := h.gives id sc hb hk hshrinks
    have hbelow' : t'.BelowLimit env id sc := by
      unfold BelowLimit at *
      rw [usageOf_congr ht.agent?]
      exact hbelow
    have hshrunk := (h.of_frame ht).shrink ((ht.back? id).trans hb) hbelow'
    rw [resizeTarget_congr ht.agent?] at hshrunk
    exact hshrunk

theorem wp_periodicReclaim_of_givesHeld (hq : m.ec.Queued)
    (hgives : m.PassGivesHeld env fun _ => false) :
    wp (periodicReclaim env) (fun _ m' =>
      m'.ec.mem.unallocatedMemoryInPages.toInt + m'.ec.totalLimit ≤
        m.ec.mem.unallocatedMemoryInPages.toInt + m.ec.totalLimit) (fun _ _ => True) m := by
  unfold periodicReclaim
  rw [wp_bind, wp_get, wp_bind]
  refine wp_mono_ret (wp_reclaimFrom_freed hq hgives) fun freed t ht => ?_
  have hlimits := ht.limits
  have hmem := ht.mem
  rw [wp_ite]
  split
  · rw [wp_ecUpdateReclaimMemoryInPages]
    unfold credited
    dsimp only
    rw [Global.Mem.unallocated_decrAllocated, hmem]
    have hpool : (m.ec.mem.incrUnallocatedMemoryInPages freed).unallocatedMemoryInPages.toInt ≤
        m.ec.mem.unallocatedMemoryInPages.toInt + freed.toNat := Word.toInt_add_word_le
    show _ + (t.ec.totalLimit : Int) ≤ _
    omega
  · rw [wp_pure, hmem]
    omega

/-- **A reclaim frees only what was there** exactly when the test in front of it is not passed by
a usage above the limit, and a pass over containers of this kind credits no more than they held. -/
theorem reclaim_frees_held_iff {db : UnorderedMap Ip4Addr AgentClient}
    (hrun : gcm.Run (.new db) m) (env : Env) :
    (∀ id sc, m.ec.back? id = some sc →
      (wp (reclaim env id sc) (Reclaimed m env id sc) (fun _ _ => True) m ↔
        m.GivesHeld env id sc)) ∧
    (∀ clientFd, (m.PassGivesHeld env fun sc => sc.fd = clientFd) →
      wp (handleReclaimMemory env clientFd)
        (fun freed m' => m'.ec.totalLimit + freed.toNat ≤ m.ec.totalLimit) (fun _ _ => True) m) ∧
    ((m.PassGivesHeld env fun _ => false) →
      wp (periodicReclaim env) (fun _ m' =>
        m'.ec.mem.unallocatedMemoryInPages.toInt + m'.ec.totalLimit ≤
          m.ec.mem.unallocatedMemoryInPages.toInt + m.ec.totalLimit) (fun _ _ => True) m) := by
  have hq := queued_of_run hrun
  refine ⟨fun id sc hb => reclaimed_iff_givesHeld hb (hq.cId_of_back hb), fun clientFd hgives => ?_,
    wp_periodicReclaim_of_givesHeld hq⟩
  refine wp_handleReclaimMemory ?_
  exact wp_mono_ret (wp_reclaimFrom_freed hq hgives) fun _ _ ht => ht.limits

/-- A container whose docker id is known, with a limit of 100 MiB, that uses 400 KiB. -/
theorem reclaim_frees_held_of_small_usage :
    ∃ m sc, gcm.Run (.new oneAgent) m ∧ m.ec.back? ⟨1, node⟩ = some sc ∧
      m.Shrinks (.uniform 0 0 0 409600 0) ⟨1, node⟩ sc ∧
      wp (reclaim (.uniform 0 0 0 409600 0) ⟨1, node⟩ sc)
        (Reclaimed m (.uniform 0 0 0 409600 0) ⟨1, node⟩ sc) (fun _ _ => True) m := by
  have hreplay : ((gcm.replay
      [.appSpec ⟨1000, 100⟩, connect 1 8, .podSpec (specOf 1 "a"),
        .memLimit (.uniform 0 0 0 0 104857600) ⟨1, node⟩ 8] (.new oneAgent)).any fun m =>
      (m.ec.back? ⟨1, node⟩).any fun sc =>
        m.Reclaimable (.uniform 0 0 0 409600 0) ⟨1, node⟩ sc ∧ m.ec.agent? ⟨1, node⟩ ≠ none ∧
        m.BelowLimit (.uniform 0 0 0 409600 0) ⟨1, node⟩ sc) = true := by
    decide +kernel
  obtain ⟨m, hrun, hany⟩ := System.exists_run_of_replay hreplay
  obtain ⟨sc, hb, hsc⟩ := (Option.any_eq_true ..).mp hany
  obtain ⟨hr, hagent, hbelow⟩ := of_decide_eq_true hsc
  exact ⟨m, sc, hrun, hb, ⟨hr, hagent, rfl⟩,
    ((reclaim_frees_held_iff hrun _).1 _ sc hb).mpr fun _ => hbelow⟩

/-- A container whose limit has not been read yet, and which uses one page: it is taken for one
that has `2^52` pages to give. -/
theorem reclaim_frees_pages_of_nowhere :
    ¬ ∀ (db : UnorderedMap Ip4Addr AgentClient) (m : Manager) (env : Env) (id : ContainerId)
      (sc : SubContainer), gcm.Run (.new db) m → m.ec.back? id = some sc →
      wp (reclaim env id sc) (Reclaimed m env id sc) (fun _ _ => True) m := by
  intro hclaim
  have hreplay : ((gcm.replay
      [.appSpec ⟨1000, 100⟩, connect 1 8, .podSpec (specOf 1 "a")] (.new oneAgent)).any fun m =>
      (m.ec.back? ⟨1, node⟩).any fun sc =>
        ¬ m.GivesHeld (.uniform 0 0 0 4096 0) ⟨1, node⟩ sc) = true := by
    decide +kernel
  obtain ⟨m, hrun, hany⟩ := System.exists_run_of_replay hreplay
  obtain ⟨sc, hb, hsc⟩ := (Option.any_eq_true ..).mp hany
  have hcId := (queued_of_run hrun).cId_of_back hb
  have hreclaimed := hclaim oneAgent m (.uniform 0 0 0 4096 0) ⟨1, node⟩ sc hrun hb
  exact of_decide_eq_true hsc ((reclaimed_iff_givesHeld hb hcId).mp hreclaimed)

end EcGcm.Manager
