import EcGcm.Proof.ReclaimBounds

/-!
# The page that gets lost

`byte_to_page` is written with a `ceil`, but the division inside it is one of integers, so it
rounds down. A shrink applies it twice: to the target, usage and margin, which becomes the new
limit, and to the bytes above the target, which become the pages freed. Both roundings throw the
same partial page away. When the usage is a whole number of pages nothing is lost and the limit
covers usage and margin (`Manager.Accounted`). For every other usage one page leaves the limit and
is not reported, and the new limit is up to a page short of the margin.

A container that is shrunk by just that page reports none at all. A memory request that looks at
it alone fails with "no memory available!", and has shrunk it.
-/

set_option autoImplicit false

namespace EcGcm.Manager

open Handler ElasticContainer

variable {m m' : Manager} {env : Env} {id : ContainerId} {sc : SubContainer}
  {keep : SubContainer → Bool}

/-- The container uses no more than its limit. -/
def UsedWithin (m : Manager) (env : Env) (id : ContainerId) (sc : SubContainer) : Prop :=
  (m.usageOf env id sc).toNat ≤ sc.memLimitInPages.toNat * 4096

/-- The usage is a whole number of pages. The two bounds only speak of limits beyond `2^52` pages,
whose number of bytes does not fit a word. -/
def WholePages (m : Manager) (env : Env) (id : ContainerId) (sc : SubContainer) : Prop :=
  (m.usageOf env id sc).toNat % 4096 = 0 ∧
    (m.usageOf env id sc).toNat + safeMarginBytes.toNat < 2 ^ 64 ∧
    sc.memLimitInPages.toNat * 4096 < (m.usageOf env id sc).toNat + 2 ^ 64

instance : Decidable (m.UsedWithin env id sc) := inferInstanceAs (Decidable (_ ≤ _))

instance : Decidable (m.WholePages env id sc) := inferInstanceAs (Decidable (_ ∧ _ ∧ _))

/-- Every page of the old limit is in the new one or has been reported, and a container that has
been shrunk keeps its usage and the margin. -/
structure Accounted (m : Manager) (env : Env) (id : ContainerId) (sc : SubContainer)
    (freed : UInt64) (m' : Manager) : Prop where
  pages : ∃ sc', m'.ec.back? id = some sc' ∧
    sc'.memLimitInPages.toNat + freed.toNat = sc.memLimitInPages.toNat ∧
    (m.Shrinks env id sc → (m.usageOf env id sc).toNat + safeMarginBytes.toNat ≤
      sc'.memLimitInPages.toNat * 4096)

/-! ## The two roundings -/

/-- Both equations of a shrink hold for whole pages only. -/
theorem shrunk_pages_iff (hr : m.Reclaimable env id sc) (hu : m.UsedWithin env id sc) :
    ((byteToPage (m.resizeTarget env id sc)).toNat +
        (byteToPage (pageToByte sc.memLimitInPages - m.resizeTarget env id sc)).toNat =
        sc.memLimitInPages.toNat ∧
      (m.usageOf env id sc).toNat + safeMarginBytes.toNat ≤
        (byteToPage (m.resizeTarget env id sc)).toNat * 4096) ↔ m.WholePages env id sc := by
  have hgap := reclaimable_toNat hr
  have hmargin : safeMarginBytes.toNat = 52428800 := rfl
  have hpage : (4096 : UInt64).toNat = 4096 := rfl
  have husage := (m.usageOf env id sc).toNat_lt
  unfold UsedWithin at hu
  unfold WholePages
  simp only [byteToPage, resizeTarget, pageToByte, UInt64.toNat_div, UInt64.toNat_sub,
    UInt64.toNat_add, UInt64.toNat_mul, hpage, hmargin]
  -- both sides are about the residue of the usage, and about two sums that must not wrap
  generalize (m.usageOf env id sc).toNat = u at *
  generalize sc.memLimitInPages.toNat = limit at *
  omega

theorem belowLimit_of_wholePages (hr : m.Reclaimable env id sc) (hu : m.UsedWithin env id sc)
    (hw : m.WholePages env id sc) : m.BelowLimit env id sc := by
  have hgap := reclaimable_toNat hr
  have hmargin : safeMarginBytes.toNat = 52428800 := rfl
  obtain ⟨_, _, hbytes⟩ := hw
  unfold UsedWithin at hu
  unfold BelowLimit
  rw [hmargin]
  omega

/-- A shrink of whole pages reports at least one. -/
theorem freed_ne_zero (hr : m.Reclaimable env id sc) (hw : m.WholePages env id sc) :
    byteToPage (pageToByte sc.memLimitInPages - m.resizeTarget env id sc) ≠ 0 := by
  have hgap := reclaimable_toNat hr
  have hmargin : safeMarginBytes.toNat = 52428800 := rfl
  have hpage : (4096 : UInt64).toNat = 4096 := rfl
  obtain ⟨haligned, _, _⟩ := hw
  intro hzero
  have hnat := congrArg UInt64.toNat hzero
  have husage := (m.usageOf env id sc).toNat_lt
  simp only [byteToPage, resizeTarget, pageToByte, UInt64.toNat_div, UInt64.toNat_sub,
    UInt64.toNat_add, UInt64.toNat_mul, hpage, hmargin, UInt64.toNat_zero] at hnat
  omega

/-! ## One container -/

theorem accounted_of_kept (hb : m.ec.back? id = some sc) (hm : AgentFrame m m')
    (hkept : ¬ m.Shrinks env id sc) : Accounted m env id sc 0 m' :=
  ⟨sc, (hm.back? id).trans hb, Nat.add_zero _, fun hs => absurd hs hkept⟩

/-- What a shrink leaves is accounted for when the usage is in whole pages, and only then. -/
theorem accounted_shrunk_iff (hb : m.ec.back? id = some sc) (hm : AgentFrame m m')
    (hs : m.Shrinks env id sc) (hu : m.UsedWithin env id sc) :
    Accounted m env id sc
      (byteToPage (pageToByte sc.memLimitInPages - m.resizeTarget env id sc))
      { m' with ec := m'.ec.modifyBack id fun sc' =>
        sc'.setMemLimitInPages (byteToPage (m.resizeTarget env id sc)) } ↔
      m.WholePages env id sc := by
  have hnew := back?_modifyBack (f := fun sc' : SubContainer =>
    sc'.setMemLimitInPages (byteToPage (m.resizeTarget env id sc))) ((hm.back? id).trans hb)
  rw [← shrunk_pages_iff hs.1 hu]
  constructor
  · rintro ⟨sc', hb', hpages, hmargin⟩
    obtain rfl := Option.some.inj (hb'.symm.trans hnew)
    exact ⟨hpages, hmargin hs⟩
  · rintro ⟨hpages, hmargin⟩
    exact ⟨_, hnew, hpages, fun _ => hmargin⟩

theorem accounted_iff (hb : m.ec.back? id = some sc) (hid : sc.cId = id)
    (hu : m.UsedWithin env id sc) :
    wp (reclaim env id sc) (Accounted m env id sc) (fun _ _ => True) m ↔
      (m.Shrinks env id sc → m.WholePages env id sc) := by
  constructor
  · intro h hs
    -- the shrink is made, so `Accounted` speaks of what it leaves
    have hwhole : wp (reclaim env id sc)
        (fun freed m' => Accounted m env id sc freed m' → m.WholePages env id sc)
        (fun _ _ => False) m := by
      refine wp_reclaim hb hid (fun _ _ _ hkept => absurd hs hkept)
        (fun _ _ _ hlost => hlost hs.answered) fun m' hm _ => ?_
      exact (accounted_shrunk_iff hb hm hs hu).mp
    obtain ⟨freed, m', _, himp, haccounted⟩ := wp_total.mp (wp_and hwhole h)
    exact himp haccounted
  · intro hw
    refine wp_reclaim hb hid (fun m' hm _ hkept => accounted_of_kept hb hm hkept)
      (fun _ _ _ _ => trivial) fun m' hm hs => ?_
    exact (accounted_shrunk_iff hb hm hs hu).mpr (hw hs)

/-! ## A pass -/

/-- Every container the pass looks at uses no more than its limit, and whole pages if it is
shrunk. -/
def PassWholePages (m : Manager) (env : Env) (keep : SubContainer → Bool) : Prop :=
  ∀ id ∈ m.ec.subcontainers.keys, ∀ sc ∈ m.ec.back? id, keep sc = false →
    m.UsedWithin env id sc ∧ (m.Shrinks env id sc → m.WholePages env id sc)

instance : Decidable (m.PassWholePages env keep) := inferInstanceAs (Decidable (∀ id ∈ _, _))

theorem PassWholePages.givesHeld (h : m.PassWholePages env keep) : m.PassGivesHeld env keep := by
  intro id hid sc hb hk hs
  obtain ⟨hu, hw⟩ := h id hid sc hb hk
  exact belowLimit_of_wholePages hs.1 hu (hw hs)

/-- What holds between two containers of a pass that loses no page: as long as nothing has been
reported, nothing has been shrunk. -/
structure Reported (m : Manager) (env : Env) (keep : SubContainer → Bool) (freed : UInt64)
    (t : Manager) : Prop extends Freed m env keep freed t where
  whole : ∀ id sc, t.ec.back? id = some sc → keep sc = false → t.Shrinks env id sc →
    t.WholePages env id sc
  unshrunk : freed = 0 → t.ec.subcontainers = m.ec.subcontainers

theorem wholePages_congr (h : ∀ id, m'.ec.agent? id = m.ec.agent? id) :
    m'.WholePages env id sc ↔ m.WholePages env id sc := by
  unfold WholePages
  rw [usageOf_congr h]

theorem Reported.of_frame {freed : UInt64} {t t' : Manager} (h : Reported m env keep freed t)
    (ht : AgentFrame t t') : Reported m env keep freed t' where
  toFreed := h.toFreed.of_frame ht
  whole id sc hb hk hs := by
    rw [wholePages_congr ht.agent?]
    exact h.whole id sc ((ht.back? id).symm.trans hb) hk ((shrinks_congr ht.agent?).mp hs)
  unshrunk hzero := ht.subcontainers.trans (h.unshrunk hzero)

theorem Reported.shrink {acc : UInt64} {t : Manager} (h : Reported m env keep acc t)
    (hsmall : m.ec.totalLimit < 2 ^ 64) (hb : t.ec.back? id = some sc) (hk : keep sc = false)
    (hs : t.Shrinks env id sc) :
    Reported m env keep
      (acc + byteToPage (pageToByte sc.memLimitInPages - t.resizeTarget env id sc))
      { t with ec := t.ec.modifyBack id fun sc' =>
        sc'.setMemLimitInPages (byteToPage (t.resizeTarget env id sc)) } := by
  have hbelow := h.gives id sc hb hk hs
  have hagent : ∀ id', (t.ec.modifyBack id fun sc' =>
      sc'.setMemLimitInPages (byteToPage (t.resizeTarget env id sc))).agent? id' =
      t.ec.agent? id' := agent?_congr scAcMap_modifyBack
  refine ⟨h.toFreed.shrink hb hbelow, fun id' sc' hb' hk' hs' => ?_, fun hzero => ?_⟩
  · have hold := (shrinks_congr hagent).mp hs'
    rw [wholePages_congr hagent]
    exact h.whole id' sc' (back?_of_reclaimable hb hb' hold.1) hk' hold
  · -- the sum does not wrap, so it is zero only if the last report is
    exfalso
    have hpages := pages_le_of_belowLimit hbelow
    have hlimits := h.limits
    have hlimit : sc.memLimitInPages.toNat ≤ t.ec.totalLimit :=
      le_sumOver (g := fun sc => sc.memLimitInPages.toNat) hb
    have hnat := congrArg UInt64.toNat hzero
    rw [Word.add_toNat_of_lt (by omega), UInt64.toNat_zero] at hnat
    refine freed_ne_zero hs.1 (h.whole id sc hb hk hs) (UInt64.toNat_inj.mp ?_)
    rw [UInt64.toNat_zero]
    omega

theorem wp_reclaimFrom_reported {ids : List ContainerId} (hq : m.ec.Queued)
    (hsmall : m.ec.totalLimit < 2 ^ 64) (hwhole : m.PassWholePages env keep) :
    wp (reclaimFrom env keep ids) (Reported m env keep) (fun _ _ => True) m := by
  have h0 : Reported m env keep 0 m := by
    refine ⟨.start hq hwhole.givesHeld, fun id sc hb hk => ?_, fun _ => rfl⟩
    obtain ⟨l, hl⟩ := lookup_of_back? hb
    exact (hwhole id (UnorderedMap.mem_keys_iff_lookup.mpr ⟨_, hl⟩) sc hb hk).2
  refine wp_reclaimFrom h0 (fun _ _ _ _ _ _ => trivial) ?_
  intro acc t id _ sc h hb hk
  refine wp_reclaim hb (h.queued.cId_of_back hb) (fun t' ht _ _ => ?_) (fun _ _ _ _ => trivial) ?_
  · rw [UInt64.add_zero]
    exact h.of_frame ht
  · intro t' ht hs
    have hshrunk := (h.of_frame ht).shrink hsmall ((ht.back? id).trans hb) hk
      ((shrinks_congr ht.agent?).mpr hs)
    rw [resizeTarget_congr ht.agent?] at hshrunk
    exact hshrunk

/-- A failed request has shrunk nobody. -/
theorem wp_handleMemReq_unshrunk {req : Msg} {clifd : Int} (hq : m.ec.Queued)
    (hsmall : m.ec.totalLimit < 2 ^ 64) (hwhole : m.PassWholePages env fun sc => sc.fd = clifd) :
    wp (handleMemReq env req clifd)
      (fun r m' => r.1 = .allocMemFailed → m'.ec.subcontainers = m.ec.subcontainers)
      (fun _ _ => True) m := by
  have hgranted : ∀ (t : Manager) (avail : Int64), wp (grantMemory req avail)
      (fun r m' => r.1 = .allocMemFailed → m'.ec.subcontainers = m.ec.subcontainers)
      (fun _ _ => True) t := by
    intro t avail
    exact wp_grantMemory (fun _ _ => trivial) fun _ _ => nofun
  by_cases ht : req.reqType = memReq
  · by_cases hpool : m.ec.mem.unallocatedMemoryInPages > 0
    · exact wp_handleMemReq_of_pool ht (fun _ => trivial) hpool (hgranted m _)
    · refine wp_handleMemReq_of_empty ht (fun _ => trivial) hpool (wp_handleReclaimMemory ?_)
      refine wp_mono_ret (wp_reclaimFrom_reported hq hsmall hwhole) fun freed t hpass => ?_
      exact ⟨fun hzero _ => hpass.unshrunk hzero, fun _ _ _ _ => hgranted _ _,
        fun _ _ => hgranted _ _⟩
  · unfold handleMemReq
    rw [wp_ite, if_pos ht]
    exact fun _ => rfl

/-- **A reclaim accounts for every page and keeps the margin** exactly when the usage it reads is a
whole number of pages, and a request that fails among containers of this kind has left all of them
as they were. `Queued` holds in every reachable state. -/
theorem reclaim_accounts_iff (hq : m.ec.Queued) (env : Env) :
    (∀ id sc, m.ec.back? id = some sc → m.UsedWithin env id sc →
      (wp (reclaim env id sc) (Accounted m env id sc) (fun _ _ => True) m ↔
        (m.Shrinks env id sc → m.WholePages env id sc))) ∧
    (∀ req clifd, m.ec.totalLimit < 2 ^ 64 → (m.PassWholePages env fun sc => sc.fd = clifd) →
      wp (handleMemReq env req clifd)
        (fun r m' => r.1 = .allocMemFailed → m'.ec.subcontainers = m.ec.subcontainers)
        (fun _ _ => True) m) :=
  ⟨fun _ _ hb hu => accounted_iff hb (hq.cId_of_back hb) hu,
    fun _ _ hsmall hwhole => wp_handleMemReq_unshrunk hq hsmall hwhole⟩

/-- Container 1 holds all of the application, and container 2 has just connected. -/
def fullRun : List Event :=
  [.appSpec ⟨1000, 100⟩, connect 1 8, .podSpec (specOf 1 "a"),
    .memLimit (.uniform 0 0 0 0 104857600) ⟨1, node⟩ 8, connect 2 9]

/-- Container 1 uses a hundred pages and can be shrunk; when it uses 50 MiB it cannot, and a
request of container 2 fails. -/
theorem reclaim_accounts_of_whole_pages :
    ∃ m sc, gcm.Run (.new oneAgent) m ∧ m.ec.back? ⟨1, node⟩ = some sc ∧
      m.Shrinks (.uniform 0 0 0 409600 0) ⟨1, node⟩ sc ∧
      wp (reclaim (.uniform 0 0 0 409600 0) ⟨1, node⟩ sc)
        (Accounted m (.uniform 0 0 0 409600 0) ⟨1, node⟩ sc) (fun _ _ => True) m ∧
      wp (handleMemReq (.uniform 0 0 0 52428800 0) (msgOf 2 memReq 0 0) 9)
        (fun r m' => r.1 = .allocMemFailed → m'.ec.subcontainers = m.ec.subcontainers)
        (fun _ _ => True) m := by
  have hreplay : ((gcm.replay fullRun (.new oneAgent)).any fun m =>
      decide (m.ec.totalLimit < 2 ^ 64) &&
      decide (m.PassWholePages (.uniform 0 0 0 52428800 0) fun sc => sc.fd = 9) &&
      (m.ec.back? ⟨1, node⟩).any fun sc =>
        m.Shrinks (.uniform 0 0 0 409600 0) ⟨1, node⟩ sc ∧
        m.UsedWithin (.uniform 0 0 0 409600 0) ⟨1, node⟩ sc ∧
        m.WholePages (.uniform 0 0 0 409600 0) ⟨1, node⟩ sc) = true := by
    decide +kernel
  obtain ⟨m, hrun, htest⟩ := System.exists_run_of_replay hreplay
  rw [Bool.and_eq_true, Bool.and_eq_true, decide_eq_true_iff, decide_eq_true_iff] at htest
  obtain ⟨⟨hsmall, hpass⟩, hany⟩ := htest
  obtain ⟨sc, hb, hsc⟩ := (Option.any_eq_true ..).mp hany
  obtain ⟨hs, hu, hw⟩ := of_decide_eq_true hsc
  have hq := queued_of_run hrun
  exact ⟨m, sc, hrun, hb, hs, ((reclaim_accounts_iff hq _).1 _ sc hb hu).mpr fun _ => hw,
    (reclaim_accounts_iff hq _).2 _ _ hsmall hpass⟩

/-- Container 1 uses one byte less than 50 MiB. A reclaim takes one of its 25600 pages and reports
none, so that a request of container 2 fails and leaves it with 25599. -/
theorem reclaim_loses_a_page :
    ∃ m sc, gcm.Run (.new oneAgent) m ∧ m.ec.back? ⟨1, node⟩ = some sc ∧
      sc.memLimitInPages = 25600 ∧ m.UsedWithin (.uniform 0 0 0 52428799 0) ⟨1, node⟩ sc ∧
      ¬ wp (reclaim (.uniform 0 0 0 52428799 0) ⟨1, node⟩ sc)
        (Accounted m (.uniform 0 0 0 52428799 0) ⟨1, node⟩ sc) (fun _ _ => True) m ∧
      wp (handleMemReq (.uniform 0 0 0 52428799 0) (msgOf 2 memReq 0 0) 9)
        (fun r m' => r.1 = .allocMemFailed ∧
          (m'.ec.back? ⟨1, node⟩).map (·.memLimitInPages) = some 25599) (fun _ _ => False) m := by
  have hreplay : ((gcm.replay fullRun (.new oneAgent)).any fun m =>
      decide (wp (handleMemReq (.uniform 0 0 0 52428799 0) (msgOf 2 memReq 0 0) 9)
        (fun r m' => r.1 = .allocMemFailed ∧
          (m'.ec.back? ⟨1, node⟩).map (·.memLimitInPages) = some 25599) (fun _ _ => False) m) &&
      (m.ec.back? ⟨1, node⟩).any fun sc =>
        sc.memLimitInPages = 25600 ∧ m.UsedWithin (.uniform 0 0 0 52428799 0) ⟨1, node⟩ sc ∧
        ¬ (m.Shrinks (.uniform 0 0 0 52428799 0) ⟨1, node⟩ sc →
          m.WholePages (.uniform 0 0 0 52428799 0) ⟨1, node⟩ sc)) = true := by
    decide +kernel
  obtain ⟨m, hrun, htest⟩ := System.exists_run_of_replay hreplay
  rw [Bool.and_eq_true, decide_eq_true_iff] at htest
  obtain ⟨hfails, hany⟩ := htest
  obtain ⟨sc, hb, hsc⟩ := (Option.any_eq_true ..).mp hany
  obtain ⟨hlimit, hu, hpartial⟩ := of_decide_eq_true hsc
  have hcId := (queued_of_run hrun).cId_of_back hb
  exact ⟨m, sc, hrun, hb, hlimit, hu, fun h => hpartial ((accounted_iff hb hcId hu).mp h), hfails⟩

end EcGcm.Manager
