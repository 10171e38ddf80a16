import EcGcm.Proof.Quiet
import EcGcm.Proof.Reclaim

/-!
# The memory books

    unallocated + allocated  =  limit
    allocated                =  the recorded limits of all live containers

Between the shrink of a container and the credit of the pool neither equation holds. What does
hold all through a reclaim pass is that the limits that are left and the pages that were freed
add up to what the limits were (`wp_reclaimFrom_limits`); the books are put right again by the
one credit at the end.

Page arithmetic is exact here because every reading is a multiple of the page size and at most
the limit (`Manager.UsageOk`): rounding down then loses nothing, and no unsigned difference
wraps.
-/

set_option autoImplicit false

namespace EcGcm

open Word Handler

/-! ## Counters -/

/-- `g'` is `g` after both counters have moved. -/
structure Global.Mem.Moved (g g' : Global.Mem) (dPool dAlloc : Int) : Prop where
  pool : g'.unallocatedMemoryInPages.toInt = g.unallocatedMemoryInPages.toInt + dPool
  alloc : g'.allocatedMemoryInPages.toInt = g.allocatedMemoryInPages.toInt + dAlloc
  limit : g'.memoryLimitInPages = g.memoryLimitInPages
  slice : g'.sliceSize = g.sliceSize

section Counters

variable {g : Global.Mem} {d : UInt64}

theorem decrAllocated_toInt (h : (d.toNat : Int) ≤ g.allocatedMemoryInPages.toInt) :
    (g.decrAllocatedMemoryInPages d.toInt64).allocatedMemoryInPages.toInt =
      g.allocatedMemoryInPages.toInt - d.toNat := by
  have hlt := g.allocatedMemoryInPages.toInt_lt
  have hsub : (g.allocatedMemoryInPages - d.toInt64).toInt =
      g.allocatedMemoryInPages.toInt - d.toNat := by
    rw [Int64.toInt_sub, toInt_toInt64_of_lt (by omega), Int.bmod_def]
    omega
  have hnot : ¬ g.allocatedMemoryInPages - d.toInt64 < 0 := by
    rw [neg_iff_toInt_neg, hsub]
    omega
  unfold Global.Mem.decrAllocatedMemoryInPages
  dsimp only
  rw [if_neg hnot]
  exact hsub

theorem decrUnallocated_toInt (h : (d.toNat : Int) ≤ g.unallocatedMemoryInPages.toInt) :
    (g.decrUnallocatedMemoryInPages d).unallocatedMemoryInPages.toInt =
      g.unallocatedMemoryInPages.toInt - d.toNat := by
  have hsub := toInt_sub_word h
  have hnot : ¬ (g.unallocatedMemoryInPages.toUInt64 - d).toInt64 < 0 := by
    rw [neg_iff_toInt_neg, hsub]
    omega
  unfold Global.Mem.decrUnallocatedMemoryInPages
  dsimp only
  rw [if_neg hnot]
  exact hsub

theorem incrUnallocated_toInt (h : g.unallocatedMemoryInPages.toInt + d.toNat < 2 ^ 63) :
    (g.incrUnallocatedMemoryInPages d).unallocatedMemoryInPages.toInt =
      g.unallocatedMemoryInPages.toInt + d.toNat := toInt_add_word h

theorem incrAllocated_toInt (h : g.allocatedMemoryInPages.toInt + d.toNat < 2 ^ 63) :
    (g.incrAllocatedMemoryInPages d.toInt64).allocatedMemoryInPages.toInt =
      g.allocatedMemoryInPages.toInt + d.toNat := toInt_add_toInt64 h

theorem credited_moved (h1 : g.unallocatedMemoryInPages.toInt + d.toNat < 2 ^ 63)
    (hd : (d.toNat : Int) ≤ g.allocatedMemoryInPages.toInt) :
    g.Moved (Manager.credited d g) d.toNat (-d.toNat) where
  pool := by
    unfold Manager.credited
    rw [Global.Mem.unallocated_decrAllocated]
    exact incrUnallocated_toInt h1
  alloc := by
    unfold Manager.credited
    have h := decrAllocated_toInt (g := g.incrUnallocatedMemoryInPages d) (d := d) hd
    rw [Global.Mem.allocated_incrUnallocated] at h
    exact h
  limit := rfl
  slice := rfl

theorem charged_moved (h1 : g.allocatedMemoryInPages.toInt + d.toNat < 2 ^ 63)
    (hd : (d.toNat : Int) ≤ g.unallocatedMemoryInPages.toInt) :
    g.Moved (Manager.charged d g) (-d.toNat) d.toNat where
  pool := by
    unfold Manager.charged
    rw [Global.Mem.unallocated_incrAllocated]
    exact decrUnallocated_toInt hd
  alloc := by
    unfold Manager.charged
    have h := incrAllocated_toInt (g := g.decrUnallocatedMemoryInPages d) h1
    rw [Global.Mem.allocated_decrUnallocated] at h
    exact h
  limit := rfl
  slice := rfl

end Counters

namespace Manager

open ElasticContainer

variable {m m' : Manager} {env : Env} {id : ContainerId} {sc : SubContainer}

/-! ## A pass -/

/-- Every usage the pass reads is a whole number of pages, and within the limit. -/
def UsageOk (m : Manager) (env : Env) (keep : SubContainer → Bool) : Prop :=
  ∀ id ∈ m.ec.subcontainers.keys, ∀ sc ∈ m.ec.back? id, keep sc = false →
    (m.usageOf env id sc).toNat % 4096 = 0 ∧
    (m.usageOf env id sc).toNat ≤ sc.memLimitInPages.toNat * 4096

instance (m : Manager) (env : Env) (keep : SubContainer → Bool) : Decidable (m.UsageOk env keep) :=
  inferInstanceAs (Decidable (∀ id ∈ _, _))

theorem UsageOk.of_back {keep : SubContainer → Bool} (h : m.UsageOk env keep)
    (hb : m.ec.back? id = some sc) (hk : keep sc = false) :
    (m.usageOf env id sc).toNat % 4096 = 0 ∧
    (m.usageOf env id sc).toNat ≤ sc.memLimitInPages.toNat * 4096 := by
  obtain ⟨l, hl⟩ := lookup_of_back? hb
  exact h id (UnorderedMap.mem_keys_iff_lookup.mpr ⟨_, hl⟩) sc hb hk

/-- Page arithmetic of one shrink: what is left and what is freed make up the limit. -/
theorem shrink_pages (hlimit : sc.memLimitInPages.toNat < 2 ^ 52)
    (haligned : (m.usageOf env id sc).toNat % 4096 = 0)
    (hle : (m.usageOf env id sc).toNat ≤ sc.memLimitInPages.toNat * 4096)
    (hr : m.Reclaimable env id sc) :
    (byteToPage (m.resizeTarget env id sc)).toNat +
      (byteToPage (pageToByte sc.memLimitInPages - m.resizeTarget env id sc)).toNat =
      sc.memLimitInPages.toNat ∧
    (m.usageOf env id sc).toNat ≤ (byteToPage (m.resizeTarget env id sc)).toNat * 4096 := by
  obtain ⟨_, _, hgap⟩ := hr
  have hmargin : safeMarginBytes.toNat = 52428800 := rfl
  have hpage : (4096 : UInt64).toNat = 4096 := rfl
  rw [gt_iff_lt, UInt64.lt_iff_toNat_lt, UInt64.toNat_sub, pageToByte, UInt64.toNat_mul, hpage,
    hmargin] at hgap
  simp only [byteToPage, resizeTarget, pageToByte, UInt64.toNat_div, UInt64.toNat_sub,
    UInt64.toNat_add, UInt64.toNat_mul, hpage, hmargin]
  omega

/-- What a pass maintains: `freed` pages have left the limits so far. -/
structure PassInv (m : Manager) (env : Env) (keep : SubContainer → Bool) (freed : UInt64)
    (t : Manager) : Prop where
  queued : t.ec.Queued
  mem : t.ec.mem = m.ec.mem
  limits : t.ec.totalLimit + freed.toNat = m.ec.totalLimit
  usage : t.UsageOk env keep
  kept : ∀ id sc, m.ec.back? id = some sc → keep sc = true → t.ec.back? id = some sc

theorem PassInv.of_frame {keep : SubContainer → Bool} {freed : UInt64} {t t' : Manager}
    (h : PassInv m env keep freed t) (ht : AgentFrame t t') : PassInv m env keep freed t' where
  queued := ht.quiet.queued h.queued
  mem := ht.mem.trans h.mem
  limits := by
    unfold totalLimit sumOver at *
    rw [ht.subcontainers]
    exact h.limits
  usage := by
    intro id hid sc hb hk
    rw [ht.subcontainers] at hid
    rw [ht.back?] at hb
    rw [usageOf_congr ht.agent?]
    exact h.usage id hid sc hb hk
  kept id sc hb hk := (ht.back? id).trans (h.kept id sc hb hk)

/-- One shrink moves pages from the limits to the count. -/
theorem PassInv.shrink {keep : SubContainer → Bool} {acc newLimit freed : UInt64} {t : Manager}
    (h : PassInv m env keep acc t) (hsmall : m.ec.totalLimit < 2 ^ 52)
    (hb : t.ec.back? id = some sc) (hk : keep sc = false)
    (hpages : newLimit.toNat + freed.toNat = sc.memLimitInPages.toNat)
    (husage : (t.usageOf env id sc).toNat ≤ newLimit.toNat * 4096) :
    PassInv m env keep (acc + freed)
      { t with ec := t.ec.modifyBack id fun sc' => sc'.setMemLimitInPages newLimit } := by
  obtain ⟨haligned, _⟩ := h.usage.of_back hb hk
  have hlimits := h.limits
  have hlimit : sc.memLimitInPages.toNat ≤ t.ec.totalLimit :=
    le_sumOver (g := fun sc => sc.memLimitInPages.toNat) hb
  have hagent : ∀ id', (t.ec.modifyBack id fun sc' => sc'.setMemLimitInPages newLimit).agent? id' =
      t.ec.agent? id' := agent?_congr scAcMap_modifyBack
  have hsum := sumOver_modifyBack (f := fun sc' => sc'.setMemLimitInPages newLimit)
    (g := fun sc => sc.memLimitInPages.toNat) hb
  simp only [SubContainer.memLimitInPages_setMemLimitInPages] at hsum
  refine ⟨h.queued.modifyBack fun _ => SubContainer.cId_setMemLimitInPages,
    mem_modifyBack.trans h.mem, ?_, ?_, ?_⟩
  · unfold totalLimit at *
    dsimp only
    rw [add_toNat_of_lt (by omega)]
    omega
  · intro id' _ sc' hb' hk'
    rw [usageOf_congr hagent]
    by_cases hid : id' = id
    · subst hid
      have hnew := back?_modifyBack (f := fun sc' => sc'.setMemLimitInPages newLimit) hb
      obtain rfl := Option.some.inj (hb'.symm.trans hnew)
      rw [usageOf_setMemLimitInPages, SubContainer.memLimitInPages_setMemLimitInPages]
      exact ⟨haligned, husage⟩
    · have hold : t.ec.back? id' = some sc' := (back?_modifyBack_ne hid).symm.trans hb'
      exact h.usage.of_back hold hk'
  · intro id' sc' hb' hk'
    have hold := h.kept id' sc' hb' hk'
    have hne : id' ≠ id := by
      rintro rfl
      rw [hb] at hold
      cases hold
      rw [hk] at hk'
      cases hk'
    exact (back?_modifyBack_ne hne).trans hold

/-- **A pass moves pages from the limits to its result**, and nothing else. -/
theorem wp_reclaimFrom_limits {keep : SubContainer → Bool} {ids : List ContainerId}
    (hq : m.ec.Queued) (husage : m.UsageOk env keep) (hsmall : m.ec.totalLimit < 2 ^ 52) :
    wp (reclaimFrom env keep ids) (PassInv m env keep) (fun _ _ => True) m := by
  refine wp_reclaimFrom ⟨hq, rfl, Nat.add_zero _, husage, fun _ _ hb _ => hb⟩
    (fun _ _ _ _ _ _ => trivial) ?_
  intro acc t id _ sc h hb hk
  refine wp_reclaim hb (h.queued.cId_of_back hb) (fun t' ht' _ _ => ?_) (fun _ _ _ _ => trivial)
    (fun t' ht' hs => ?_)
  · rw [UInt64.add_zero]
    exact h.of_frame ht'
  · have hlimits := h.limits
    have hlimit : sc.memLimitInPages.toNat ≤ t.ec.totalLimit :=
      le_sumOver (g := fun sc => sc.memLimitInPages.toNat) hb
    obtain ⟨haligned, hle⟩ := h.usage.of_back hb hk
    obtain ⟨hpages, hused⟩ := shrink_pages (by omega) haligned hle hs.1
    refine (h.of_frame ht').shrink hsmall ((ht'.back? id).trans hb) hk hpages ?_
    rw [usageOf_congr ht'.agent?]
    exact hused

end Manager

/-! ## The books

`slack` is what the allocated total has over the recorded limits: nothing, as long as every
request carries the recorded limit. -/

/-- Pool and allocated pages make up the limit, and the allocated pages are the recorded limits
and the slack. -/
structure ElasticContainer.MemBooks (ec : ElasticContainer) (slack : ℕ) : Prop where
  balance : ec.mem.unallocatedMemoryInPages.toInt + ec.mem.allocatedMemoryInPages.toInt =
    ec.mem.memoryLimitInPages.toNat
  alloc : ec.mem.allocatedMemoryInPages.toInt = ec.totalLimit + slack
  pool : 0 ≤ ec.mem.unallocatedMemoryInPages.toInt

/-- The books, and what never changes after the start. -/
structure ElasticContainer.MemInv (ec : ElasticContainer) (slack : ℕ) : Prop
    extends ec.MemBooks slack where
  small : ec.mem.memoryLimitInPages.toNat < 2 ^ 52
  slice : ec.mem.sliceSize = 5000

namespace ElasticContainer

variable {ec ec' : ElasticContainer} {id : ContainerId} {sc : SubContainer} {slack : ℕ}
  {d : UInt64}

theorem MemInv.of_eq (h : ec.MemInv slack) (hmem : ec'.mem = ec.mem)
    (hlimit : ec'.totalLimit = ec.totalLimit) : ec'.MemInv slack := by
  refine ⟨⟨?_, ?_, ?_⟩, ?_, ?_⟩
  all_goals rw [hmem]
  · exact h.balance
  · rw [hlimit]
    exact h.alloc
  · exact h.pool
  · exact h.small
  · exact h.slice

theorem MemInv.limit_le (h : ec.MemInv slack) (hb : ec.back? id = some sc) :
    (sc.memLimitInPages.toNat : Int) ≤ ec.mem.allocatedMemoryInPages.toInt := by
  have hle : sc.memLimitInPages.toNat ≤ ec.totalLimit :=
    le_sumOver (g := fun sc => sc.memLimitInPages.toNat) hb
  have := h.alloc
  omega

/-- Counters and limits move by the same amounts. -/
theorem MemInv.move {dPool dAlloc : Int} {slack' : ℕ} (h : ec.MemInv slack)
    (hmoved : ec.mem.Moved ec'.mem dPool dAlloc) (hsum : dPool + dAlloc = 0)
    (hlimit : (ec'.totalLimit : Int) + slack' = ec.totalLimit + slack + dAlloc)
    (hpool : 0 ≤ ec.mem.unallocatedMemoryInPages.toInt + dPool) : ec'.MemInv slack' where
  balance := by
    have := h.balance
    rw [hmoved.pool, hmoved.alloc, hmoved.limit]
    omega
  alloc := by
    have := h.alloc
    rw [hmoved.alloc]
    omega
  pool := by
    rw [hmoved.pool]
    exact hpool
  small := by
    rw [hmoved.limit]
    exact h.small
  slice := hmoved.slice.trans h.slice

/-- Pages that left the limits go back to the pool. -/
theorem MemInv.credit (h : ec.MemInv slack) (hmem : ec'.mem = Manager.credited d ec.mem)
    (hlimit : ec'.totalLimit + d.toNat = ec.totalLimit) : ec'.MemInv slack := by
  have hbal := h.balance
  have halloc := h.alloc
  have hpool := h.pool
  have hsmall := h.small
  have hmoved : ec.mem.Moved ec'.mem d.toNat (-d.toNat) := by
    rw [hmem]
    exact credited_moved (by omega) (by omega)
  exact h.move hmoved (by omega) (by omega) (by omega)

/-- Pages that the pool has go to one container. -/
theorem MemInv.charge {limit : UInt64} {lost : ℕ} (h : ec.MemInv slack)
    (hb : ec.back? id = some sc) (hd : (d.toNat : Int) ≤ ec.mem.unallocatedMemoryInPages.toInt)
    (hlimit : limit.toNat + lost = sc.memLimitInPages.toNat + d.toNat) :
    (({ ec with mem := Manager.charged d ec.mem } : ElasticContainer).modifyBack id fun sc =>
      sc.setMemLimitInPages limit).MemInv (slack + lost) := by
  have hbal := h.balance
  have halloc := h.alloc
  have hsmall := h.small
  have hb' : ({ ec with mem := Manager.charged d ec.mem } : ElasticContainer).back? id = some sc :=
    hb
  have hsum := sumOver_modifyBack (f := fun sc' => sc'.setMemLimitInPages limit)
    (g := fun sc => sc.memLimitInPages.toNat) hb'
  simp only [SubContainer.memLimitInPages_setMemLimitInPages] at hsum
  have hold : ({ ec with mem := Manager.charged d ec.mem } : ElasticContainer).sumOver
      (fun sc => sc.memLimitInPages.toNat) = ec.totalLimit := rfl
  rw [hold] at hsum
  have hmoved := charged_moved (g := ec.mem) (d := d) (by omega) hd
  refine h.move ?_ (neg_add_cancel (d.toNat : Int)) ?_ (by omega)
  · rw [mem_modifyBack]
    exact hmoved
  · unfold totalLimit at hsum ⊢
    omega

end ElasticContainer

namespace Manager

open ElasticContainer

variable {m m' : Manager} {env : Env} {id : ContainerId} {sc : SubContainer} {slack : ℕ}
  {req : Msg} {clifd : Int}

/-! ## Requests -/

/-- A grant of an available pool: at least a page, at most a slice, at most the pool. -/
theorem grantOf_bounds {slice : UInt64} {avail : Int64} (hslice : slice = 5000)
    (havail : 0 < avail.toInt) :
    1 ≤ (grantOf slice avail).toNat ∧ (grantOf slice avail).toNat ≤ 5000 ∧
      ((grantOf slice avail).toNat : Int) ≤ avail.toInt := by
  have hword := toUInt64_toNat (a := avail) (by omega)
  have hfive : (5000 : UInt64).toNat = 5000 := rfl
  subst hslice
  unfold grantOf
  split
  · rename_i hgt
    rw [gt_iff_lt, UInt64.lt_iff_toNat_lt] at hgt
    omega
  · rename_i hle
    rw [gt_iff_lt, UInt64.lt_iff_toNat_lt] at hle
    omega

/-- What a reply may say: a failure, or the carried amount and between one page and a slice. -/
def MemReply (req : Msg) (r : AllocRet × Msg) : Prop :=
  r.1 = .allocMemFailed ∨
    (r.1 = .allocSuccess ∧ req.rsrcAmnt.toNat + 1 ≤ r.2.rsrcAmnt.toNat ∧
      r.2.rsrcAmnt.toNat ≤ req.rsrcAmnt.toNat + 5000)

/-- The requester is registered, the request came over its socket, and the amount it carries is
`lost` pages short of its recorded limit. -/
structure Requests (m : Manager) (req : Msg) (clifd : Int) (sc : SubContainer) (lost : ℕ) :
    Prop where
  back : m.ec.back? req.containerId = some sc
  fd : sc.fd = clifd
  amount : req.rsrcAmnt.toNat + lost = sc.memLimitInPages.toNat

theorem wp_grantMemory_books {lost : ℕ} {avail : Int64} {E : Halt → Manager → Prop}
    (h : m.ec.MemInv slack) (hreq : m.Requests req clifd sc lost)
    (havail : avail = m.ec.mem.unallocatedMemoryInPages)
    (hpool : 0 < m.ec.mem.unallocatedMemoryInPages.toInt) :
    wp (grantMemory req avail)
      (fun r m' => MemReply req r ∧ ∃ s ≤ lost, m'.ec.MemInv (slack + s)) E m := by
  subst havail
  have hbal := h.balance
  have hsmall := h.small
  have halloc := h.alloc
  have hamount := hreq.amount
  have hlimit := h.limit_le hreq.back
  have hbounds := grantOf_bounds h.slice hpool
  refine wp_grantMemory (fun hnone => ?_) fun sc' hb => ?_
  · rw [hreq.back] at hnone
    cases hnone
  · generalize grantOf m.ec.mem.sliceSize m.ec.mem.unallocatedMemoryInPages = g at *
    rw [hreq.back] at hb
    cases hb
    obtain ⟨hone, hslice, hle⟩ := hbounds
    have hsum : (req.rsrcAmnt + g).toNat = req.rsrcAmnt.toNat + g.toNat :=
      add_toNat_of_lt (by omega)
    refine ⟨.inr ⟨rfl, ?_, ?_⟩, lost, le_refl _, h.charge hreq.back hle (by omega)⟩
    · dsimp only
      omega
    · dsimp only
      omega

/-- **A request keeps the books**, up to the pages its message is short of. -/
theorem wp_handleMemReq_books {lost : ℕ} (h : m.ec.MemInv slack) (hq : m.ec.Queued)
    (ht : req.reqType = memReq) (hreq : m.Requests req clifd sc lost)
    (husage : m.UsageOk env fun sc => sc.fd = clifd) :
    wp (handleMemReq env req clifd)
      (fun r m' => MemReply req r ∧ ∃ s ≤ lost, m'.ec.MemInv (slack + s)) (fun _ _ => True) m := by
  have hbal := h.balance
  have halloc := h.alloc
  have hpool := h.pool
  have hsmall := h.small
  by_cases hpos : m.ec.mem.unallocatedMemoryInPages > 0
  · refine wp_handleMemReq_of_pool ht (fun _ => trivial) hpos (wp_grantMemory_books h hreq rfl ?_)
    exact pos_iff_toInt_pos.mp hpos
  · -- the pool is empty, so what can be granted is what the pass brings back
    refine wp_handleMemReq_of_empty ht (fun _ => trivial) hpos (wp_handleReclaimMemory ?_)
    refine wp_mono_ret (wp_reclaimFrom_limits hq husage (by omega)) fun freed t hpass => ?_
    have hlimits := hpass.limits
    refine ⟨fun hzero => ?_, fun _ hneg => ?_, fun hfreed _ => ?_⟩
    · subst hzero
      exact ⟨.inl rfl, 0, Nat.zero_le _, h.of_eq hpass.mem hlimits⟩
    · exact absurd hpool (not_le.mpr (neg_iff_toInt_neg.mp hneg))
    · have hcredit :
          ({ t.ec with mem := credited freed t.ec.mem } : ElasticContainer).MemInv slack :=
        h.credit (by rw [← hpass.mem]) hlimits
      refine wp_grantMemory_books hcredit ⟨?_, hreq.fd, hreq.amount⟩ rfl ?_
      · exact hpass.kept _ _ hreq.back (decide_eq_true hreq.fd)
      · have hmoved := credited_moved (g := m.ec.mem) (d := freed) (by omega) (by omega)
        have hpos' : 0 < freed.toNat := UInt64.lt_iff_toNat_lt.mp hfreed
        have hgrown := hmoved.pool
        rw [← hpass.mem] at hgrown
        rw [← hpass.mem] at hpool
        dsimp only
        omega

end Manager

end EcGcm
