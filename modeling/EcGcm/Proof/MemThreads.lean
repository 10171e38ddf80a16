import EcGcm.Lib.Threads
import EcGcm.Proof.Frames
import EcGcm.Proof.MemBooks

/-!
# Memory requests, start-ups and the periodic credit, overlapping

`memlock` keeps two calls of `handle_mem_req` apart, and nothing else: the start-up thread of a
new container and the periodic pass use the counters without it. Each of them checks or computes
an amount first and moves it with two accessors later, and the decrement of the pool clips at zero
while the allocated total takes the full amount.

As in `EcGcm/Proof/CpuThreads.lean` an accessor is one step. What `handle_reclaim_memory` returns
is a parameter of the call. `serves_handleMemReq` says that a request that nothing interrupts is the
handler of the sequential model.
-/

set_option autoImplicit false

namespace EcGcm

open Word Handler Manager

/-- The counters and the lock of `handle_mem_req`. -/
structure MemShared where
  mem : Global.Mem
  memlock : Bool
  deriving DecidableEq

/-- What a call goes on with after a credit. -/
inductive AfterCredit
  | stop
  | grant
  /-- The pool was negative and has been filled up; the reclaimed pages come next. -/
  | credit (reclaimed : UInt64)
  deriving DecidableEq

/-- The next accessor of a call, and what the call has in its local variables. -/
inductive MemThread
  /-- `handle_mem_req`, waiting for the lock. -/
  | memReq (reclaimed : UInt64)
  /-- `memory_available = get_unallocated_memory_in_pages()`. -/
  | readPool (reclaimed : UInt64)
  /-- The same after a credit. -/
  | readAgain
  | unlock
  /-- `determine_mem_limit_for_new_pod`: `pages <= get_unallocated_memory_in_pages()`. -/
  | startUp (pages : UInt64)
  /-- `ec_update_alloc_memory_in_pages`. -/
  | decrUnallocated (pages : UInt64) (locked : Bool)
  | incrAllocated (pages : UInt64) (locked : Bool)
  /-- `ec_update_reclaim_memory_in_pages`, and by itself the credit of `run`. -/
  | incrUnallocated (pages : UInt64) (after : AfterCredit)
  | decrAllocated (pages : UInt64) (after : AfterCredit)
  | done
  deriving DecidableEq

def AfterCredit.point : AfterCredit → MemThread
  | stop => .done
  | grant => .readAgain
  | credit reclaimed => .incrUnallocated reclaimed .grant

namespace MemThread

/-- Where a request goes once it has seen the pool. -/
def afterRead (reclaimed slice : UInt64) (memoryAvailable : Int64) : MemThread :=
  if memoryAvailable > 0 then decrUnallocated (grantOf slice memoryAvailable) true
  else if reclaimed > 0 then
    if memoryAvailable < 0 then
      incrUnallocated (memoryAvailable * -1).toUInt64 (.credit reclaimed)
    else incrUnallocated reclaimed .grant
  else unlock

/-- One accessor. The slice is never written, so its reading is not a step of its own. -/
def step : MemThread → MemShared → Option (MemThread × MemShared)
  | memReq reclaimed, s =>
    if s.memlock then none else some (readPool reclaimed, { s with memlock := true })
  | readPool reclaimed, s =>
    some (afterRead reclaimed s.mem.sliceSize s.mem.unallocatedMemoryInPages, s)
  | readAgain, s =>
    some (decrUnallocated (grantOf s.mem.sliceSize s.mem.unallocatedMemoryInPages) true, s)
  | unlock, s => some (done, { s with memlock := false })
  -- a pod that does not fit takes another path, which is not followed here
  | startUp pages, s =>
    if pages ≤ s.mem.unallocatedMemoryInPages.toUInt64 then some (decrUnallocated pages false, s)
    else none
  | decrUnallocated pages locked, s =>
    some (incrAllocated pages locked, { s with mem := s.mem.decrUnallocatedMemoryInPages pages })
  | incrAllocated pages locked, s =>
    some (if locked then unlock else done,
      { s with mem := s.mem.incrAllocatedMemoryInPages pages.toInt64 })
  | incrUnallocated pages after, s =>
    some (decrAllocated pages after, { s with mem := s.mem.incrUnallocatedMemoryInPages pages })
  | decrAllocated pages after, s =>
    some (after.point, { s with mem := s.mem.decrAllocatedMemoryInPages pages.toInt64 })
  | done, _ => none

/-- A call that has not begun. -/
def isStart : MemThread → Bool
  | memReq _ => true
  | startUp _ => true
  | incrUnallocated pages .stop => pages > 0
  | _ => false

/-- What a call has taken out of one counter and not put into the other; negative after the first
half of a credit. -/
def owes : MemThread → ℤ
  | incrAllocated pages _ => pages.toNat
  | decrAllocated pages _ => -pages.toNat
  | _ => 0

/-- What the next accessor has to find for its update not to be clipped or wrapped. -/
def Exact : MemThread → MemShared → Prop
  | decrUnallocated pages _, s => (pages.toNat : ℤ) ≤ s.mem.unallocatedMemoryInPages.toInt
  | incrAllocated pages _, s => s.mem.allocatedMemoryInPages.toInt + pages.toNat < 2 ^ 63
  | incrUnallocated pages _, s => s.mem.unallocatedMemoryInPages.toInt + pages.toNat < 2 ^ 63
  | decrAllocated pages _, s => (pages.toNat : ℤ) ≤ s.mem.allocatedMemoryInPages.toInt
  | _, _ => True

instance : (t : MemThread) → (s : MemShared) → Decidable (t.Exact s)
  | memReq _, _ => .isTrue trivial
  | readPool _, _ => .isTrue trivial
  | readAgain, _ => .isTrue trivial
  | unlock, _ => .isTrue trivial
  | startUp _, _ => .isTrue trivial
  | decrUnallocated .., _ => inferInstanceAs (Decidable (_ ≤ _))
  | incrAllocated .., _ => inferInstanceAs (Decidable (_ < _))
  | incrUnallocated .., _ => inferInstanceAs (Decidable (_ < _))
  | decrAllocated .., _ => inferInstanceAs (Decidable (_ ≤ _))
  | done, _ => .isTrue trivial

end MemThread

/-- `unallocated + allocated = memory_limit_in_pages`. -/
def Global.Mem.Balanced (g : Global.Mem) : Prop :=
  g.unallocatedMemoryInPages.toInt + g.allocatedMemoryInPages.toInt = g.memoryLimitInPages.toNat

instance Global.Mem.decidableBalanced (g : Global.Mem) : Decidable g.Balanced :=
  inferInstanceAs (Decidable (_ = _))

/-- How far the counters are from being balanced. -/
def Global.Mem.excess (g : Global.Mem) : ℤ :=
  g.unallocatedMemoryInPages.toInt + g.allocatedMemoryInPages.toInt - g.memoryLimitInPages.toNat

theorem Global.Mem.balanced_iff_excess {g : Global.Mem} : g.Balanced ↔ g.excess = 0 := by
  unfold Balanced excess
  omega

namespace MemThread

/-! ## One accessor -/

variable {t t' : MemThread} {s s' : MemShared}

theorem owes_afterRead {reclaimed slice : UInt64} {memoryAvailable : Int64} :
    (afterRead reclaimed slice memoryAvailable).owes = 0 := by
  unfold afterRead
  repeat' split
  all_goals rfl

theorem owes_point (k : AfterCredit) : k.point.owes = 0 := by cases k <;> rfl

/-- An exact accessor moves what the call owes. -/
theorem Exact.excess_step (h : t.Exact s) (hstep : t.step s = some (t', s')) :
    s'.mem.excess + t'.owes = s.mem.excess + t.owes := by
  cases t with
  | memReq reclaimed =>
    simp only [step] at hstep
    split at hstep
    · cases hstep
    · cases hstep
      rfl
  | readPool reclaimed =>
    cases hstep
    rw [owes_afterRead]
    rfl
  | readAgain =>
    cases hstep
    rfl
  | unlock =>
    cases hstep
    rfl
  | startUp pages =>
    simp only [step] at hstep
    split at hstep
    · cases hstep
      rfl
    · cases hstep
  | decrUnallocated pages locked =>
    cases hstep
    have := decrUnallocated_toInt h
    simp only [Global.Mem.excess, Global.Mem.allocated_decrUnallocated, owes, this]
    show _ - (s.mem.memoryLimitInPages.toNat : ℤ) + _ = _
    omega
  | incrAllocated pages locked =>
    cases hstep
    have hlast : (if locked then unlock else done).owes = 0 := by cases locked <;> rfl
    have := incrAllocated_toInt h
    rw [hlast]
    simp only [Global.Mem.excess, Global.Mem.unallocated_incrAllocated, owes, this]
    show _ - (s.mem.memoryLimitInPages.toNat : ℤ) + _ = _
    omega
  | incrUnallocated pages after =>
    cases hstep
    have := incrUnallocated_toInt h
    simp only [Global.Mem.excess, Global.Mem.allocated_incrUnallocated, owes, this]
    show _ - (s.mem.memoryLimitInPages.toNat : ℤ) + _ = _
    omega
  | decrAllocated pages after =>
    cases hstep
    have := decrAllocated_toInt h
    rw [owes_point]
    simp only [Global.Mem.excess, Global.Mem.unallocated_decrAllocated, owes, this]
    show _ - (s.mem.memoryLimitInPages.toNat : ℤ) + _ = _
    omega
  | done => cases hstep

theorem owes_of_isStart (h : t.isStart = true) : t.owes = 0 := by
  cases t <;> first | rfl | cases h

/-! ## Whole runs -/

/-- Any number of calls, in any order of their accessors. -/
abbrev interleaved : System (Pool MemShared MemThread) ℕ := Pool.interleaving step

/-- **No page is minted or lost as long as every accessor finds what its call expects of it.** -/
theorem mem_counters_balanced_of_run (g : Global.Mem) (calls : List MemThread)
    (p : Pool MemShared MemThread)
    (hcalls : ∀ t ∈ calls, t.isStart = true) (hg : g.Balanced)
    (hrun : (interleaved.only (Pool.Moving Exact)).Run ⟨⟨g, false⟩, calls⟩ p)
    (hdone : p.AllAt done) : p.shared.mem.Balanced := by
  have hkept : p.balance (fun s : MemShared => s.mem.excess) owes = _ :=
    Pool.balance_of_run (fun _ _ _ _ h hstep => Exact.excess_step h hstep) hrun
  rw [Pool.balance_of_owes_nothing fun t ht => by rw [hdone t ht]; rfl,
    Pool.balance_of_owes_nothing fun t ht => owes_of_isStart (hcalls t ht)] at hkept
  rw [Global.Mem.balanced_iff_excess] at hg ⊢
  exact hkept.trans hg

/-- All of ten pages are in the pool. -/
def tenPages : Global.Mem where
  memoryLimitInPages := 10
  sliceSize := 5000
  unallocatedMemoryInPages := 10
  allocatedMemoryInPages := 0

/-- A start-up takes seven pages and a request the other three; a second request, which reclaims
two of them, waits for the first one's lock, and the periodic pass credits one. -/
theorem mem_counters_balanced_of_overlap :
    ∃ p, (interleaved.only (Pool.Moving Exact)).Run
        ⟨⟨tenPages, false⟩, [startUp 7, memReq 0, memReq 2, incrUnallocated 1 .stop]⟩ p ∧
      p.AllAt done ∧ p.shared.mem.Balanced := by
  have hreplay : (((interleaved.only (Pool.Moving Exact)).replay
      [0, 1, 0, 1, 0, 1, 1, 1, 2, 2, 2, 3, 2, 2, 3, 2, 2, 2]
      ⟨⟨tenPages, false⟩, [startUp 7, memReq 0, memReq 2, incrUnallocated 1 .stop]⟩).any
      fun p => p.AllAt done) = true := by
    decide +kernel
  obtain ⟨p, hrun, hp⟩ := System.exists_run_of_replay hreplay
  have hdone := of_decide_eq_true hp
  exact ⟨p, hrun, hdone, mem_counters_balanced_of_run _ _ p (by decide) (by decide) hrun hdone⟩

/-- A request reads the pool, a start-up checks that its ten pages fit, and both are served. -/
theorem pages_minted_by_startUp :
    ¬ ∀ (g : Global.Mem) (calls : List MemThread) (p : Pool MemShared MemThread),
      (∀ t ∈ calls, t.isStart = true) → g.Balanced → interleaved.Run ⟨⟨g, false⟩, calls⟩ p →
        p.AllAt done → p.shared.mem.Balanced := by
  intro hclaim
  have hreplay : ((interleaved.replay [1, 1, 0, 1, 0, 1, 0, 1]
      ⟨⟨tenPages, false⟩, [startUp 10, memReq 0]⟩).any fun p =>
        p.AllAt done ∧ ¬ p.shared.mem.Balanced) = true := by
    decide +kernel
  obtain ⟨p, hrun, hp⟩ := System.exists_run_of_replay hreplay
  obtain ⟨hdone, hnot⟩ := of_decide_eq_true hp
  exact hnot (hclaim _ _ p (by decide) (by decide) hrun hdone)

/-! ## A request that nothing interrupts -/

theorem alone_grant (pages : UInt64) (g : Global.Mem) :
    Pool.alone step 3 (decrUnallocated pages true, ⟨g, true⟩) = (done, ⟨charged pages g, false⟩) :=
  rfl

theorem alone_memReq {reclaimed : UInt64} {g : Global.Mem} (n : ℕ) :
    Pool.alone step (n + 2) (memReq reclaimed, ⟨g, false⟩) =
      Pool.alone step n (afterRead reclaimed g.sliceSize g.unallocatedMemoryInPages, ⟨g, true⟩) :=
  rfl

theorem alone_credit {pages : UInt64} {after : AfterCredit} {g : Global.Mem} (n : ℕ) :
    Pool.alone step (n + 2) (incrUnallocated pages after, ⟨g, true⟩) =
      Pool.alone step n (after.point, ⟨credited pages g, true⟩) := rfl

theorem alone_readAgain {g : Global.Mem} (n : ℕ) :
    Pool.alone step (n + 1) (readAgain, ⟨g, true⟩) =
      Pool.alone step n
        (decrUnallocated (grantOf g.sliceSize g.unallocatedMemoryInPages) true, ⟨g, true⟩) := rfl

/-- The counters stay as they are. -/
def SameMem (m m' : Manager) : Prop := m'.ec.mem = m.ec.mem

instance : IsPreorder Manager SameMem where
  refl _ := rfl
  trans _ _ _ h h' := h'.trans h

/-- A pass frees pages and leaves the counters to its caller. -/
theorem sameMem_reclaim : AllowsReclaim SameMem where
  agent := AgentFrame.mem
  limit := ElasticContainer.mem_modifyBack

/-- The counters after a grant. -/
def granted (g : Global.Mem) : Global.Mem :=
  charged (grantOf g.sliceSize g.unallocatedMemoryInPages) g

/-- A request by itself takes the counters from `g` to `g'`, for what its pass returns. -/
def Serves (g g' : Global.Mem) : Prop :=
  ∃ reclaimed, interleaved.Run ⟨⟨g, false⟩, [memReq reclaimed]⟩ ⟨⟨g', false⟩, [done]⟩

section Serves

variable {g : Global.Mem} {reclaimed : UInt64}

theorem serves_pool (hpool : g.unallocatedMemoryInPages > 0) : Serves g (granted g) := by
  refine ⟨0, Pool.run_of_alone (n := 5) ?_⟩
  rw [alone_memReq, afterRead, if_pos hpool, alone_grant]
  rfl

theorem serves_nothing (hpool : ¬ g.unallocatedMemoryInPages > 0) : Serves g g := by
  refine ⟨0, Pool.run_of_alone (n := 3) ?_⟩
  rw [alone_memReq, afterRead, if_neg hpool, if_neg (by decide)]
  rfl

theorem serves_reclaimed (hpool : ¬ g.unallocatedMemoryInPages > 0)
    (hneg : ¬ g.unallocatedMemoryInPages < 0) (hpos : reclaimed > 0) :
    Serves g (granted (credited reclaimed g)) := by
  refine ⟨reclaimed, Pool.run_of_alone (n := 8) ?_⟩
  rw [alone_memReq, afterRead, if_neg hpool, if_pos hpos, if_neg hneg, alone_credit]
  show Pool.alone step 4 (readAgain, _) = _
  rw [alone_readAgain, alone_grant]
  rfl

theorem serves_filledUp (hpool : ¬ g.unallocatedMemoryInPages > 0)
    (hneg : g.unallocatedMemoryInPages < 0) (hpos : reclaimed > 0) :
    Serves g (granted (credited reclaimed (filledUp g.unallocatedMemoryInPages g))) := by
  refine ⟨reclaimed, Pool.run_of_alone (n := 10) ?_⟩
  rw [alone_memReq, afterRead, if_neg hpool, if_pos hpos, if_pos hneg, alone_credit]
  show Pool.alone step 6 (incrUnallocated reclaimed .grant, _) = _
  rw [alone_credit]
  show Pool.alone step 4 (readAgain, _) = _
  rw [alone_readAgain, alone_grant]
  rfl

end Serves

theorem wp_grantMemory_mem {m : Manager} {req : Msg} {g : Global.Mem} {Q : Global.Mem → Prop}
    (h : Q (granted g)) :
    wp (grantMemory req g.unallocatedMemoryInPages) (fun _ m' => Q m'.ec.mem) (fun _ _ => True)
      { m with ec := { m.ec with mem := g } } := by
  refine wp_grantMemory (fun _ _ => trivial) fun sc _ => ?_
  rw [ElasticContainer.mem_modifyBack]
  exact h

/-- **A request that nothing interrupts is the sequential one.** -/
theorem serves_handleMemReq {m : Manager} {env : Env} {req : Msg} {clifd : Int}
    (ht : req.reqType = EcGcm.memReq) :
    wp (handleMemReq env req clifd) (fun _ m' => Serves m.ec.mem m'.ec.mem) (fun _ _ => True)
      m := by
  by_cases hpool : m.ec.mem.unallocatedMemoryInPages > 0
  · exact wp_handleMemReq_of_pool ht (fun _ => trivial) hpool
      (wp_grantMemory_mem (serves_pool hpool))
  · refine wp_handleMemReq_of_empty ht (fun _ => trivial) hpool ?_
    refine wp_mono (sameMem_reclaim.handleReclaimMemory.wp m) (fun freed t hsame => ?_)
      (fun _ _ _ => trivial)
    have hmem : t.ec.mem = m.ec.mem := hsame
    rw [hmem]
    refine ⟨fun _ => serves_nothing hpool, fun hpos hneg g hg => ?_, fun hpos hneg => ?_⟩
    · refine wp_grantMemory_mem (g := credited freed g) ?_
      rw [hg]
      exact serves_filledUp hpool hneg hpos
    · exact wp_grantMemory_mem (serves_reclaimed hpool hneg hpos)

/-- **And so is a start-up whose pod fits.** -/
theorem run_chargeNewPod {m : Manager} {env : Env} {id : ContainerId} {clifd : Int}
    {pages : UInt64} {memlock : Bool}
    (hfits : pages ≤ m.ec.mem.unallocatedMemoryInPages.toUInt64) :
    ∃ m', (chargeNewPod env id clifd pages).run m = .ret ⟨⟩ m' ∧
      interleaved.Run ⟨⟨m.ec.mem, memlock⟩, [startUp pages]⟩ ⟨⟨m'.ec.mem, memlock⟩, [done]⟩ := by
  have hrun : (chargeNewPod env id clifd pages).run m =
      .ret ⟨⟩ { m with ec := { m.ec with mem := charged pages m.ec.mem } } := by
    unfold chargeNewPod
    rw [run_bind_of_ret run_get, if_pos hfits]
    rfl
  have halone : Pool.alone step 3 (startUp pages, ⟨m.ec.mem, memlock⟩) =
      (done, ⟨charged pages m.ec.mem, memlock⟩) := by
    simp only [Pool.alone, step, if_pos hfits]
    rfl
  exact ⟨_, hrun, Pool.run_of_alone halone⟩

end MemThread

end EcGcm
