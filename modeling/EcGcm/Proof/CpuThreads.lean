import EcGcm.Lib.Threads
import EcGcm.Proof.Counters
import EcGcm.Proof.DeleteFrame

/-!
# Admissions and deletions that overlap

Every connection has a thread, and so has every RPC of the deployer. The accessors of the CPU
counters are atomic, the calls made of them are not: `determine_quota_for_new_pod` reads the pool
up to four times before it writes it, and its last branch writes an absolute 0 over whatever the
pool has become since. Here an accessor is one step, and a thread is the point its call has reached.

`run_determineQuotaForNewPod` and `run_deletePod` say that a call that nothing interrupts is the
handler of the sequential model.
-/

set_option autoImplicit false

namespace EcGcm

open Word Handler Manager

/-- The next accessor of a call, and what the call has in its local variables. -/
inductive CpuThread
  /-- `determine_quota_for_new_pod`: `quota <= get_unallocated_rt()`. -/
  | admission (reqQuota : UInt64)
  | decrUnallocatedRt (reqQuota : UInt64)
  /-- `!get_unallocated_rt()`. -/
  | testEmpty (reqQuota : UInt64)
  | getSlice
  | incrOverrun (quota : UInt64)
  /-- `quota > get_unallocated_rt()`. -/
  | testMore (reqQuota : UInt64)
  | getUnallocatedRt
  /-- `set_unallocated_rt(0)`, with the value just read. -/
  | clearUnallocatedRt (quota : UInt64)
  | incrAllocRt (quota : UInt64)
  /-- The refund of `DeletePod`. -/
  | decrAllocRt (quota : UInt64)
  | incrUnallocatedRt (quota : UInt64)
  | done
  deriving DecidableEq

namespace CpuThread

/-- One accessor. -/
def step : CpuThread → Global.Cpu → Option (CpuThread × Global.Cpu)
  | admission req, c =>
    some (if req ≤ c.unallocatedRt then decrUnallocatedRt req else testEmpty req, c)
  | decrUnallocatedRt req, c => some (incrAllocRt req, c.decrUnallocatedRt req)
  | testEmpty req, c => some (if c.unallocatedRt = 0 then getSlice else testMore req, c)
  | getSlice, c => some (incrOverrun c.sliceSize, c)
  | incrOverrun quota, c => some (incrAllocRt quota, c.incrOverrun quota)
  -- by now the request may fit: then no branch is taken
  | testMore req, c => some (if req > c.unallocatedRt then getUnallocatedRt else done, c)
  | getUnallocatedRt, c => some (clearUnallocatedRt c.unallocatedRt, c)
  | clearUnallocatedRt quota, c => some (incrAllocRt quota, c.setUnallocatedRt 0)
  | incrAllocRt quota, c => some (done, c.incrAllocRt quota)
  | decrAllocRt quota, c => some (incrUnallocatedRt quota, c.decrAllocRt quota)
  | incrUnallocatedRt quota, c => some (done, c.incrUnallocatedRt quota)
  | done, _ => none

/-- A call that has not begun. -/
def isStart : CpuThread → Bool
  | admission _ => true
  | decrAllocRt _ => true
  | _ => false

/-- What a call has taken out of one counter and not put into the other. -/
def owes : CpuThread → ℤ
  | incrAllocRt quota => quota.toNat
  | incrUnallocatedRt quota => quota.toNat
  | _ => 0

/-- What the next accessor has to find for its update to be neither lost nor clipped. -/
def Exact : CpuThread → Global.Cpu → Prop
  | decrUnallocatedRt req, c => req ≤ c.unallocatedRt ∧ c.unallocatedRt.toNat < 2 ^ 63
  | clearUnallocatedRt quota, c => c.unallocatedRt = quota
  | incrOverrun quota, c => c.overrun.toNat + quota.toNat < 2 ^ 64
  | incrAllocRt quota, c => c.allocRt.toNat + quota.toNat < 2 ^ 64
  | decrAllocRt quota, c => quota ≤ c.allocRt ∧ c.allocRt.toNat < 2 ^ 63
  | incrUnallocatedRt quota, c => c.unallocatedRt.toNat + quota.toNat < 2 ^ 64
  | _, _ => True

instance : (t : CpuThread) → (c : Global.Cpu) → Decidable (t.Exact c)
  | admission _, _ => .isTrue trivial
  | decrUnallocatedRt _, _ => inferInstanceAs (Decidable (_ ∧ _))
  | testEmpty _, _ => .isTrue trivial
  | getSlice, _ => .isTrue trivial
  | incrOverrun _, _ => inferInstanceAs (Decidable (_ < _))
  | testMore _, _ => .isTrue trivial
  | getUnallocatedRt, _ => .isTrue trivial
  | clearUnallocatedRt _, _ => inferInstanceAs (Decidable (_ = _))
  | incrAllocRt _, _ => inferInstanceAs (Decidable (_ < _))
  | decrAllocRt _, _ => inferInstanceAs (Decidable (_ ∧ _))
  | incrUnallocatedRt _, _ => inferInstanceAs (Decidable (_ < _))
  | done, _ => .isTrue trivial

end CpuThread

/-- `alloc_rt + unallocated_rt = total_cpu + overrun`. -/
def Global.Cpu.Balanced (c : Global.Cpu) : Prop :=
  c.allocRt.toNat + c.unallocatedRt.toNat = c.totalCpu.toNat + c.overrun.toNat

instance Global.Cpu.decidableBalanced (c : Global.Cpu) : Decidable c.Balanced :=
  inferInstanceAs (Decidable (_ = _))

/-- How far the counters are from being balanced. -/
def Global.Cpu.excess (c : Global.Cpu) : ℤ :=
  (c.allocRt.toNat + c.unallocatedRt.toNat : ℤ) - (c.totalCpu.toNat + c.overrun.toNat)

theorem Global.Cpu.balanced_iff_excess {c : Global.Cpu} : c.Balanced ↔ c.excess = 0 := by
  unfold Balanced excess
  omega

namespace CpuThread

/-! ## One accessor -/

variable {t t' : CpuThread} {c c' : Global.Cpu}

theorem satSub_of_le {a d : UInt64} (hle : d ≤ a) (ha : a.toNat < 2 ^ 63) :
    (satSub a d).toNat + d.toNat = a.toNat := by
  have hle' : d.toNat ≤ a.toNat := UInt64.le_iff_toNat_le.mp hle
  have hamount : amount d = d.toNat := amount_of_lt (by omega)
  have := satSub_toNat ha (amount_le_of_le ha hle')
  omega

/-- An exact accessor moves what the call owes. -/
theorem Exact.excess_step (h : t.Exact c) (hstep : t.step c = some (t', c')) :
    c'.excess + t'.owes = c.excess + t.owes := by
  cases t with
  | admission req =>
    cases hstep
    split <;> rfl
  | testEmpty req =>
    cases hstep
    split <;> rfl
  | testMore req =>
    cases hstep
    split <;> rfl
  | getSlice =>
    cases hstep
    rfl
  | getUnallocatedRt =>
    cases hstep
    rfl
  | decrUnallocatedRt req =>
    cases hstep
    have := satSub_of_le h.1 h.2
    simp only [Global.Cpu.excess, Global.Cpu.decrUnallocatedRt, owes]
    omega
  | clearUnallocatedRt quota =>
    cases hstep
    have hseen : c.unallocatedRt = quota := h
    simp only [Global.Cpu.excess, Global.Cpu.setUnallocatedRt, owes, hseen, UInt64.toNat_zero]
    omega
  | incrOverrun quota =>
    cases hstep
    have := add_toNat_of_lt h
    simp only [Global.Cpu.excess, Global.Cpu.incrOverrun, owes]
    omega
  | incrAllocRt quota =>
    cases hstep
    have := add_toNat_of_lt h
    simp only [Global.Cpu.excess, Global.Cpu.incrAllocRt, owes]
    omega
  | decrAllocRt quota =>
    cases hstep
    have := satSub_of_le h.1 h.2
    simp only [Global.Cpu.excess, Global.Cpu.decrAllocRt, owes]
    omega
  | incrUnallocatedRt quota =>
    cases hstep
    have := add_toNat_of_lt h
    simp only [Global.Cpu.excess, Global.Cpu.incrUnallocatedRt, owes]
    omega
  | done => cases hstep

theorem owes_of_isStart (h : t.isStart = true) : t.owes = 0 := by
  cases t <;> first | rfl | cases h

/-! ## Whole runs -/

/-- Any number of calls, in any order of their accessors. -/
abbrev interleaved : System (Pool Global.Cpu CpuThread) ℕ := Pool.interleaving step

/-- **No CPU is lost as long as every accessor finds what its call expects of it.** -/
theorem cpu_counters_balanced_of_run (c : Global.Cpu) (calls : List CpuThread)
    (p : Pool Global.Cpu CpuThread)
    (hcalls : ∀ t ∈ calls, t.isStart = true) (hc : c.Balanced)
    (hrun : (interleaved.only (Pool.Moving Exact)).Run ⟨c, calls⟩ p) (hdone : p.AllAt done) :
    p.shared.Balanced := by
  have hkept := Pool.balance_of_run (fun _ _ _ _ h hstep => Exact.excess_step h hstep) hrun
  rw [Pool.balance_of_owes_nothing fun t ht => by rw [hdone t ht]; rfl,
    Pool.balance_of_owes_nothing fun t ht => owes_of_isStart (hcalls t ht)] at hkept
  rw [Global.Cpu.balanced_iff_excess] at hc ⊢
  exact hkept.trans hc

/-- A pool of 5 and 7 allocated. -/
def fiveAndSeven : Global.Cpu where
  sliceSize := 30000000
  unallocatedRt := 5
  totalCpu := 12
  overrun := 0
  allocRt := 7
  clipped := 0

/-- An admission that needs more than the pool has, another one right behind it that has to
borrow, and a refund whose first half comes in between. -/
theorem cpu_counters_balanced_of_overlap :
    ∃ p, (interleaved.only (Pool.Moving Exact)).Run
        ⟨fiveAndSeven, [admission 10, admission 3, decrAllocRt 7]⟩ p ∧
      p.AllAt done ∧ p.shared.Balanced := by
  have hreplay : (((interleaved.only (Pool.Moving Exact)).replay
      [0, 0, 2, 0, 0, 0, 1, 1, 1, 0, 1, 2, 1]
      ⟨fiveAndSeven, [admission 10, admission 3, decrAllocRt 7]⟩).any
      fun p => p.AllAt done) = true := by
    decide +kernel
  obtain ⟨p, hrun, hp⟩ := System.exists_run_of_replay hreplay
  have hdone := of_decide_eq_true hp
  exact ⟨p, hrun, hdone, cpu_counters_balanced_of_run _ _ p (by decide) (by decide) hrun hdone⟩

/-- The refund of 7 comes between the reading of the pool and the 0 that is written over it. -/
theorem refund_overwritten :
    ¬ ∀ (c : Global.Cpu) (calls : List CpuThread) (p : Pool Global.Cpu CpuThread),
      (∀ t ∈ calls, t.isStart = true) → c.Balanced → interleaved.Run ⟨c, calls⟩ p →
        p.AllAt done → p.shared.Balanced := by
  intro hclaim
  have hreplay : ((interleaved.replay [0, 0, 0, 0, 1, 1, 0, 0]
      ⟨fiveAndSeven, [admission 10, decrAllocRt 7]⟩).any fun p =>
        p.AllAt done ∧ ¬ p.shared.Balanced) = true := by
    decide +kernel
  obtain ⟨p, hrun, hp⟩ := System.exists_run_of_replay hreplay
  obtain ⟨hdone, hnot⟩ := of_decide_eq_true hp
  exact hnot (hclaim _ _ p (by decide) (by decide) hrun hdone)

/-! ## Calls that nothing interrupts -/

theorem alone_determineQuotaForNewPod (m : Manager) (reqQuota : UInt64) :
    ∃ r m', (determineQuotaForNewPod reqQuota).run m = .ret r m' ∧
      Pool.alone step 6 (admission reqQuota, m.ec.cpu) = (done, m'.ec.cpu) := by
  unfold determineQuotaForNewPod
  rw [run_bind_of_ret run_get]
  simp only [Pool.alone, step]
  by_cases hle : reqQuota ≤ m.ec.cpu.unallocatedRt
  · rw [if_pos hle, if_pos hle]
    exact ⟨_, _, rfl, rfl⟩
  · rw [if_neg hle, if_neg hle]
    by_cases hzero : m.ec.cpu.unallocatedRt = 0
    · rw [if_pos hzero]
      simp only [hzero, if_true]
      exact ⟨_, _, rfl, rfl⟩
    · have hmore : reqQuota > m.ec.cpu.unallocatedRt := by
        rw [UInt64.le_iff_toNat_le] at hle
        rw [gt_iff_lt, UInt64.lt_iff_toNat_lt]
        omega
      rw [if_neg hzero]
      simp only [hzero, hmore, if_false, if_true]
      exact ⟨_, _, rfl, rfl⟩

/-- **An admission that nothing interrupts is the sequential one.** -/
theorem run_determineQuotaForNewPod (m : Manager) (reqQuota : UInt64) :
    ∃ r m', (determineQuotaForNewPod reqQuota).run m = .ret r m' ∧
      interleaved.Run ⟨m.ec.cpu, [admission reqQuota]⟩ ⟨m'.ec.cpu, [done]⟩ := by
  obtain ⟨r, m', hrun, halone⟩ := alone_determineQuotaForNewPod m reqQuota
  exact ⟨r, m', hrun, Pool.run_of_alone halone⟩

/-- **And so is the refund of a deletion.** -/
theorem run_deletePod {m : Manager} {d : String} {id : ContainerId} {front : SubContainer} :
    interleaved.Run ⟨m.ec.cpu, [decrAllocRt front.quota]⟩
      ⟨(m.afterDelete d id front).ec.cpu, [done]⟩ := by
  refine Pool.run_of_alone (n := 2) ?_
  rw [cpu_afterDelete]
  rfl

end CpuThread

end EcGcm
