import EcGcm.Proof.SlidingMean
import EcGcm.Stats.Local

/-!
# What the throttle mean measures

The kernel's throttle counter is cumulative and has 32 bits in a report. `insert_th_stats` inserts
the difference to the last report, modulo `2^32`, which is the true increase however often the
counter has come round. The samples since the last flush are then the increases of a stretch of
reports, and their sum telescopes.

So the mean is the increase of the counter over the last ten reports, or over those since the flush
where they are fewer, divided by ten or by the number of all reports so far. The divisor does not
know of the flush.
-/

set_option autoImplicit false

namespace EcGcm

/-- The increases of a counter up to report `k`, newest first, from the one after report `f`. -/
def increases (counter : ℕ → ℕ) (f k : ℕ) : List ℕ :=
  (List.range (k - f)).map fun a => counter (k - a) - counter (k - a - 1)

section Increases

variable {counter : ℕ → ℕ} {f k : ℕ}

theorem increases_self : increases counter k k = [] := by
  unfold increases
  rw [Nat.sub_self, List.range_zero, List.map_nil]

theorem increases_succ (h : f ≤ k) :
    increases counter f (k + 1) = (counter (k + 1) - counter k) :: increases counter f k := by
  unfold increases
  rw [show k + 1 - f = k - f + 1 by omega, List.range_succ_eq_map, List.map_cons, List.map_map]
  refine congrArg₂ _ rfl (List.map_congr_left fun a _ => ?_)
  show counter (k + 1 - (a + 1)) - counter (k + 1 - (a + 1) - 1) = _
  rw [Nat.add_sub_add_right]

theorem sum_increases (hmono : Monotone counter) {j : ℕ} (hj : j ≤ k) :
    ((List.range j).map fun a => counter (k - a) - counter (k - a - 1)).sum =
      counter k - counter (k - j) := by
  induction j with
  | zero => rw [List.range_zero, List.map_nil, List.sum_nil, Nat.sub_zero, Nat.sub_self]
  | succ j ih =>
    rw [List.range_succ, List.map_append, List.sum_append, ih (by omega), List.map_singleton,
      List.sum_singleton, Nat.sub_sub k j 1]
    have hlast : counter (k - (j + 1)) ≤ counter (k - j) := hmono (by omega)
    have hall : counter (k - j) ≤ counter k := hmono (by omega)
    omega

/-- The increase over the last `size` reports, or since the flush. -/
theorem sum_take_increases (hmono : Monotone counter) (h : f ≤ k) (size : ℕ) :
    ((increases counter f k).take size).sum = counter k - counter (max (k - size) f) := by
  unfold increases
  rw [← List.map_take, List.take_range, sum_increases hmono (by omega)]
  congr 2
  omega

end Increases

/-- The difference of two reports is the true increase. -/
theorem toNat_sub_ofNat {a b : ℕ} (hle : a ≤ b) (hlt : b < a + 2 ^ 32) :
    (UInt32.ofNat b - UInt32.ofNat a).toNat = b - a := by
  rw [UInt32.toNat_sub, UInt32.toNat_ofNat', UInt32.toNat_ofNat']
  omega

/-- A container's CPU record, how many reports have come in, and how many there were at the last
flush. -/
structure Throttled where
  cpu : Local.Cpu
  reports : ℕ
  flushedAt : ℕ

namespace Throttled

/-- What is done to a record. The samples of the other window may come at any time. -/
inductive Call
  | report
  | flush
  | insertRtStats (element : UInt64)

/-- The record of a container that has just been admitted. -/
def admitted (quota : UInt64) (nrThrottled : UInt32) : Throttled := ⟨.new quota nrThrottled, 0, 0⟩

/-- Report number `k` carries the low 32 bits of `counter k`. -/
def calls (counter : ℕ → ℕ) : System Throttled Call where
  enabled _ _ := True
  next
    | .report, t => some
      { t with
        cpu := (t.cpu.insertThStats .exact (UInt32.ofNat (counter (t.reports + 1)))).2
        reports := t.reports + 1 }
    | .flush, t => some { t with cpu := t.cpu.flush, flushedAt := t.reports }
    | .insertRtStats element, t => some { t with cpu := (t.cpu.insertRtStats .exact element).2 }

instance (counter : ℕ → ℕ) (t : Throttled) (c : Call) : Decidable ((calls counter).enabled t c) :=
  .isTrue trivial

variable {counter : ℕ → ℕ} {t t' : Throttled}

/-- The record remembers the last report, and its window has the increases since the flush. -/
structure ThrottleInv (counter : ℕ → ℕ) (t : Throttled) : Prop where
  last : t.cpu.nrThrottled = UInt32.ofNat (counter t.reports)
  flushed : t.flushedAt ≤ t.reports
  winsize : t.cpu.thWinstats.winsize = Local.windowStatSize
  averages : t.reports + 1 < 2 ^ 32 →
    t.cpu.thWinstats.Averages t.reports (increases counter t.flushedAt t.reports)

theorem throttleInv_admitted {quota : UInt64} :
    ThrottleInv counter (admitted quota (UInt32.ofNat (counter 0))) where
  last := rfl
  flushed := le_rfl
  winsize := rfl
  averages _ := Window.averages_new Local.windowStatSize

theorem toNat_windowStatSize : Local.windowStatSize.toNat = 10 := rfl

section Report

variable (hmono : Monotone counter) (hstep : ∀ k, counter (k + 1) < counter k + 2 ^ 32)

include hmono hstep

/-- The sample is the true increase. -/
theorem ThrottleInv.sample (h : ThrottleInv counter t) :
    (t.cpu.getThrottleIncrease (UInt32.ofNat (counter (t.reports + 1)))).toNat =
      counter (t.reports + 1) - counter t.reports := by
  unfold Local.Cpu.getThrottleIncrease
  rw [h.last]
  exact toNat_sub_ofNat (hmono (Nat.le_succ _)) (hstep _)

/-- The mean that a report returns. -/
theorem ThrottleInv.mean (h : ThrottleInv counter t) (hn : t.reports + 1 < 2 ^ 32) :
    (t.cpu.insertThStats .exact (UInt32.ofNat (counter (t.reports + 1)))).1 =
      (counter (t.reports + 1) - counter (max (t.reports + 1 - 10) t.flushedAt) : ℕ) /
        (min (t.reports + 1) 10 : ℕ) := by
  have hsize : t.cpu.thWinstats.winsize.toNat = 10 := by rw [h.winsize, toNat_windowStatSize]
  have hinserted := (h.averages hn).mean_insert (x := counter (t.reports + 1) - counter t.reports)
    (by omega) (by omega)
  rw [← increases_succ h.flushed, hsize,
    sum_take_increases hmono (h.flushed.trans (Nat.le_succ _))] at hinserted
  show (t.cpu.thWinstats.insert .exact _).mean = _
  rw [h.sample hmono hstep]
  exact hinserted

theorem ThrottleInv.next {c : Call} (h : ThrottleInv counter t)
    (hnext : (calls counter).next c t = some t') : ThrottleInv counter t' := by
  have hsize : t.cpu.thWinstats.winsize.toNat = 10 := by rw [h.winsize, toNat_windowStatSize]
  cases c with
  | report =>
    cases hnext
    refine ⟨rfl, h.flushed.trans (Nat.le_succ _), h.winsize, fun hn => ?_⟩
    show (t.cpu.thWinstats.insert .exact _).Averages (t.reports + 1)
      (increases counter t.flushedAt (t.reports + 1))
    rw [h.sample hmono hstep, increases_succ h.flushed]
    dsimp only at hn
    exact (h.averages (by omega)).insert (by omega) (by omega) (by omega)
  | flush =>
    cases hnext
    refine ⟨h.last, le_rfl, h.winsize, fun hn => ?_⟩
    show t.cpu.thWinstats.flush.Averages t.reports (increases counter t.reports t.reports)
    rw [increases_self]
    exact (h.averages hn).flush
  | insertRtStats element =>
    cases hnext
    exact ⟨h.last, h.flushed, h.winsize, h.averages⟩

end Report

/-- **Throttle means measure the kernel's counter.** -/
theorem throttle_mean_exact {quota : UInt64} (hmono : Monotone counter)
    (hstep : ∀ k, counter (k + 1) < counter k + 2 ^ 32)
    (hrun : (calls counter).Run (admitted quota (UInt32.ofNat (counter 0))) t)
    (hcount : t.reports + 1 ≤ 2 ^ 32 - 1) :
    (t.cpu.insertThStats .exact (UInt32.ofNat (counter (t.reports + 1)))).1 =
      (counter (t.reports + 1) - counter (max (t.reports + 1 - 10) t.flushedAt) : ℕ) /
        (min (t.reports + 1) 10 : ℕ) := by
  have hinv : ThrottleInv counter t :=
    System.invariant throttleInv_admitted (fun _ _ _ ht _ hnext => ht.next hmono hstep hnext) hrun
  exact hinv.mean hmono hstep (by omega)

/-- A counter that starts just below `2^32` and goes up by three. -/
def nearWrap (k : ℕ) : ℕ := 2 ^ 32 - 4 + 3 * k

/-- Two reports, the second of which has come round, a flush, and a third report: of the nine the
counter has gone up, the three since the flush are divided by three. -/
theorem throttle_mean_exact_of_wrap :
    ∃ t, (calls nearWrap).Run (admitted 0 (UInt32.ofNat (nearWrap 0))) t ∧ t.reports = 2 ∧
      t.flushedAt = 2 ∧ (t.cpu.insertThStats .exact (UInt32.ofNat (nearWrap 3))).1 = 1 := by
  have hreplay : (((calls nearWrap).replay [.report, .insertRtStats 5, .report, .flush]
      (admitted 0 (UInt32.ofNat (nearWrap 0)))).any fun t =>
        decide (t.reports = 2 ∧ t.flushedAt = 2)) = true := by
    decide +kernel
  obtain ⟨t, hrun, htest⟩ := System.exists_run_of_replay hreplay
  obtain ⟨hreports, hflushed⟩ := of_decide_eq_true htest
  have hmean := throttle_mean_exact (fun a b hab => by unfold nearWrap; omega)
    (fun k => by unfold nearWrap; omega) hrun (by rw [hreports]; decide)
  refine ⟨t, hrun, hreports, hflushed, ?_⟩
  rw [hreports, hflushed] at hmean
  rw [hmean]
  decide +kernel

end Throttled

end EcGcm
