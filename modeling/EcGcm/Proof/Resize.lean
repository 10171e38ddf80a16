import EcGcm.Proof.Counters

/-!
# What the `else if` chain can decide

Seven branches choose a new quota by seven formulas. This file says once, for all of them, what
comes out: a transfer of one of the four kinds, whose amount is exactly the change of the quota,
and which stays within what it draws on (`Resize.Pays`). Everything about CPU reports that is
proved later starts from `resize_pays` and never looks at a formula again.

`bound` is what a `take` may draw. With the pool as bound the transfer is covered; the small-gap
rule of the fair-share branch is not capped by the pool, so there the fair share itself has to
serve as bound, or the pool has to be large enough.
-/

set_option autoImplicit false

namespace EcGcm

open Word

/-- A resize from the quota `rx` whose transfer pays for exactly the change of the quota. -/
inductive Resize.Pays (rx overrun : UInt64) (bound : ℕ) : Resize → Prop
  | take (q d : UInt64) (hq : (q.toNat : Int) = rx.toNat + amount d) (hd : amount d ≤ bound) :
      Pays rx overrun bound ⟨q, .take d⟩
  | give (q d : UInt64) (hq : q.toNat + d.toNat = rx.toNat) :
      Pays rx overrun bound ⟨q, .give d⟩
  | borrow (q d : UInt64) (hq : q.toNat = rx.toNat + d.toNat) (hd : d.toNat ≤ 2 ^ 63) :
      Pays rx overrun bound ⟨q, .borrow d⟩
  | shed (q d : UInt64) (hq : q.toNat + d.toNat = rx.toNat) (hd : d.toNat ≤ overrun.toNat) :
      Pays rx overrun bound ⟨q, .shed d⟩

namespace Reading

/-- A resize that pays, from the quota the reading reports. -/
abbrev Pays (r : Reading) (bound : ℕ) (rz : Resize) : Prop :=
  rz.Pays r.rxQuota r.overrun bound

variable {r : Reading} {rz : Resize} {bound : ℕ}

/-! ## Branch by branch -/

theorem wakeUp_pays (hU : r.unallocatedRt.toNat < 2 ^ 63) (hrx : r.rxQuota.toNat < 2 ^ 63)
    (hb : r.unallocatedRt.toNat ≤ bound) (h : r.wakeUp = some rz) : r.Pays bound rz := by
  have hmin := toNat_min r.unallocatedRt oneCore
  have hlt : (min r.unallocatedRt oneCore).toNat < 2 ^ 63 := by rw [hmin]; omega
  have hamount := amount_sub hlt hrx
  simp only [wakeUp] at h
  split at h
  · cases h
    refine .take _ _ (by rw [hamount]; omega) ?_
    rw [hamount, hmin]
    omega
  · exact absurd h (by simp)

/-! ### Overrun recovery

Once the share is at least a slice, the step stays within the excess, up to what the rounding of
words of 64 bits adds. Below `2 ^ 50` that is less than one, and the cast takes it away. -/

theorem amntShareOver_toNat (hF : r.fairCpuShare < r.rxQuota) :
    r.amntShareOver.toNat = r.rxQuota.toNat - r.fairCpuShare.toNat :=
  UInt64.toNat_sub_of_le _ _ (UInt64.le_of_lt hF)

/-- The excess over the share, in doubles. -/
def excess (r : Reading) : ℚ :=
  r.rounding.sub (r.rounding.ofNat r.rxQuota.toNat) (r.rounding.ofNat r.fairCpuShare.toNat)

theorem excess_nonneg (hF : r.fairCpuShare < r.rxQuota) : 0 ≤ r.excess :=
  r.rounding.fl_nonneg
    (sub_nonneg.mpr (r.rounding.ofNat_mono (UInt64.lt_iff_toNat_lt.mp hF).le))

/-- A percentage of a slice, before it is cast. -/
theorem percentOver_mul_le (hS : r.slice ≤ r.fairCpuShare) (h0 : 0 < r.slice.toNat)
    (hsmall : r.slice.toNat ≤ 2 ^ 53) (hF : r.fairCpuShare < r.rxQuota) :
    r.percentOver * r.rounding.ofNat r.slice.toNat ≤ r.excess * (1 + 1 / 2 ^ 53) := by
  have hSF : r.rounding.ofNat r.slice.toNat ≤ r.rounding.ofNat r.fairCpuShare.toNat :=
    r.rounding.ofNat_mono (UInt64.le_iff_toNat_le.mp hS)
  have hSpos : 0 < r.rounding.ofNat r.slice.toNat := by
    rw [r.rounding.ofNat_eq hsmall]
    exact_mod_cast h0
  exact r.rounding.div_mul_le (excess_nonneg hF) (hSpos.trans_le hSF) hSpos.le hSF

theorem overStep_le_add (hS : r.slice ≤ r.fairCpuShare) (hslice : r.slice = 30000000)
    (hF : r.fairCpuShare < r.rxQuota) : r.overStep.toNat ≤ r.amntShareOver.toNat + 2 ^ 14 := by
  have hs : r.slice.toNat = 30000000 := by rw [hslice]; rfl
  have hSF := UInt64.le_iff_toNat_le.mp hS
  have hlt := UInt64.lt_iff_toNat_lt.mp hF
  have hword := r.rxQuota.toNat_lt
  have hover := amntShareOver_toNat hF
  have hcast : (r.amntShareOver.toNat : ℚ) = (r.rxQuota.toNat : ℚ) - r.fairCpuShare.toNat := by
    rw [hover, Nat.cast_sub hlt.le]
  have hrx : (r.rxQuota.toNat : ℚ) ≤ 2 ^ 64 := by exact_mod_cast hword.le
  have hshare : (30000000 : ℚ) ≤ r.fairCpuShare.toNat := by exact_mod_cast hs ▸ hSF
  have hgap : (r.fairCpuShare.toNat : ℚ) ≤ r.rxQuota.toNat := by exact_mod_cast hlt.le
  unfold overStep
  split
  · -- more than twice the share: the step is a percentage of the slice
    have hup := r.rounding.fl_le_add (x := r.rxQuota.toNat) (Nat.cast_nonneg _) hrx
    have hdown := r.rounding.le_fl_add (x := r.fairCpuShare.toNat) (Nat.cast_nonneg _)
      (hgap.trans hrx)
    have hdiff : 0 ≤ r.rounding.ofNat r.rxQuota.toNat - r.rounding.ofNat r.fairCpuShare.toNat :=
      sub_nonneg.mpr (r.rounding.ofNat_mono hlt.le)
    have hexcess : r.excess ≤ r.rxQuota.toNat - r.fairCpuShare.toNat + 3 * 2 ^ 11 := by
      have hround := r.rounding.fl_le_add hdiff (by unfold Rounding.ofNat; linarith)
      unfold excess Rounding.sub
      unfold Rounding.ofNat at hround ⊢
      linarith
    have hpercent := percentOver_mul_le hS (by omega) (by omega) hF
    have hnonneg := excess_nonneg hF
    have hproduct : 0 ≤ r.percentOver * r.rounding.ofNat r.slice.toNat :=
      mul_nonneg (r.rounding.fl_nonneg (div_nonneg hnonneg (r.rounding.ofNat_nonneg _)))
        (r.rounding.ofNat_nonneg _)
    have hround := r.rounding.fl_le_add hproduct (by linarith)
    refine truncToUInt64_le ?_
    push_cast
    rw [hcast]
    unfold Rounding.mul
    linarith
  · rename_i hle
    have hround := r.rounding.fl_le_add (x := r.amntShareOver.toNat) (Nat.cast_nonneg _)
      (by rw [hcast]; linarith)
    have hpart := r.rounding.mul_le_right (not_lt.mp hle)
      (r.rounding.ofNat_nonneg r.amntShareOver.toNat) (r.rounding.fl_ofNat _)
    refine truncToUInt64_le (hpart.trans ?_)
    push_cast
    unfold Rounding.ofNat
    linarith

/-- Where the rounding does not reach the last place, the step stays within the excess. -/
theorem overStep_le (hS : r.slice ≤ r.fairCpuShare) (hslice : r.slice = 30000000)
    (hF : r.fairCpuShare < r.rxQuota) (hsmall : r.rxQuota.toNat ≤ 2 ^ 50) :
    r.overStep.toNat ≤ r.amntShareOver.toNat := by
  have hs : r.slice.toNat = 30000000 := by rw [hslice]; rfl
  have hlt := UInt64.lt_iff_toNat_lt.mp hF
  have hover := amntShareOver_toNat hF
  have hcast : (r.amntShareOver.toNat : ℚ) = (r.rxQuota.toNat : ℚ) - r.fairCpuShare.toNat := by
    rw [hover, Nat.cast_sub hlt.le]
  have hexcess : r.excess = r.amntShareOver.toNat := by
    have hfix := r.rounding.ofNat_eq (n := r.amntShareOver.toNat) (by omega)
    unfold excess Rounding.sub
    rw [r.rounding.ofNat_eq (by omega), r.rounding.ofNat_eq (by omega), ← hcast]
    exact hfix
  unfold overStep
  split
  · have hpercent := percentOver_mul_le hS (by omega) (by omega) hF
    rw [hexcess] at hpercent
    have hbound : (r.amntShareOver.toNat : ℚ) ≤ 2 ^ 50 := by exact_mod_cast (by omega)
    have hnonneg := excess_nonneg hF
    have hproduct : 0 ≤ r.percentOver * r.rounding.ofNat r.slice.toNat :=
      mul_nonneg (r.rounding.fl_nonneg (div_nonneg hnonneg (r.rounding.ofNat_nonneg _)))
        (r.rounding.ofNat_nonneg _)
    have hround := r.rounding.fl_le_mul hproduct
    refine truncToUInt64_le_of_lt ?_
    unfold Rounding.mul
    linarith
  · rename_i hle
    have hfix := r.rounding.ofNat_eq (n := r.amntShareOver.toNat) (by omega)
    refine truncToUInt64_le (le_trans ?_ hfix.le)
    exact r.rounding.mul_le_right (not_lt.mp hle) (r.rounding.ofNat_nonneg _)
      (r.rounding.fl_ofNat _)

theorem overShare_le (hS : r.slice ≤ r.fairCpuShare) (hslice : r.slice = 30000000)
    (hF : r.fairCpuShare < r.rxQuota) : r.overShare.toNat ≤ r.rxQuota.toNat := by
  have hs : r.slice.toNat = 30000000 := by rw [hslice]; rfl
  have hstep := overStep_le_add hS hslice hF
  have hover := amntShareOver_toNat hF
  rw [UInt64.le_iff_toNat_le] at hS
  rw [UInt64.lt_iff_toNat_lt] at hF
  unfold overShare
  split <;> omega

theorem recoverOverrun_pays (hS : r.slice ≤ r.fairCpuShare) (hslice : r.slice = 30000000)
    (hF : r.fairCpuShare < r.rxQuota) (h : r.recoverOverrun = some rz) : r.Pays bound rz := by
  have hle := overShare_le hS hslice hF
  have hmin : r.toSub.toNat = min r.overrun.toNat r.overShare.toNat := toNat_min _ _
  have hsub : r.toSub ≤ r.rxQuota := by
    rw [UInt64.le_iff_toNat_le]
    omega
  simp only [recoverOverrun, Option.some.injEq] at h
  subst h
  refine .shed _ _ ?_ (by omega)
  rw [UInt64.toNat_sub_of_le _ _ hsub]
  rw [UInt64.le_iff_toNat_le] at hsub
  omega

/-! ### Topping up

Both formulas of the fair-share branch stop at the fair share, or at the double next to the
distance. -/

theorem percentUnder_le_one : r.percentUnder ≤ 1 :=
  r.rounding.div_le_one
    (r.rounding.sub_le (r.rounding.ofNat_nonneg _) (r.rounding.fl_ofNat _))
    (r.rounding.ofNat_nonneg _)

theorem underShare_le {n : ℕ} (h : r.rounding.ofNat r.amntShareLacking.toNat ≤ n) :
    r.underShare.toNat ≤ n :=
  truncToUInt64_le ((r.rounding.mul_le_right percentUnder_le_one (r.rounding.ofNat_nonneg _)
    (r.rounding.fl_ofNat _)).trans h)

theorem amntShareLacking_toNat (hF : r.rxQuota < r.fairCpuShare) :
    r.amntShareLacking.toNat = r.fairCpuShare.toNat - r.rxQuota.toNat :=
  UInt64.toNat_sub_of_le _ _ (UInt64.le_iff_toNat_le.mpr (UInt64.lt_iff_toNat_lt.mp hF).le)

theorem toAdd_le (hF : r.rxQuota < r.fairCpuShare)
    (hgap : r.rounding.ofNat r.amntShareLacking.toNat ≤ r.amntShareLacking.toNat) :
    r.toAdd.toNat ≤ r.fairCpuShare.toNat - r.rxQuota.toNat := by
  have h₁ := underShare_le hgap
  have h₂ := amntShareLacking_toNat hF
  have h₃ := toNat_min r.unallocatedRt r.underShare
  simp only [toAdd]
  split <;> omega

theorem toBorrow_le (hF : r.rxQuota < r.fairCpuShare)
    (hgap : r.rounding.ofNat r.amntShareLacking.toNat ≤ r.amntShareLacking.toNat) :
    r.toBorrow.toNat ≤ r.fairCpuShare.toNat - r.rxQuota.toNat := by
  have h₁ := underShare_le hgap
  have h₂ := amntShareLacking_toNat hF
  simp only [toBorrow]
  split <;> omega

/-- Whatever is borrowed, `2 ^ 63` bounds it. -/
theorem toBorrow_le_two_pow (hF : r.rxQuota < r.fairCpuShare)
    (hFr : r.fairCpuShare.toNat ≤ 2 ^ 63) : r.toBorrow.toNat ≤ 2 ^ 63 := by
  have h₂ := amntShareLacking_toNat hF
  have hround : r.rounding.ofNat r.amntShareLacking.toNat ≤ ((2 ^ 63 : ℕ) : ℚ) := by
    push_cast
    refine r.rounding.fl_le (r.rounding.fl_two_pow 63) ?_
    exact_mod_cast (by omega)
  have h₁ := underShare_le hround
  simp only [toBorrow]
  split <;> omega

/-- The large-gap rule is capped by the pool; the small-gap rule is within `bound` only if the
gap is. -/
theorem toAdd_le_bound (hb : r.unallocatedRt.toNat ≤ bound)
    (hgap : r.slice / 2 < r.amntShareLacking ∨ r.amntShareLacking.toNat ≤ bound) :
    r.toAdd.toNat ≤ bound := by
  have h₃ := toNat_min r.unallocatedRt r.underShare
  simp only [toAdd]
  split
  · omega
  · rename_i hle
    rcases hgap with hgap | hgap
    · exact absurd hgap hle
    · exact hgap

theorem topUpFairShare_pays (hrange : r.rxQuota.toNat + r.unallocatedRt.toNat < 2 ^ 63)
    (hb : r.unallocatedRt.toNat ≤ bound) (hF : r.rxQuota < r.fairCpuShare)
    (hFr : r.fairCpuShare.toNat < 2 ^ 63)
    (hgap : 0 < r.unallocatedRt →
      r.slice / 2 < r.amntShareLacking ∨ r.amntShareLacking.toNat ≤ bound)
    (h : r.topUpFairShare = some rz) : r.Pays bound rz := by
  have hlt := UInt64.lt_iff_toNat_lt.mp hF
  simp only [topUpFairShare] at h
  split at h
  · rename_i hpos
    cases h
    have hadd : r.rxQuota.toNat + r.toAdd.toNat < 2 ^ 63 := by
      have hpool := toNat_min r.unallocatedRt r.underShare
      have hlack := amntShareLacking_toNat hF
      simp only [toAdd]
      split <;> omega
    have hamount : amount r.toAdd = r.toAdd.toNat := amount_of_lt (by omega)
    refine .take _ _ ?_ ?_
    · rw [add_toNat_of_lt (by omega), hamount]
      exact Int.natCast_add _ _
    · rw [hamount]
      exact_mod_cast toAdd_le_bound hb (hgap hpos)
  · cases h
    have hborrow := toBorrow_le_two_pow hF hFr.le
    have hsum := add_toNat_of_lt (a := r.rxQuota) (d := r.toBorrow) (by omega)
    exact .borrow _ _ hsum hborrow

theorem throttleBonus_pays (hrx : r.rxQuota.toNat + r.unallocatedRt.toNat < 2 ^ 63)
    (hb : r.unallocatedRt.toNat ≤ bound) (h : r.throttleBonus = some rz) : r.Pays bound rz := by
  simp only [throttleBonus] at h
  split at h
  · cases h
    have hmin := toNat_min r.unallocatedRt (Local.truncToUInt64
      (r.rounding.mul (r.rounding.mul 20 r.thrMean) (r.rounding.ofNat r.slice.toNat)))
    refine .take _ _ ?_ ?_
    · rw [add_toNat_of_lt (by omega), amount_of_lt (by omega)]
      exact Int.natCast_add _ _
    · rw [amount_of_lt (by omega)]
      omega
  · exact absurd h (by simp)

theorem giveBack_pays {target : UInt64} (hS : r.slice ≤ r.rxQuota)
    (ht : target.toNat ≤ r.rxQuota.toNat) (h : r.giveBack target = some rz) :
    r.Pays bound rz := by
  rw [UInt64.le_iff_toNat_le] at hS
  have hmax := toNat_max r.slice target
  simp only [giveBack] at h
  split at h
  · cases h
    have hle : max r.slice target ≤ r.rxQuota := by
      rw [UInt64.le_iff_toNat_le]
      omega
    refine .give _ _ ?_
    rw [UInt64.toNat_sub_of_le _ _ hle]
    rw [UInt64.le_iff_toNat_le] at hle
    omega
  · exact absurd h (by simp)

/-- Four fifths of a quota, rounded at every step, are not more than the quota. -/
theorem unusedTarget_le {R : Rounding} {n : ℕ} (hn : n ≤ 2 ^ 64) :
    (Local.truncToUInt64 (R.mul (R.ofNat n) (R.sub 1 (R.fl (1 / 5))))).toNat ≤ n := by
  have hn' : (n : ℚ) ≤ 2 ^ 64 := by exact_mod_cast hn
  have hof : R.ofNat n ≤ n * (1 + 1 / 2 ^ 53) := R.fl_le_mul (Nat.cast_nonneg n)
  have hfifth : 1 / 5 * (1 - 1 / 2 ^ 53) ≤ R.fl (1 / 5) := R.mul_le_fl (by norm_num)
  have hle1 : R.fl (1 / 5) ≤ 1 := R.fl_le R.fl_one (by norm_num)
  have hrest : R.sub 1 (R.fl (1 / 5)) ≤ 9 / 10 := by
    have hround := R.fl_le_mul (sub_nonneg.mpr hle1)
    unfold Rounding.sub
    linarith
  have hproduct : R.ofNat n * R.sub 1 (R.fl (1 / 5)) ≤ n * (1 + 1 / 2 ^ 53) * (9 / 10) :=
    mul_le_mul hof hrest (R.fl_nonneg (sub_nonneg.mpr hle1)) (by positivity)
  have hround := R.fl_le_mul (mul_nonneg (R.ofNat_nonneg n)
    (R.fl_nonneg (sub_nonneg.mpr hle1)))
  refine truncToUInt64_le ?_
  unfold Rounding.mul
  unfold Rounding.sub at hproduct hround ⊢
  have hpos : (0 : ℚ) ≤ n := Nat.cast_nonneg n
  linarith

/-! ## The chain -/

theorem branch_overrun_guard (h : r.branch = .overrun) :
    r.overrun > 0 ∧ r.rxQuota > r.fairCpuShare := by
  unfold branch at h
  split at h
  · exact absurd h (by simp)
  · split at h
    · rename_i hg
      exact hg
    · repeat' split at h
      all_goals exact absurd h (by simp)

theorem branch_overrun (h : r.branch = .overrun) : r.fairCpuShare < r.rxQuota :=
  (branch_overrun_guard h).2

theorem branch_fairShare (h : r.branch = .fairShare) : r.rxQuota < r.fairCpuShare := by
  unfold branch at h
  split at h
  · exact absurd h (by simp)
  · split at h
    · exact absurd h (by simp)
    · split at h
      · rename_i hg
        exact hg.1
      · repeat' split at h
        all_goals exact absurd h (by simp)

theorem branch_unused (h : r.branch = .unused ∨ r.branch = .unusedMean) :
    r.slice ≤ r.rxQuota := by
  unfold branch at h
  repeat' split at h
  all_goals first
    | (simp at h; done)
    | (rename_i hg; exact hg.2)
    | (rename_i hg; exact UInt64.le_of_lt hg.2)

/-- **Every branch pays for what it decides.** The two side conditions are the two places where
the source does not look: overrun recovery never compares its step with the excess, and the
small-gap rule never compares the gap with the pool. -/
theorem resize_pays (hslice : r.slice = 30000000)
    (hrange : r.rxQuota.toNat + r.unallocatedRt.toNat < 2 ^ 63)
    (hFr : r.fairCpuShare.toNat < 2 ^ 63) (hb : r.unallocatedRt.toNat ≤ bound)
    (hover : r.branch = .overrun → r.slice ≤ r.fairCpuShare)
    (hfair : r.branch = .fairShare → 0 < r.unallocatedRt →
      r.slice / 2 < r.amntShareLacking ∨ r.amntShareLacking.toNat ≤ bound)
    (h : r.resize = some rz) : r.Pays bound rz := by
  have hs : r.slice.toNat = 30000000 := by rw [hslice]; rfl
  unfold resize at h
  split at h
  · exact wakeUp_pays (by omega) (by omega) hb h
  · rename_i hbr
    exact recoverOverrun_pays (hover hbr) hslice (branch_overrun hbr) h
  · rename_i hbr
    exact topUpFairShare_pays hrange hb (branch_fairShare hbr) hFr (hfair hbr) h
  · exact throttleBonus_pays hrange hb h
  · rename_i hbr
    exact giveBack_pays (branch_unused (.inl hbr)) (unusedTarget_le (by omega)) h
  · rename_i hbr
    have hle := branch_unused (.inr hbr)
    rw [UInt64.le_iff_toNat_le] at hle
    have h5 : maxUnusedRtInNs.toNat = 5000000 := rfl
    refine giveBack_pays (branch_unused (.inr hbr)) ?_ h
    rw [UInt64.toNat_sub_of_le _ _ (UInt64.le_iff_toNat_le.mpr (by omega))]
    omega
  · exact absurd h (by simp)

end Reading

/-- A resize that pays, covered by the pool, moves the allocated total by the change of the
quota, and the pool and the overrun by what balances it. -/
theorem Resize.Pays.moved {c : Global.Cpu} {rx : UInt64} {rz : Resize}
    (h : rz.Pays rx c.overrun c.unallocatedRt.toNat) (hA : c.allocRt.toNat < 2 ^ 63)
    (hU : c.unallocatedRt.toNat < 2 ^ 63) (hO : c.overrun.toNat < 2 ^ 63)
    (hrx : rx.toNat ≤ c.allocRt.toNat) :
    ∃ dPool dOverrun : Int,
      c.Moved (rz.transfer.apply c) (rz.newQuota.toNat - rx.toNat) dPool dOverrun ∧
      (rz.newQuota.toNat - rx.toNat : Int) + dPool = dOverrun := by
  cases h with
  | take q d hq hd =>
    have hA' := amount_lt d
    refine ⟨-amount d, 0, ?_, by dsimp only; omega⟩
    rw [hq, add_sub_cancel_left]
    exact Transfer.take_moved hU hd (by omega) (by omega)
  | give q d hq =>
    have hd : amount d = d.toNat := amount_of_lt (by omega)
    refine ⟨amount d, 0, ?_, by dsimp only; omega⟩
    have hdiff : (q.toNat : Int) - rx.toNat = -amount d := by omega
    rw [hdiff]
    exact Transfer.give_moved hA (by omega) (by omega) (by omega)
  | borrow q d hq hd =>
    refine ⟨0, d.toNat, ?_, by dsimp only; omega⟩
    have hdiff : (q.toNat : Int) - rx.toNat = d.toNat := by omega
    rw [hdiff]
    exact Transfer.borrow_moved (by omega) (by omega)
  | shed q d hq hd =>
    refine ⟨0, -d.toNat, ?_, by dsimp only; omega⟩
    have hdiff : (q.toNat : Int) - rx.toNat = -d.toNat := by omega
    rw [hdiff]
    exact Transfer.shed_moved hO hA hd (by omega)

end EcGcm
