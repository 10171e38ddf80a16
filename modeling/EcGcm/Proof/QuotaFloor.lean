import EcGcm.Proof.FairShare
import EcGcm.Proof.Grants
import EcGcm.Proof.IdleSweep

/-!
# The floor under a quota

A quota is chosen in nine places. Three of them clamp to the slice: the two give-back branches
explicitly, the idle sweep because its minimum *is* a slice. Two only add to the quota of the
report. The other four take what the pools allow: an admission to a pool that is neither empty nor
sufficient, a wake-up, and the recovery of an overrun.

The floor is the smallest of the slice, the fair share and the quota before. An admission keeps it
exactly when `Manager.AdmissionOk` does; a report keeps it when its reading does
(`Reading.FloorOk`), however the doubles are rounded, and while nothing is near the end of its word
only then (`Reading.floorOk_of_resize_floor`); a sweep always keeps it.
-/

set_option autoImplicit false

namespace EcGcm

open Handler Word

/-- The smallest of slice, share and previous quota. -/
def floorOf (slice share prev : UInt64) : ℕ := min slice.toNat (min share.toNat prev.toNat)

namespace Reading

variable {r : Reading} {rz : Resize} {prev : UInt64}

/-- The floor for a container whose recorded quota is `prev`. -/
def floor (r : Reading) (prev : UInt64) : ℕ := floorOf r.slice r.fairCpuShare prev

/-- What the chain has to find in each of the branches that do not clamp. -/
structure FloorOk (r : Reading) (prev : UInt64) : Prop where
  wakeUp : r.branch = .wakeUp →
    r.floor prev ≤ r.unallocatedRt.toNat ∨ r.wakeUpQuota = r.rxQuota.toNat
  overrun : r.branch = .overrun →
    r.floor prev = 0 ∨ r.rxQuota.toNat ≤ 2 * r.fairCpuShare.toNat ∨
      r.slice.toNat + 2 ^ 14 ≤ r.fairCpuShare.toNat ∨
      (r.slice.toNat ≤ r.fairCpuShare.toNat ∧ r.rxQuota.toNat ≤ 2 ^ 50) ∨
      r.overrun.toNat + r.floor prev ≤ r.rxQuota.toNat
  fairShare : r.branch = .fairShare →
    (r.unallocatedRt = 0 ∨ r.gap ≤ r.slice.toNat / 2 ∨
      r.floor prev ≤ r.rxQuota.toNat + r.unallocatedRt.toNat) ∧
    r.fairCpuShare.toNat ≤ 2 ^ 63
  throttled : r.branch = .throttled →
    r.floor prev ≤ r.rxQuota.toNat + r.unallocatedRt.toNat ∧
    r.rxQuota.toNat + r.unallocatedRt.toNat < 2 ^ 64 ∧
    (r.floor prev ≤ r.rxQuota.toNat ∨ r.thrMean ≤ 2 ^ 32)

instance : Decidable (r.FloorOk prev) :=
  decidable_of_iff
    ((r.branch = .wakeUp →
        r.floor prev ≤ r.unallocatedRt.toNat ∨ r.wakeUpQuota = r.rxQuota.toNat) ∧
      (r.branch = .overrun →
        r.floor prev = 0 ∨ r.rxQuota.toNat ≤ 2 * r.fairCpuShare.toNat ∨
          r.slice.toNat + 2 ^ 14 ≤ r.fairCpuShare.toNat ∨
          (r.slice.toNat ≤ r.fairCpuShare.toNat ∧ r.rxQuota.toNat ≤ 2 ^ 50) ∨
          r.overrun.toNat + r.floor prev ≤ r.rxQuota.toNat) ∧
      (r.branch = .fairShare →
        (r.unallocatedRt = 0 ∨ r.gap ≤ r.slice.toNat / 2 ∨
          r.floor prev ≤ r.rxQuota.toNat + r.unallocatedRt.toNat) ∧
        r.fairCpuShare.toNat ≤ 2 ^ 63) ∧
      (r.branch = .throttled →
        r.floor prev ≤ r.rxQuota.toNat + r.unallocatedRt.toNat ∧
        r.rxQuota.toNat + r.unallocatedRt.toNat < 2 ^ 64 ∧
        (r.floor prev ≤ r.rxQuota.toNat ∨ r.thrMean ≤ 2 ^ 32)))
    ⟨fun h => ⟨h.1, h.2.1, h.2.2.1, h.2.2.2⟩,
      fun h => ⟨h.wakeUp, h.overrun, h.fairShare, h.throttled⟩⟩

/-- The numbers of the report and the counters are far from the end of their words; in overrun
recovery, so is a percentage of the slice, and no quota is asked for more than it is. -/
structure Ordinary (r : Reading) : Prop where
  quota : r.rxQuota.toNat + r.unallocatedRt.toNat ≤ 2 ^ 50
  share : r.fairCpuShare.toNat ≤ 2 ^ 50
  thrMean : r.thrMean ≤ 2 ^ 32
  overrun : r.branch = .overrun → r.overrun.toNat ≤ r.rxQuota.toNat ∧
    (r.rxQuota.toNat - r.fairCpuShare.toNat) * r.slice.toNat ≤ 2 ^ 63 * r.fairCpuShare.toNat

instance : Decidable r.Ordinary :=
  decidable_of_iff
    (r.rxQuota.toNat + r.unallocatedRt.toNat ≤ 2 ^ 50 ∧ r.fairCpuShare.toNat ≤ 2 ^ 50 ∧
      r.thrMean ≤ 2 ^ 32 ∧
      (r.branch = .overrun → r.overrun.toNat ≤ r.rxQuota.toNat ∧
        (r.rxQuota.toNat - r.fairCpuShare.toNat) * r.slice.toNat ≤
          2 ^ 63 * r.fairCpuShare.toNat))
    ⟨fun h => ⟨h.1, h.2.1, h.2.2.1, h.2.2.2⟩,
      fun h => ⟨h.quota, h.share, h.thrMean, h.overrun⟩⟩

/-! ## Waking up -/

theorem wakeUp_floor_iff (hslice : r.slice = 30000000) :
    (∀ rz, r.wakeUp = some rz → r.floor prev ≤ rz.newQuota.toNat) ↔
      r.floor prev ≤ r.unallocatedRt.toNat ∨ r.wakeUpQuota = r.rxQuota.toNat := by
  have hs : r.slice.toNat = 30000000 := by rw [hslice]; rfl
  have hcore : oneCore.toNat = 100000000 := rfl
  have hmin : (min r.unallocatedRt oneCore).toNat = min r.unallocatedRt.toNat oneCore.toNat :=
    toNat_min _ _
  have hle : r.floor prev ≤ r.slice.toNat := Nat.min_le_left _ _
  rw [← extraRt_eq_zero_iff]
  by_cases hzero : r.extraRt = 0
  · -- the pool is what the container has, and nothing is decided
    refine iff_of_true (fun rz h => ?_) (.inr hzero)
    rw [wakeUp_eq_none hzero] at h
    cases h
  · rw [wakeUp_eq_some hzero]
    constructor
    · intro h
      have hfloor := h _ rfl
      dsimp only at hfloor
      exact .inl (by omega)
    · intro h rz hrz
      have hpool := h.resolve_right hzero
      cases hrz
      dsimp only
      omega

/-! ## Overrun recovery -/

/-- While the share is small, the conversions of share and quota are exact. -/
theorem percentOver_of_small (hF : r.fairCpuShare < r.rxQuota) (hrx : r.rxQuota.toNat ≤ 2 ^ 50) :
    r.percentOver = r.rounding.div r.amntShareOver.toNat r.fairCpuShare.toNat := by
  have hlt := UInt64.lt_iff_toNat_lt.mp hF
  have hsub : (r.rxQuota.toNat : ℚ) - r.fairCpuShare.toNat = r.amntShareOver.toNat := by
    rw [amntShareOver_toNat hF, Nat.cast_sub hlt.le]
  have hover := amntShareOver_toNat hF
  have hdiff : r.rounding.sub r.rxQuota.toNat r.fairCpuShare.toNat = r.amntShareOver.toNat := by
    unfold Rounding.sub
    rw [hsub]
    exact r.rounding.fl_natCast (by omega)
  unfold percentOver
  rw [r.rounding.ofNat_eq (by omega), r.rounding.ofNat_eq (by omega), hdiff]

/-- Up to twice the share, the step is a part of the excess. -/
theorem overStep_le_of_small (hF : r.fairCpuShare < r.rxQuota)
    (hdouble : r.rxQuota.toNat ≤ 2 * r.fairCpuShare.toNat) (hrx : r.rxQuota.toNat ≤ 2 ^ 50) :
    r.overStep.toNat ≤ r.amntShareOver.toNat := by
  have hover := amntShareOver_toNat hF
  have hle : (r.amntShareOver.toNat : ℚ) ≤ r.fairCpuShare.toNat := by exact_mod_cast (by omega)
  have hpercent : r.percentOver ≤ 1 := by
    rw [percentOver_of_small hF hrx]
    exact r.rounding.div_le_one hle (Nat.cast_nonneg _)
  unfold overStep
  rw [if_neg (not_lt.mpr hpercent)]
  refine truncToUInt64_le ?_
  have hfix := r.rounding.ofNat_eq (n := r.amntShareOver.toNat) (by omega)
  exact (r.rounding.mul_le_right hpercent (r.rounding.ofNat_nonneg _)
    (r.rounding.fl_ofNat _)).trans hfix.le

/-- Beyond it, and with a share below a slice, the product is more than a slice, and more than the
excess by one: the excess is more than the share by a whole number, which no rounding reaches. -/
theorem lt_percentOver_mul_of_small (hF0 : 0 < r.fairCpuShare.toNat)
    (hS : r.fairCpuShare.toNat < 30000000) (hrx : r.rxQuota.toNat ≤ 2 ^ 50)
    (hdouble : 2 * r.fairCpuShare.toNat < r.rxQuota.toNat) :
    1 < r.percentOver ∧ (r.amntShareOver.toNat : ℚ) + 1 ≤ r.percentOver * 30000000 := by
  have hF : r.fairCpuShare < r.rxQuota := UInt64.lt_iff_toNat_lt.mpr (by omega)
  have hover := amntShareOver_toNat hF
  have hFpos : (0 : ℚ) < r.fairCpuShare.toNat := by exact_mod_cast hF0
  have hFS : (r.fairCpuShare.toNat : ℚ) + 1 ≤ 30000000 := by
    exact_mod_cast (by omega)
  have hexcess : (r.fairCpuShare.toNat : ℚ) + 1 ≤ r.amntShareOver.toNat := by
    exact_mod_cast (by omega)
  have hbound : (r.amntShareOver.toNat : ℚ) ≤ 2 ^ 50 := by exact_mod_cast (by omega)
  have hquot : (r.amntShareOver.toNat : ℚ) / r.fairCpuShare.toNat * (1 - 1 / 2 ^ 53) ≤
      r.percentOver := by
    rw [percentOver_of_small hF hrx]
    exact r.rounding.mul_le_fl (div_nonneg (by linarith) hFpos.le)
  have hmargin : (r.amntShareOver.toNat + 1 : ℚ) * r.fairCpuShare.toNat ≤
      r.amntShareOver.toNat * (1 - 1 / 2 ^ 53) * 30000000 := by
    have hcross : ((r.fairCpuShare.toNat : ℚ) + 1) * (30000000 - 1 - r.fairCpuShare.toNat) ≤
        r.amntShareOver.toNat * (30000000 - 1 - r.fairCpuShare.toNat) :=
      mul_le_mul_of_nonneg_right hexcess (by linarith)
    nlinarith
  constructor
  · refine lt_of_lt_of_le ?_ hquot
    rw [div_mul_eq_mul_div, lt_div_iff₀ hFpos]
    linarith
  · calc (r.amntShareOver.toNat : ℚ) + 1
        = (r.amntShareOver.toNat + 1) * r.fairCpuShare.toNat / r.fairCpuShare.toNat := by
          rw [mul_div_assoc, div_self hFpos.ne', mul_one]
      _ ≤ r.amntShareOver.toNat * (1 - 1 / 2 ^ 53) * 30000000 / r.fairCpuShare.toNat :=
          div_le_div_of_nonneg_right hmargin hFpos.le
      _ = r.amntShareOver.toNat / r.fairCpuShare.toNat * (1 - 1 / 2 ^ 53) * 30000000 := by ring
      _ ≤ r.percentOver * 30000000 := mul_le_mul_of_nonneg_right hquot (by norm_num)

/-- The rounding of the percentage is all that the product can be above the exact one by. -/
theorem percentOver_mul_le_of_small (hF0 : 0 < r.fairCpuShare.toNat)
    (hF : r.fairCpuShare < r.rxQuota) (hrx : r.rxQuota.toNat ≤ 2 ^ 50)
    (hcast : r.amntShareOver.toNat * 30000000 ≤ 2 ^ 63 * r.fairCpuShare.toNat) :
    r.percentOver * 30000000 ≤ 2 ^ 63 * (1 + 1 / 2 ^ 53) := by
  have hFpos : (0 : ℚ) < r.fairCpuShare.toNat := by exact_mod_cast hF0
  have hcast' : (r.amntShareOver.toNat : ℚ) * 30000000 ≤ 2 ^ 63 * r.fairCpuShare.toNat := by
    exact_mod_cast hcast
  have hle : r.percentOver ≤
      r.amntShareOver.toNat / r.fairCpuShare.toNat * (1 + 1 / 2 ^ 53) := by
    rw [percentOver_of_small hF hrx]
    exact r.rounding.fl_le_mul (div_nonneg (Nat.cast_nonneg _) hFpos.le)
  calc r.percentOver * 30000000
      ≤ r.amntShareOver.toNat / r.fairCpuShare.toNat * (1 + 1 / 2 ^ 53) * 30000000 :=
        mul_le_mul_of_nonneg_right hle (by norm_num)
    _ = r.amntShareOver.toNat * 30000000 / r.fairCpuShare.toNat * (1 + 1 / 2 ^ 53) := by ring
    _ ≤ 2 ^ 63 * (1 + 1 / 2 ^ 53) :=
        mul_le_mul_of_nonneg_right ((div_le_iff₀ hFpos).mpr hcast') (by norm_num)

/-- So the step exceeds the excess and is at least a slice. -/
theorem lt_overStep_of_small (hslice : r.slice = 30000000) (hF0 : 0 < r.fairCpuShare.toNat)
    (hS : r.fairCpuShare.toNat < r.slice.toNat) (hrx : r.rxQuota.toNat ≤ 2 ^ 50)
    (hdouble : 2 * r.fairCpuShare.toNat < r.rxQuota.toNat)
    (hcast : (r.rxQuota.toNat - r.fairCpuShare.toNat) * r.slice.toNat ≤
      2 ^ 63 * r.fairCpuShare.toNat) :
    r.amntShareOver.toNat + 1 ≤ r.overStep.toNat ∧ r.slice.toNat ≤ r.overStep.toNat := by
  have hs : r.slice.toNat = 30000000 := by rw [hslice]; rfl
  have hF : r.fairCpuShare < r.rxQuota := UInt64.lt_iff_toNat_lt.mpr (by omega)
  rw [hs] at hS hcast
  rw [← amntShareOver_toNat hF] at hcast
  obtain ⟨hone, hproduct⟩ := lt_percentOver_mul_of_small hF0 hS hrx hdouble
  have hslices : (30000000 : ℚ) ≤ r.percentOver * 30000000 := by linarith
  have hupper := percentOver_mul_le_of_small hF0 hF hrx hcast
  have hfits := r.rounding.fl_le_mul (x := r.percentOver * 30000000) (by linarith)
  have hSfix : r.rounding.ofNat r.slice.toNat = 30000000 := by
    rw [r.rounding.ofNat_eq (by omega), hs]
    norm_num
  have hexcess := (amntShareOver_toNat hF).le
  unfold overStep
  rw [if_pos hone, hSfix]
  constructor
  · refine le_truncToUInt64 ?_ (by unfold Rounding.mul; linarith)
    refine r.rounding.le_fl (r.rounding.fl_natCast (by omega)) ?_
    push_cast
    exact hproduct
  · refine le_truncToUInt64 ?_ (by unfold Rounding.mul; linarith)
    refine r.rounding.le_fl (r.rounding.fl_natCast (by omega)) ?_
    rw [hs]
    push_cast
    exact hslices

theorem recoverOverrun_floor (hslice : r.slice = 30000000) (hF : r.fairCpuShare < r.rxQuota)
    (hok : r.floor prev = 0 ∨ r.rxQuota.toNat ≤ 2 * r.fairCpuShare.toNat ∨
      r.slice.toNat + 2 ^ 14 ≤ r.fairCpuShare.toNat ∨
      (r.slice.toNat ≤ r.fairCpuShare.toNat ∧ r.rxQuota.toNat ≤ 2 ^ 50) ∨
      r.overrun.toNat + r.floor prev ≤ r.rxQuota.toNat)
    (h : r.recoverOverrun = some rz) : r.floor prev ≤ rz.newQuota.toNat := by
  cases h
  have hs : r.slice.toNat = 30000000 := by rw [hslice]; rfl
  have hlt := UInt64.lt_iff_toNat_lt.mp hF
  have hover := amntShareOver_toNat hF
  have hmin := r.toSub_toNat
  have hle : r.floor prev ≤ r.slice.toNat := Nat.min_le_left _ _
  have hleF : r.floor prev ≤ r.fairCpuShare.toNat :=
    (Nat.min_le_right _ _).trans (Nat.min_le_left _ _)
  -- a step that leaves the floor is within the quota
  have hkeeps : r.toSub.toNat + r.floor prev ≤ r.rxQuota.toNat →
      r.floor prev ≤ (r.rxQuota - r.toSub).toNat := by
    intro hstep
    rw [UInt64.toNat_sub_of_le _ _ (UInt64.le_iff_toNat_le.mpr (by omega))]
    omega
  have hshare : r.overStep.toNat ≤ r.amntShareOver.toNat →
      r.toSub.toNat + r.floor prev ≤ r.rxQuota.toNat := by
    intro hstep
    have hover : r.overShare.toNat ≤ r.amntShareOver.toNat := by
      unfold overShare
      split
      · exact Nat.le_refl _
      · exact hstep
    omega
  have hlarge : r.slice.toNat + 2 ^ 14 ≤ r.fairCpuShare.toNat →
      r.toSub.toNat + r.floor prev ≤ r.rxQuota.toNat := by
    intro hS
    have hstep := overStep_le_add (UInt64.le_iff_toNat_le.mpr (by omega)) hslice hF
    have hover : r.overShare.toNat ≤ r.amntShareOver.toNat + 2 ^ 14 := by
      unfold overShare
      split
      · omega
      · exact hstep
    omega
  rcases hok with hzero | hdouble | hS | ⟨hS, hrx⟩ | hoverrun
  · rw [hzero]
    exact Nat.zero_le _
  · by_cases hS : r.slice.toNat + 2 ^ 14 ≤ r.fairCpuShare.toNat
    · exact hkeeps (hlarge hS)
    · exact hkeeps (hshare (overStep_le_of_small hF hdouble (by omega)))
  · exact hkeeps (hlarge hS)
  · exact hkeeps (hshare (overStep_le (UInt64.le_iff_toNat_le.mpr hS) hslice hF hrx))
  · exact hkeeps (by omega)

/-- Outside the condition, what is left is below the floor. -/
theorem recoverOverrun_floor_conv (hslice : r.slice = 30000000)
    (hF : r.fairCpuShare < r.rxQuota) (hrx : r.rxQuota.toNat ≤ 2 ^ 50)
    (hoverrun : r.overrun.toNat ≤ r.rxQuota.toNat)
    (hcast : (r.rxQuota.toNat - r.fairCpuShare.toNat) * r.slice.toNat ≤
      2 ^ 63 * r.fairCpuShare.toNat)
    (hagree : prev.toNat / 1000 = r.rxQuota.toNat / 1000)
    (hfloor : r.floor prev ≤ (r.rxQuota - r.toSub).toNat) :
    r.floor prev = 0 ∨ r.rxQuota.toNat ≤ 2 * r.fairCpuShare.toNat ∨
      r.slice.toNat + 2 ^ 14 ≤ r.fairCpuShare.toNat ∨
      (r.slice.toNat ≤ r.fairCpuShare.toNat ∧ r.rxQuota.toNat ≤ 2 ^ 50) ∨
      r.overrun.toNat + r.floor prev ≤ r.rxQuota.toNat := by
  have hs : r.slice.toNat = 30000000 := by rw [hslice]; rfl
  have hlt := UInt64.lt_iff_toNat_lt.mp hF
  have hover := amntShareOver_toNat hF
  have hmin := r.toSub_toNat
  by_contra hnot
  obtain ⟨hzero, hnot⟩ := not_or.mp hnot
  obtain ⟨hdouble, hnot⟩ := not_or.mp hnot
  obtain ⟨_, hnot⟩ := not_or.mp hnot
  obtain ⟨hS, hpool⟩ := not_or.mp hnot
  have hS' : r.fairCpuShare.toNat < r.slice.toNat := by omega
  have hF0 : 0 < r.fairCpuShare.toNat := by
    unfold floor floorOf at hzero
    omega
  obtain ⟨hstep, hslices⟩ := lt_overStep_of_small hslice hF0 hS' hrx (by omega) hcast
  have hkept : r.overShare = r.overStep := by
    unfold overShare
    rw [if_neg]
    rw [UInt64.lt_iff_toNat_lt, UInt64.toNat_div, hs]
    show ¬ r.overStep.toNat < 15000000
    omega
  rw [hkept] at hmin
  rw [UInt64.toNat_sub_of_le _ _ (UInt64.le_iff_toNat_le.mpr (by omega))] at hfloor
  unfold floor floorOf at *
  omega

/-! ## Topping up

A report is up to 999 ns below the record and still agrees with it; either top-up more than makes
up for that, if the pool can pay for it. -/

/-- A container far from its share and below a slice gets at least a microsecond of its gap. -/
theorem le_underShare (hslice : r.slice = 30000000) (hF : r.rxQuota < r.fairCpuShare)
    (hFr : r.fairCpuShare.toNat ≤ 2 ^ 63) (hrx : r.rxQuota.toNat < 30000000)
    (hlarge : r.amntShareLacking > r.slice / 2) : 1000 ≤ r.underShare.toNat := by
  have hlt := UInt64.lt_iff_toNat_lt.mp hF
  have hlack := amntShareLacking_toNat hF
  have hgap : 15000001 ≤ r.amntShareLacking.toNat := by
    rw [hslice] at hlarge
    exact UInt64.lt_iff_toNat_lt.mp hlarge
  have hgapQ : (15000001 : ℚ) ≤ r.rounding.ofNat r.amntShareLacking.toNat := by
    have hmono := r.rounding.ofNat_mono hgap
    rw [r.rounding.ofNat_eq (n := 15000001) (by norm_num)] at hmono
    exact_mod_cast hmono
  have hrxQ : (r.rxQuota.toNat : ℚ) ≤ 29999999 := by exact_mod_cast (by omega)
  have hshare : (r.rxQuota.toNat : ℚ) + 15000001 ≤ r.rounding.ofNat r.fairCpuShare.toNat := by
    have hmono := r.rounding.ofNat_mono (m := r.rxQuota.toNat + 15000001)
      (n := r.fairCpuShare.toNat) (by omega)
    rw [r.rounding.ofNat_eq (n := r.rxQuota.toNat + 15000001) (by omega)] at hmono
    exact_mod_cast hmono
  have hpercent : 1 / 4 ≤ r.percentUnder := by
    have hquarter : r.rounding.fl (1 / 4) = 1 / 4 := by
      have h := r.rounding.fix 1 (-2) (by norm_num)
      norm_num at h
      norm_num
      exact h
    have hsub := r.rounding.mul_le_fl
      (x := r.rounding.ofNat r.fairCpuShare.toNat - r.rxQuota.toNat) (by linarith)
    unfold percentUnder
    rw [r.rounding.ofNat_eq (n := r.rxQuota.toNat) (by omega)]
    refine r.rounding.le_fl hquarter ?_
    rw [le_div_iff₀ (by linarith [(Nat.cast_nonneg r.rxQuota.toNat : (0 : ℚ) ≤ _)])]
    unfold Rounding.sub
    linarith
  have hupper : r.rounding.ofNat r.amntShareLacking.toNat ≤ 2 ^ 63 := by
    refine r.rounding.fl_le (r.rounding.fl_two_pow 63) ?_
    exact_mod_cast (by omega)
  have hpart := r.rounding.mul_le_right (r.percentUnder_le_one)
    (r.rounding.ofNat_nonneg r.amntShareLacking.toNat) (r.rounding.fl_ofNat _)
  refine le_truncToUInt64 ?_ (by linarith)
  refine r.rounding.le_fl (r.rounding.fl_natCast (by norm_num)) ?_
  calc ((1000 : ℕ) : ℚ) ≤ 1 / 4 * 15000001 := by norm_num
    _ ≤ r.percentUnder * r.rounding.ofNat r.amntShareLacking.toNat :=
        mul_le_mul hpercent hgapQ (by norm_num) (by linarith)

theorem topUpFairShare_floor (hslice : r.slice = 30000000) (hF : r.rxQuota < r.fairCpuShare)
    (hagree : prev.toNat / 1000 = r.rxQuota.toNat / 1000) (hFr : r.fairCpuShare.toNat ≤ 2 ^ 63)
    (hok : r.unallocatedRt = 0 ∨ r.gap ≤ r.slice.toNat / 2 ∨
      r.floor prev ≤ r.rxQuota.toNat + r.unallocatedRt.toNat)
    (h : r.topUpFairShare = some rz) : r.floor prev ≤ rz.newQuota.toNat := by
  have hs : r.slice.toNat = 30000000 := by rw [hslice]; rfl
  have hlt := UInt64.lt_iff_toNat_lt.mp hF
  have hlack := amntShareLacking_toNat hF
  have hhalf : (r.slice / 2).toNat = 15000000 := by rw [hslice]; rfl
  have hround : r.rounding.ofNat r.amntShareLacking.toNat ≤ ((2 ^ 63 : ℕ) : ℚ) := by
    push_cast
    refine r.rounding.fl_le (r.rounding.fl_two_pow 63) ?_
    exact_mod_cast (by omega)
  have hunder := underShare_le hround
  -- the part of a large gap is enough for a container below the floor
  have hlarge : r.amntShareLacking > r.slice / 2 →
      r.floor prev ≤ r.rxQuota.toNat + r.underShare.toNat := by
    intro hgap
    by_cases hrx : r.rxQuota.toNat < 30000000
    · have hthousand := le_underShare hslice hF hFr hrx hgap
      unfold floor floorOf
      omega
    · unfold floor floorOf
      omega
  have hkeeps : ∀ d : UInt64, d.toNat ≤ 2 ^ 63 → r.floor prev ≤ r.rxQuota.toNat + d.toNat →
      r.floor prev ≤ (r.rxQuota + d).toNat := by
    intro d hd hle
    rw [add_toNat_of_lt (by omega)]
    exact hle
  have hsmall : r.floor prev ≤ r.rxQuota.toNat + r.amntShareLacking.toNat := by
    unfold floor floorOf
    omega
  unfold topUpFairShare at h
  split at h
  · rename_i hpos
    have hU : 0 < r.unallocatedRt.toNat := UInt64.lt_iff_toNat_lt.mp hpos
    cases h
    unfold toAdd
    split
    · rename_i hgap
      have hmin := toNat_min r.unallocatedRt r.underShare
      have hgap' := UInt64.lt_iff_toNat_lt.mp hgap
      have hpool : r.floor prev ≤ r.rxQuota.toNat + r.unallocatedRt.toNat := by
        rcases hok with hzero | hgap'' | hpool
        · rw [hzero] at hU
          exact absurd hU (by decide)
        · unfold gap at hgap''
          omega
        · exact hpool
      have hle := hlarge hgap
      exact hkeeps _ (by omega) (by omega)
    · exact hkeeps _ (by omega) hsmall
  · cases h
    unfold toBorrow
    split
    · rename_i hgap
      exact hkeeps _ hunder (hlarge hgap)
    · exact hkeeps _ (by omega) hsmall

theorem topUpFairShare_floor_conv (hF : r.rxQuota < r.fairCpuShare)
    (hrange : r.rxQuota.toNat + r.unallocatedRt.toNat ≤ 2 ^ 50)
    (h : ∀ rz, r.topUpFairShare = some rz → r.floor prev ≤ rz.newQuota.toNat) :
    r.unallocatedRt = 0 ∨ r.gap ≤ r.slice.toNat / 2 ∨
      r.floor prev ≤ r.rxQuota.toNat + r.unallocatedRt.toNat := by
  by_contra hnot
  obtain ⟨hzero, hnot⟩ := not_or.mp hnot
  obtain ⟨hgap, hpool⟩ := not_or.mp hnot
  have hlack : r.amntShareLacking.toNat = r.gap := amntShareLacking_toNat hF
  have hpos : 0 < r.unallocatedRt := by
    rw [UInt64.lt_iff_toNat_lt]
    exact Nat.pos_of_ne_zero fun h0 => hzero (UInt64.toNat_inj.mp h0)
  have hlarge : r.amntShareLacking > r.slice / 2 := by
    rw [gt_iff_lt, UInt64.lt_iff_toNat_lt, hlack, UInt64.toNat_div]
    exact not_le.mp hgap
  have hadd : r.toAdd = min r.unallocatedRt r.underShare := if_pos hlarge
  have hmin := toNat_min r.unallocatedRt r.underShare
  have hfloor := h ⟨r.rxQuota + r.toAdd, .take r.toAdd⟩ (if_pos hpos)
  dsimp only at hfloor
  rw [hadd, add_toNat_of_lt (by omega), hmin] at hfloor
  omega

/-! ## The bonus -/

/-- Twenty times a throttling of a tenth is more than one, also when it is rounded. -/
theorem le_bonus (hslice : r.slice = 30000000) (hthr : r.rounding.fl (1 / 10) ≤ r.thrMean) :
    (30000000 : ℚ) ≤
      r.rounding.mul (r.rounding.mul 20 r.thrMean) (r.rounding.ofNat r.slice.toNat) := by
  have hs : r.slice.toNat = 30000000 := by rw [hslice]; rfl
  have htenth := r.rounding.mul_le_fl (x := 1 / 10) (by norm_num)
  have hone : 1 ≤ r.rounding.mul 20 r.thrMean :=
    r.rounding.le_fl r.rounding.fl_one (by linarith)
  have hfix : r.rounding.ofNat r.slice.toNat = 30000000 := by
    rw [r.rounding.ofNat_eq (by omega), hs]
    norm_num
  rw [hfix]
  refine r.rounding.le_fl ?_ (by linarith)
  exact_mod_cast r.rounding.fl_natCast (n := 30000000) (by norm_num)

theorem bonus_lt (hslice : r.slice = 30000000) (h0 : 0 ≤ r.thrMean) (hthr : r.thrMean ≤ 2 ^ 32) :
    r.rounding.mul (r.rounding.mul 20 r.thrMean) (r.rounding.ofNat r.slice.toNat) < 2 ^ 64 := by
  have hs : r.slice.toNat = 30000000 := by rw [hslice]; rfl
  have hfix : r.rounding.ofNat r.slice.toNat = 30000000 := by
    rw [r.rounding.ofNat_eq (by omega), hs]
    norm_num
  have hmul : r.rounding.mul 20 r.thrMean ≤ 2 ^ 37 :=
    r.rounding.fl_le (r.rounding.fl_two_pow 37) (by linarith)
  have hnonneg : 0 ≤ r.rounding.mul 20 r.thrMean := r.rounding.fl_nonneg (by linarith)
  rw [hfix]
  have hround := r.rounding.fl_le_mul (x := r.rounding.mul 20 r.thrMean * 30000000) (by linarith)
  unfold Rounding.mul at *
  linarith

theorem throttleBonus_floor (hslice : r.slice = 30000000)
    (hthr : r.rounding.fl (1 / 10) ≤ r.thrMean)
    (hpool : r.floor prev ≤ r.rxQuota.toNat + r.unallocatedRt.toNat)
    (hroom : r.rxQuota.toNat + r.unallocatedRt.toNat < 2 ^ 64)
    (hok : r.floor prev ≤ r.rxQuota.toNat ∨ r.thrMean ≤ 2 ^ 32)
    (h : r.throttleBonus = some rz) : r.floor prev ≤ rz.newQuota.toNat := by
  have hs : r.slice.toNat = 30000000 := by rw [hslice]; rfl
  have hle : r.floor prev ≤ r.slice.toNat := Nat.min_le_left _ _
  have hmin := toNat_min r.unallocatedRt (Local.truncToUInt64
    (r.rounding.mul (r.rounding.mul 20 r.thrMean) (r.rounding.ofNat r.slice.toNat)))
  unfold throttleBonus at h
  dsimp only at h
  split at h <;> cases h
  rw [add_toNat_of_lt (by omega)]
  rcases hok with hrx | hsmall
  · omega
  · have hnonneg : 0 ≤ r.thrMean := (r.rounding.fl_nonneg (by norm_num)).trans hthr
    have hslices := le_truncToUInt64 (n := 30000000)
      (by exact_mod_cast le_bonus hslice hthr) (bonus_lt hslice hnonneg hsmall)
    omega

theorem throttleBonus_floor_conv (hslice : r.slice = 30000000)
    (hthr : r.rounding.fl (1 / 10) ≤ r.thrMean) (hsmall : r.thrMean ≤ 2 ^ 32)
    (hU : 0 < r.unallocatedRt) (hrange : r.rxQuota.toNat + r.unallocatedRt.toNat ≤ 2 ^ 50)
    (h : ∀ rz, r.throttleBonus = some rz → r.floor prev ≤ rz.newQuota.toNat) :
    r.floor prev ≤ r.rxQuota.toNat + r.unallocatedRt.toNat := by
  have hnonneg : 0 ≤ r.thrMean := (r.rounding.fl_nonneg (by norm_num)).trans hthr
  have hslices := le_truncToUInt64 (n := 30000000)
    (by exact_mod_cast le_bonus hslice hthr) (bonus_lt hslice hnonneg hsmall)
  have hpool : 0 < r.unallocatedRt.toNat := UInt64.lt_iff_toNat_lt.mp hU
  have hmin := toNat_min r.unallocatedRt (Local.truncToUInt64
    (r.rounding.mul (r.rounding.mul 20 r.thrMean) (r.rounding.ofNat r.slice.toNat)))
  have hfloor := h _ (if_pos (by
    show 0 < min r.unallocatedRt _
    rw [UInt64.lt_iff_toNat_lt, hmin]
    exact lt_min hpool (Nat.lt_of_lt_of_le (by decide) hslices)))
  dsimp only at hfloor
  rw [add_toNat_of_lt (by omega), hmin] at hfloor
  omega

theorem giveBack_floor {target : UInt64} (h : r.giveBack target = some rz) :
    r.floor prev ≤ rz.newQuota.toNat := by
  unfold giveBack at h
  dsimp only at h
  split at h <;> cases h
  rw [toNat_max]
  unfold floor floorOf
  omega

/-! ## The chain -/

theorem branch_throttled (h : r.branch = .throttled) :
    r.rounding.fl (1 / 10) ≤ r.thrMean ∧ 0 < r.unallocatedRt := by
  unfold branch at h
  repeat' split at h
  all_goals first
    | (simp at h; done)
    | (rename_i hg; exact hg)

/-- **The chain keeps the floor.** -/
theorem resize_floor (hslice : r.slice = 30000000)
    (hagree : prev.toNat / 1000 = r.rxQuota.toNat / 1000) (hok : r.FloorOk prev)
    (h : r.resize = some rz) : r.floor prev ≤ rz.newQuota.toNat := by
  unfold resize at h
  split at h
  · rename_i hbr
    exact (wakeUp_floor_iff hslice).mpr (hok.wakeUp hbr) rz h
  · rename_i hbr
    exact recoverOverrun_floor hslice (branch_overrun hbr) (hok.overrun hbr) h
  · rename_i hbr
    obtain ⟨hpool, hFr⟩ := hok.fairShare hbr
    exact topUpFairShare_floor hslice (branch_fairShare hbr) hagree hFr hpool h
  · rename_i hbr
    obtain ⟨hpool, hroom, hthr⟩ := hok.throttled hbr
    exact throttleBonus_floor hslice (branch_throttled hbr).1 hpool hroom hthr h
  · exact giveBack_floor h
  · exact giveBack_floor h
  · cases h

/-- **Nothing else keeps it**, in the ordinary range. -/
theorem floorOk_of_resize_floor (hslice : r.slice = 30000000) (hr : r.Ordinary)
    (hagree : prev.toNat / 1000 = r.rxQuota.toNat / 1000)
    (h : ∀ rz, r.resize = some rz → r.floor prev ≤ rz.newQuota.toNat) : r.FloorOk prev := by
  have hrange := hr.quota
  unfold resize at h
  refine ⟨fun hbr => ?_, fun hbr => ?_, fun hbr => ?_, fun hbr => ?_⟩
  all_goals rw [hbr] at h
  · exact (wakeUp_floor_iff hslice).mp h
  · obtain ⟨hoverrun, hcast⟩ := hr.overrun hbr
    exact recoverOverrun_floor_conv hslice (branch_overrun hbr) (by omega) hoverrun hcast hagree
      (h _ rfl)
  · have hshare := hr.share
    exact ⟨topUpFairShare_floor_conv (branch_fairShare hbr) hrange h, by omega⟩
  · obtain ⟨hthr, hU⟩ := branch_throttled hbr
    exact ⟨throttleBonus_floor_conv hslice hthr hr.thrMean hU hrange h, by omega, .inr hr.thrMean⟩

end Reading

namespace Manager

open ElasticContainer

variable {m m' t : Manager} {env : Env} {req : Msg} {id : ContainerId} {sc : SubContainer}
  {f : SubContainer → SubContainer}

/-- Every quota of `m'` that is not a quota of `m` is the new one of a newest instance, and not
below the floor. -/
def KeepsFloor (m m' : Manager) : Prop :=
  ∀ id, m'.quotas id = m.quotas id ∨
    ∃ l prev q, m.quotas id = some (l ++ [prev]) ∧ m'.quotas id = some (l ++ [q]) ∧
      floorOf m.ec.cpu.sliceSize m.ec.fairCpuShare prev ≤ q.toNat

theorem KeepsFloor.of_quotas (h : m'.quotas = m.quotas) : KeepsFloor m m' :=
  fun id => .inl (congrFun h id)

/-! ## Quotas under writes -/

theorem quotas_congr (h : t.ec.subcontainers = m.ec.subcontainers) : t.quotas = m.quotas := by
  unfold quotas
  rw [h]

theorem AgentFrame.quotas (h : AgentFrame m m') : m'.quotas = m.quotas :=
  quotas_congr h.subcontainers

theorem quotas_modifyBack (hb : m.ec.back? id = some sc) :
    ∃ l, m.quotas id = some (l ++ [sc.quota]) ∧
      quotas { m with ec := m.ec.modifyBack id f } id = some (l ++ [(f sc).quota]) := by
  obtain ⟨l, hl⟩ := lookup_of_back? hb
  refine ⟨l.map (·.quota), ?_, ?_⟩
  · unfold quotas
    rw [hl, Option.map_some, List.map_append]
    rfl
  · unfold quotas
    dsimp only
    rw [subcontainers_modifyBack hl, AList.lookup_insert, Option.map_some, List.map_append]
    rfl

theorem quotas_modifyBack_ne {id' : ContainerId} (hne : id' ≠ id) :
    quotas { m with ec := m.ec.modifyBack id f } id' = m.quotas id' := by
  unfold quotas
  dsimp only
  rw [lookup_modifyBack_ne hne]

theorem quotas_modifyBack_of_eq (hf : ∀ sc ∈ m.ec.back? id, (f sc).quota = sc.quota) :
    quotas { m with ec := m.ec.modifyBack id f } = m.quotas := by
  funext id'
  by_cases heq : id' = id
  · subst heq
    cases hb : m.ec.back? id' with
    | some sc =>
      obtain ⟨l, hold, hnew⟩ := quotas_modifyBack (f := f) hb
      rw [hnew, hold, hf sc hb]
    | none =>
      cases hq : m.ec.subcontainers.lookup id' with
      | none =>
        refine congrFun (quotas_congr ?_) id'
        unfold ElasticContainer.modifyBack
        rw [hq]
      | some q =>
        unfold ElasticContainer.back? at hb
        rw [hq, Option.bind_some, List.getLast?_eq_none_iff] at hb
        unfold quotas ElasticContainer.modifyBack
        rw [hq, hb]
        dsimp only
        rw [AList.lookup_insert]
        rfl
  · exact quotas_modifyBack_ne heq

/-! ## Sweeps and reports -/

/-- A sweep sets every quota it sets to a slice. -/
theorem keepsFloor_sweep (hslice : m.ec.cpu.sliceSize = 30000000) :
    KeepsFloor m ((checkForIdleContainers env).run m).state := by
  have hswept : SweptTo m (m.swept env m.ec.subcontainers.keys)
      ((checkForIdleContainers env).run m).state := sweptTo_state
  intro id
  by_cases hid : id ∈ m.swept env m.ec.subcontainers.keys
  · obtain ⟨sc, hb, _⟩ := idle_of_shrinks (mem_swept hid)
    obtain ⟨l, hl, hquotas⟩ := hswept.quotas_of_mem hid hb
    refine .inr ⟨l.map (·.quota), sc.quota, minQuota, ?_, hquotas, ?_⟩
    · unfold quotas
      rw [hl, Option.map_some, List.map_append]
      rfl
    · unfold floorOf
      rw [hslice]
      exact Nat.min_le_left _ _
  · refine .inl ?_
    unfold quotas
    rw [hswept.lookup, if_neg hid]

/-- An accepted report agrees with the record to the microsecond. -/
theorem agree_of_handled {sc₁ : SubContainer} {rx : UInt64} {cpu cpu₁ : Global.Cpu}
    (hs : sc.syncQuota rx cpu = .handled sc₁ cpu₁) :
    sc₁.quota.toNat / 1000 = rx.toNat / 1000 := by
  by_cases hmismatch : sc.quotaMismatch rx = true
  · by_cases hseen : sc.quotaMismatchCounter > 2
    · rw [SubContainer.syncQuota_of_adopts ⟨hmismatch, hseen⟩] at hs
      cases hs
      unfold SubContainer.adoptQuota
      dsimp only
      split <;> rfl
    · unfold SubContainer.syncQuota at hs
      rw [if_pos hmismatch] at hs
      change (if sc.quotaMismatchCounter > 2 then _ else _) = _ at hs
      rw [if_neg hseen] at hs
      cases hs
  · rw [Bool.not_eq_true] at hmismatch
    rw [SubContainer.syncQuota_of_agree hmismatch] at hs
    cases hs
    have hagree := of_decide_eq_false hmismatch
    rw [ne_eq, not_not] at hagree
    have hnat := congrArg UInt64.toNat hagree
    rw [UInt64.toNat_div, UInt64.toNat_div] at hnat
    exact hnat.symm

/-- A report keeps the floor, counted from the state in which the mismatch test has been passed,
when the quota it decides on does, or does not get through. -/
theorem keepsFloor_report_iff {sc₁ : SubContainer} {cpu₁ : Global.Cpu}
    (ht : req.reqType = cpuReq) (hb : m.ec.back? req.containerId = some sc)
    (hs : (sc.stamped env req).syncQuota req.rsrcAmnt m.ec.cpu = .handled sc₁ cpu₁) :
    KeepsFloor (m.accepted env req sc₁ cpu₁) ((handleCpuUsageReport env req).run m).state ↔
      (m.PushSucceeds env sc → ∀ rz, (m.chainReading env req sc sc₁ cpu₁).resize = some rz →
        (m.chainReading env req sc sc₁ cpu₁).floor sc₁.quota ≤ rz.newQuota.toNat) := by
  have hb₁ : (m.accepted env req sc₁ cpu₁).ec.back? req.containerId =
      some (sc₁.sampled env req) := back?_modifyBack hb
  obtain ⟨hins₁, hcId₁, hagent₁⟩ := reach_of_handled hs
  constructor
  · intro hkeeps hpush rz hrz
    obtain ⟨_, sc', hb', hq'⟩ := leaves_of_pushed ht hb hs hrz hpush
    obtain ⟨l, hl⟩ := lookup_of_back? hb₁
    obtain ⟨l', hl'⟩ := lookup_of_back? hb'
    have hbefore : (m.accepted env req sc₁ cpu₁).quotas req.containerId =
        some (l.map (·.quota) ++ [sc₁.quota]) := by
      unfold quotas
      rw [hl, Option.map_some, List.map_append]
      rfl
    have hafter : ((handleCpuUsageReport env req).run m).state.quotas req.containerId =
        some (l'.map (·.quota) ++ [rz.newQuota]) := by
      unfold quotas
      rw [hl', Option.map_some, List.map_append, ← hq']
      rfl
    rcases hkeeps req.containerId with hsame | ⟨l₀, prev, q, hold, hnew, hfloor⟩
    · -- the new quota is the old one
      rw [hbefore, hafter, Option.some.injEq] at hsame
      have hq : rz.newQuota = sc₁.quota := by simpa using congrArg List.getLast? hsame
      rw [hq]
      exact (Nat.min_le_right _ _).trans (Nat.min_le_right _ _)
    · rw [hbefore, Option.some.injEq] at hold
      rw [hafter, Option.some.injEq] at hnew
      have hprev : sc₁.quota = prev := by simpa using congrArg List.getLast? hold
      have hq : rz.newQuota = q := by simpa using congrArg List.getLast? hnew
      rw [hprev, hq]
      exact hfloor
  · intro hfloor
    refine wp_state_iff.mp ?_
    refine wp_handleCpuUsageReport ht hb (fun sc' hs' => ?_) (fun sc' cpu' hs' _ => ?_)
      (fun sc' cpu' rz hs' hrz => ?_)
    all_goals
      rw [hs] at hs'
      cases hs'
    · exact .of_quotas rfl
    · refine wp_applyResize (fun _ => .of_quotas rfl) (fun m' hm _ _ => .of_quotas hm.quotas)
        (fun m' _ hm _ _ _ => .of_quotas hm.quotas) (fun m' agent hm hins hagent hzero id => ?_)
      rw [hcId₁, hagent₁] at hagent
      rw [hcId₁] at hzero
      have hpush : m.PushSucceeds env sc :=
        ⟨hins₁.symm.trans hins, Option.isSome_iff_exists.mpr ⟨agent, hagent⟩, hzero⟩
      by_cases hid : id = req.containerId
      · subst hid
        obtain ⟨l, hold, hnew⟩ := quotas_modifyBack (f := fun sc => sc.resized rz.newQuota)
          ((hm.back? req.containerId).trans hb₁)
        rw [congrFun hm.quotas] at hold
        exact .inr ⟨l, sc₁.quota, rz.newQuota, hold, hnew, hfloor hpush rz hrz⟩
      · have hsame := quotas_modifyBack_ne (m := m') (f := fun sc => sc.resized rz.newQuota) hid
        exact .inl (hsame.trans (congrFun hm.quotas id))

theorem slice_chainReading {sc₁ : SubContainer} {cpu₁ : Global.Cpu}
    (hslice : m.ec.cpu.sliceSize = 30000000)
    (hs : (sc.stamped env req).syncQuota req.rsrcAmnt m.ec.cpu = .handled sc₁ cpu₁) :
    (m.chainReading env req sc sc₁ cpu₁).slice = 30000000 := by
  show (m.accepted env req sc₁ cpu₁).ec.cpu.sliceSize = 30000000
  rw [cpu_accepted, (fixed_fixRtLeak _ _).2, (SubContainer.fixed_syncQuota hs).2, hslice]

/-! ## Admissions -/

/-- The quota an admission hands out. -/
def admittedQuota (m : Manager) (reqQuota : UInt64) : UInt64 :=
  if reqQuota ≤ m.ec.cpu.unallocatedRt then reqQuota
  else if m.ec.cpu.unallocatedRt = 0 then m.ec.cpu.sliceSize
  else m.ec.cpu.unallocatedRt

theorem wp_determineQuotaForNewPod_quota {reqQuota : UInt64}
    {Q : Bool × UInt64 → Manager → Prop} {E : Halt → Manager → Prop}
    (hQ : ∀ flag (cpu : Global.Cpu), cpu.totalCpu = m.ec.cpu.totalCpu →
      Q (flag, m.admittedQuota reqQuota) { m with ec := { m.ec with cpu := cpu } }) :
    wp (determineQuotaForNewPod reqQuota) Q E m := by
  unfold admittedQuota at hQ
  unfold determineQuotaForNewPod
  rw [wp_bind, wp_get, wp_ite]
  split
  · rename_i hle
    rw [if_pos hle] at hQ
    exact hQ _ _ rfl
  · rename_i hle
    rw [if_neg hle] at hQ
    rw [wp_ite]
    split
    · rename_i hzero
      rw [if_pos hzero] at hQ
      exact hQ _ _ rfl
    · rename_i hzero
      rw [if_neg hzero] at hQ
      exact hQ _ _ rfl

/-- One instance has been added, with quota `q`, and the share is that of the new number of
containers. -/
structure Admitted (m : Manager) (id : ContainerId) (q : UInt64) (m' : Manager) : Prop where
  newest : m'.quotas id = some ((m.quotas id).getD [] ++ [q])
  others : ∀ id', id' ≠ id → m'.quotas id' = m.quotas id'
  share : m'.ec.fairCpuShare.toNat = m.ec.cpu.totalCpu.toNat / m.containersWith id

/-- Neither a quota nor the share changes. -/
def SameQuotas (m m' : Manager) : Prop :=
  m'.quotas = m.quotas ∧ m'.ec.fairCpuShare = m.ec.fairCpuShare

instance : IsPreorder Manager SameQuotas where
  refl _ := ⟨rfl, rfl⟩
  trans _ _ _ h h' := ⟨h'.1.trans h.1, h'.2.trans h.2⟩

theorem AgentFrame.sameQuotas (h : AgentFrame m m') : SameQuotas m m' := by
  refine ⟨h.quotas, ?_⟩
  obtain ⟨_, _, _, rfl⟩ := h
  rfl

theorem sameQuotas_linkAgent : Keeps SameQuotas (linkAgent id) := by
  refine keeps_bind keeps_get fun m => ?_
  split
  · refine keeps_bind (keeps_modify fun _ => ⟨rfl, rfl⟩) fun _ => keeps_modify fun m => ?_
    exact ⟨quotas_modifyBack_of_eq fun _ _ => rfl, fairCpuShare_modifyBack⟩
  · exact keeps_pure _

theorem Admitted.of_same {q : UInt64} (h : Admitted m id q t) (ht : SameQuotas t m') :
    Admitted m id q m' :=
  ⟨by rw [ht.1]; exact h.newest, fun id' hne => by rw [ht.1]; exact h.others id' hne,
    by rw [ht.2]; exact h.share⟩

theorem quotas_insertSc {cpu : Global.Cpu} {id' : ContainerId} :
    quotas { m with ec := ({ m.ec with cpu := cpu } : ElasticContainer).insertSc sc } id' =
      if id' = sc.cId then some ((m.quotas sc.cId).getD [] ++ [sc.quota]) else m.quotas id' := by
  unfold quotas insertSc
  dsimp only
  cases hq : m.ec.subcontainers.lookup sc.cId with
  | none =>
    dsimp only
    rw [UnorderedMap.lookup_insert']
    split
    · rfl
    · rfl
  | some q =>
    dsimp only
    rw [UnorderedMap.lookup_insert']
    split
    · rw [Option.map_some, List.map_append]
      rfl
    · rfl

theorem admitted_withInstance (m : Manager) (sc : SubContainer) {cpu : Global.Cpu}
    (htotal : cpu.totalCpu = m.ec.cpu.totalCpu) :
    Admitted m sc.cId sc.quota (m.withInstance cpu sc) := by
  have hquotas : (m.withInstance cpu sc).quotas =
      quotas { m with ec := ({ m.ec with cpu := cpu } : ElasticContainer).insertSc sc } :=
    quotas_congr subcontainers_updateFairCpuShare
  refine ⟨?_, fun id' hne => ?_, ?_⟩
  · rw [hquotas, quotas_insertSc, if_pos rfl]
  · rw [hquotas, quotas_insertSc, if_neg hne]
  · rw [share_withInstance, htotal]

/-- **What an admission records.** -/
theorem admitted_state {ip : UInt32} {fd : Int} :
    Admitted m ⟨req.cgroupId, .fromNet ip⟩ (m.admittedQuota req.rsrcAmnt)
      ((handleAddCgroupToEc env req ip fd).run m).state := by
  refine wp_state_iff.mp ?_
  unfold handleAddCgroupToEc
  rw [wp_bind]
  refine wp_determineQuotaForNewPod_quota fun flag cpu htotal => ?_
  simp only [wp_bind, modifyEc, wp_modify]
  have hadmitted := admitted_withInstance m
    (.new req.cgroupId ip fd (m.admittedQuota req.rsrcAmnt) req.request env.now) htotal
  refine wp_mono (sameQuotas_linkAgent.wp _) (fun _ m₁ h₁ => ?_) (fun _ m₁ h₁ => ?_)
  · cases flag with
    | false => exact hadmitted.of_same h₁
    | true =>
      rw [if_pos rfl, wp_bind]
      refine wp_backOf_of (fun sc' _ => ?_) fun _ => hadmitted.of_same h₁
      rw [wp_bind]
      refine wp_setScQuotaSyscall (fun _ => hadmitted.of_same h₁) (fun m₂ h₂ _ _ => ?_)
        (fun m₂ _ h₂ _ _ => ?_)
      all_goals exact hadmitted.of_same (trans_of SameQuotas h₁ h₂.sameQuotas)
  · exact hadmitted.of_same h₁

/-- The new instance, and it alone, has a new quota, and that is not below the floor. -/
def AdmitsAbove (m : Manager) (req : Msg) (ip : UInt32) (m' : Manager) : Prop :=
  ∃ q, m'.quotas ⟨req.cgroupId, .fromNet ip⟩ =
      some ((m.quotas ⟨req.cgroupId, .fromNet ip⟩).getD [] ++ [q]) ∧
    (∀ id', id' ≠ ⟨req.cgroupId, .fromNet ip⟩ → m'.quotas id' = m.quotas id') ∧
    floorOf m.ec.cpu.sliceSize m'.ec.fairCpuShare req.rsrcAmnt ≤ q.toNat

/-- The pool has what is asked for, or nothing, or at least the floor. -/
def AdmissionOk (m : Manager) (req : Msg) (ip : UInt32) : Prop :=
  req.rsrcAmnt ≤ m.ec.cpu.unallocatedRt ∨ m.ec.cpu.unallocatedRt = 0 ∨
    min m.ec.cpu.sliceSize.toNat
      (min (m.ec.cpu.totalCpu.toNat / m.containersWith ⟨req.cgroupId, .fromNet ip⟩)
        req.rsrcAmnt.toNat) ≤ m.ec.cpu.unallocatedRt.toNat

instance {ip : UInt32} : Decidable (m.AdmissionOk req ip) :=
  inferInstanceAs (Decidable (_ ∨ _ ∨ _))

theorem floor_le_admittedQuota_iff {ip : UInt32} {share : UInt64}
    (hshare : share.toNat =
      m.ec.cpu.totalCpu.toNat / m.containersWith ⟨req.cgroupId, .fromNet ip⟩) :
    floorOf m.ec.cpu.sliceSize share req.rsrcAmnt ≤ (m.admittedQuota req.rsrcAmnt).toNat ↔
      m.AdmissionOk req ip := by
  unfold floorOf AdmissionOk admittedQuota
  rw [hshare]
  by_cases hle : req.rsrcAmnt ≤ m.ec.cpu.unallocatedRt
  · rw [if_pos hle]
    exact ⟨fun _ => .inl hle, fun _ => (Nat.min_le_right _ _).trans (Nat.min_le_right _ _)⟩
  · rw [if_neg hle]
    by_cases hzero : m.ec.cpu.unallocatedRt = 0
    · rw [if_pos hzero]
      exact ⟨fun _ => .inr (.inl hzero), fun _ => Nat.min_le_left _ _⟩
    · rw [if_neg hzero]
      exact ⟨fun h => .inr (.inr h), fun h => (h.resolve_left hle).resolve_left hzero⟩

theorem admitsAbove_iff {ip : UInt32} {fd : Int} :
    AdmitsAbove m req ip ((handleAddCgroupToEc env req ip fd).run m).state ↔
      m.AdmissionOk req ip := by
  have hadmitted : Admitted m ⟨req.cgroupId, .fromNet ip⟩ (m.admittedQuota req.rsrcAmnt)
      ((handleAddCgroupToEc env req ip fd).run m).state := admitted_state
  rw [← floor_le_admittedQuota_iff hadmitted.share]
  constructor
  · rintro ⟨q, hq, _, hfloor⟩
    rw [hadmitted.newest] at hq
    have hlast := List.append_cancel_left (Option.some.inj hq)
    rw [(List.cons.inj hlast).1]
    exact hfloor
  · exact fun hfloor => ⟨_, hadmitted.newest, hadmitted.others, hfloor⟩

/-! ## Every quota that is recorded -/

/-- **The quota floor.** For admissions an equivalence, for reports one in the ordinary range. -/
theorem quota_floor {db : UnorderedMap Ip4Addr AgentClient} (hrun : gcm.Run (.new db) m)
    (env : Env) :
    (∀ req ip fd, AdmitsAbove m req ip ((handleAddCgroupToEc env req ip fd).run m).state ↔
      m.AdmissionOk req ip) ∧
    (∀ req sc sc₁ cpu₁, req.reqType = cpuReq → m.ec.back? req.containerId = some sc →
      (sc.stamped env req).syncQuota req.rsrcAmnt m.ec.cpu = .handled sc₁ cpu₁ →
      ((m.PushSucceeds env sc → (m.chainReading env req sc sc₁ cpu₁).FloorOk sc₁.quota) →
        KeepsFloor (m.accepted env req sc₁ cpu₁)
          ((handleCpuUsageReport env req).run m).state) ∧
      ((m.chainReading env req sc sc₁ cpu₁).Ordinary →
        KeepsFloor (m.accepted env req sc₁ cpu₁)
          ((handleCpuUsageReport env req).run m).state →
        m.PushSucceeds env sc → (m.chainReading env req sc sc₁ cpu₁).FloorOk sc₁.quota)) ∧
    KeepsFloor m ((checkForIdleContainers env).run m).state := by
  have hslice := (slices_of_run hrun).1
  refine ⟨fun _ _ _ => admitsAbove_iff, fun req sc sc₁ cpu₁ ht hb hs => ?_,
    keepsFloor_sweep hslice⟩
  have hsize := slice_chainReading hslice hs
  have hagree := agree_of_handled hs
  rw [keepsFloor_report_iff ht hb hs]
  constructor
  · exact fun hok hpush rz hrz => Reading.resize_floor hsize hagree (hok hpush) hrz
  · exact fun hr hfloor hpush => Reading.floorOk_of_resize_floor hsize hr hagree (hfloor hpush)

/-- A container with half a core that wakes up, with a core and a half in the pool. -/
theorem quota_floor_of_wakeUp :
    ∃ m sc, gcm.Run (.new oneAgent) m ∧ m.ec.back? ⟨1, node⟩ = some sc ∧
      (m.chainReading idleEnv (msgOf 1 cpuReq 50000000 0) sc
        (sc.stamped idleEnv (msgOf 1 cpuReq 50000000 0)) m.ec.cpu).branch = .wakeUp ∧
      KeepsFloor (m.accepted idleEnv (msgOf 1 cpuReq 50000000 0)
        (sc.stamped idleEnv (msgOf 1 cpuReq 50000000 0)) m.ec.cpu)
        ((handleCpuUsageReport idleEnv (msgOf 1 cpuReq 50000000 0)).run m).state := by
  have hreplay : ((gcm.replay
      [.appSpec ⟨2000, 100⟩, deliver 0 (msgOf 1 initReq 50000000 0)] (.new oneAgent)).any fun m =>
      (m.ec.back? ⟨1, node⟩).any fun sc =>
        (sc.stamped idleEnv (msgOf 1 cpuReq 50000000 0)).quotaMismatch 50000000 = false ∧
        (m.chainReading idleEnv (msgOf 1 cpuReq 50000000 0) sc
          (sc.stamped idleEnv (msgOf 1 cpuReq 50000000 0)) m.ec.cpu).branch = .wakeUp ∧
        (m.chainReading idleEnv (msgOf 1 cpuReq 50000000 0) sc
          (sc.stamped idleEnv (msgOf 1 cpuReq 50000000 0)) m.ec.cpu).FloorOk
            (sc.stamped idleEnv (msgOf 1 cpuReq 50000000 0)).quota) = true := by
    decide +kernel
  obtain ⟨m, hrun, hany⟩ := System.exists_run_of_replay hreplay
  obtain ⟨sc, hb, hsc⟩ := (Option.any_eq_true ..).mp hany
  obtain ⟨hagree, hbranch, hok⟩ := of_decide_eq_true hsc
  obtain ⟨hkeeps, _⟩ := (quota_floor hrun idleEnv).2.1 (msgOf 1 cpuReq 50000000 0) sc _ _ rfl hb
    (SubContainer.syncQuota_of_agree hagree)
  exact ⟨m, sc, hrun, hb, hbranch, hkeeps fun _ => hok⟩

/-- Five nanoseconds are left in the pool, so five nanoseconds it is. -/
theorem admission_below_floor :
    ¬ ∀ (db : UnorderedMap Ip4Addr AgentClient) (m : Manager) (env : Env) (req : Msg)
      (ip : UInt32) (fd : Int), gcm.Run (.new db) m →
      AdmitsAbove m req ip ((handleAddCgroupToEc env req ip fd).run m).state := by
  intro hclaim
  have hreplay : ((gcm.replay
      [.appSpec ⟨1000, 100⟩, deliver 0 (msgOf 1 initReq 99999995 0)] (.new oneAgent)).any fun m =>
      ¬ m.AdmissionOk (msgOf 2 initReq 1000 0) node.addr) = true := by
    decide +kernel
  obtain ⟨m, hrun, hnot⟩ := System.exists_run_of_replay hreplay
  have habove := hclaim oneAgent m idleEnv (msgOf 2 initReq 1000 0) node.addr 9 hrun
  exact of_decide_eq_true hnot (admitsAbove_iff.mp habove)

end Manager

end EcGcm
