import EcGcm.Proof.Fixed
import EcGcm.Proof.Quiet

/-!
# Overrun recovery

A container above the fair share `F` pays part of its excess back. The step is a percentage of the
slice or of the excess, whichever rule applies, and is capped by the overrun; it is never compared
with the excess itself. While `F` is at least a slice the percentage does that by itself. Below a
slice, a container with more than twice its share is asked for more than its excess, and only a
small overrun saves it (`Reading.toSub_le_iff`).

That the counters then drop by the step is a second matter. Their decrements test the difference of
two signed words, and a counter of `2 ^ 63` or more passes only if the step is as large
(`Reading.draws_toSub_iff`).

Percentages are exact here.
-/

set_option autoImplicit false

namespace EcGcm

open Handler Word

namespace Reading

variable {r : Reading}

/-- The share is at least a slice, or the excess at most a share, or the overrun at most the
excess. -/
def Recoverable (r : Reading) : Prop :=
  r.slice ≤ r.fairCpuShare ∨ r.rxQuota.toNat ≤ 2 * r.fairCpuShare.toNat ∨
    r.overrun.toNat + r.fairCpuShare.toNat ≤ r.rxQuota.toNat

instance : Decidable r.Recoverable := inferInstanceAs (Decidable (_ ∨ _ ∨ _))

/-- The counters are below `2 ^ 63`, or the step is not. -/
def Comparable (r : Reading) (allocRt : UInt64) : Prop :=
  (allocRt.toNat < 2 ^ 63 ∧ r.overrun.toNat < 2 ^ 63) ∨
    (2 ^ 63 ≤ r.overrun.toNat ∧
      2 ^ 63 * r.fairCpuShare.toNat ≤ (r.rxQuota.toNat - r.fairCpuShare.toNat) * r.slice.toNat)

theorem percentOver_exact (hR : r.rounding = .exact) :
    r.percentOver = ((r.rxQuota.toNat : ℚ) - r.fairCpuShare.toNat) / r.fairCpuShare.toNat := by
  unfold percentOver
  rw [hR]
  rfl

theorem overStep_exact (hR : r.rounding = .exact) :
    r.overStep = if r.percentOver > 1 then
      Local.truncToUInt64 (r.percentOver * r.slice.toNat)
    else Local.truncToUInt64 (r.percentOver * r.amntShareOver.toNat) := by
  unfold overStep
  rw [hR]
  rfl

/-- Up to twice the share, the step is a part of the excess. -/
theorem overStep_le_of_double (hR : r.rounding = .exact) (hF : r.fairCpuShare < r.rxQuota)
    (hdouble : r.rxQuota.toNat ≤ 2 * r.fairCpuShare.toNat) :
    r.overStep.toNat ≤ r.amntShareOver.toNat := by
  have hlt := UInt64.lt_iff_toNat_lt.mp hF
  have hFpos : (0 : ℚ) < r.fairCpuShare.toNat := by exact_mod_cast (by omega)
  have hdouble' : (r.rxQuota.toNat : ℚ) ≤ 2 * r.fairCpuShare.toNat := by exact_mod_cast hdouble
  have hpercent : r.percentOver ≤ 1 := by
    rw [percentOver_exact hR, div_le_one hFpos]
    linarith
  rw [overStep_exact hR, if_neg (not_lt.mpr hpercent)]
  exact truncToUInt64_le (mul_le_of_le_one_left (Nat.cast_nonneg _) hpercent)

/-- Beyond it, and with a share below a slice, the step exceeds the excess and half a slice. -/
theorem lt_overStep (hR : r.rounding = .exact) (hF0 : 0 < r.fairCpuShare.toNat)
    (hS : r.fairCpuShare.toNat < r.slice.toNat)
    (hdouble : 2 * r.fairCpuShare.toNat < r.rxQuota.toNat)
    (hcast : r.percentOver * (r.slice.toNat : ℚ) < 2 ^ 64) :
    r.rxQuota.toNat - r.fairCpuShare.toNat + 1 ≤ r.overStep.toNat ∧
      r.slice.toNat ≤ r.overStep.toNat := by
  have hFpos : (0 : ℚ) < r.fairCpuShare.toNat := by exact_mod_cast hF0
  have hS' : (r.fairCpuShare.toNat : ℚ) + 1 ≤ r.slice.toNat := by exact_mod_cast hS
  have hdouble' : 2 * (r.fairCpuShare.toNat : ℚ) < r.rxQuota.toNat := by exact_mod_cast hdouble
  have hpercent : 1 < r.percentOver := by
    rw [percentOver_exact hR, lt_div_iff₀ hFpos]
    linarith
  have hexcess : r.percentOver * r.fairCpuShare.toNat =
      (r.rxQuota.toNat : ℚ) - r.fairCpuShare.toNat := by
    rw [percentOver_exact hR]
    exact div_mul_cancel₀ _ hFpos.ne'
  rw [overStep_exact hR, if_pos hpercent]
  constructor
  · refine le_truncToUInt64 ?_ hcast
    have hcast' : ((r.rxQuota.toNat - r.fairCpuShare.toNat + 1 : ℕ) : ℚ) =
        (r.rxQuota.toNat : ℚ) - r.fairCpuShare.toNat + 1 := by
      rw [Nat.cast_add, Nat.cast_sub (by omega), Nat.cast_one]
    calc ((r.rxQuota.toNat - r.fairCpuShare.toNat + 1 : ℕ) : ℚ)
        = r.percentOver * r.fairCpuShare.toNat + 1 := by rw [hcast', hexcess]
      _ ≤ r.percentOver * r.fairCpuShare.toNat + r.percentOver := by linarith
      _ = r.percentOver * (r.fairCpuShare.toNat + 1) := by ring
      _ ≤ r.percentOver * r.slice.toNat := mul_le_mul_of_nonneg_left hS' (by linarith)
  · refine le_truncToUInt64 ?_ hcast
    calc (r.slice.toNat : ℚ) = 1 * r.slice.toNat := (one_mul _).symm
      _ ≤ r.percentOver * r.slice.toNat :=
        mul_le_mul_of_nonneg_right hpercent.le (Nat.cast_nonneg _)

theorem toSub_toNat : r.toSub.toNat = min r.overrun.toNat r.overShare.toNat := toNat_min _ _

/-- With a share of at least a slice, a percentage of the slice is at most the excess. -/
theorem overStep_le_of_slice (hR : r.rounding = .exact) (hslice : r.slice = 30000000)
    (hS : r.slice ≤ r.fairCpuShare) (hF : r.fairCpuShare < r.rxQuota) :
    r.overStep.toNat ≤ r.amntShareOver.toNat := by
  have hs : r.slice.toNat = 30000000 := by rw [hslice]; rfl
  have hlt := UInt64.lt_iff_toNat_lt.mp hF
  have hSF := UInt64.le_iff_toNat_le.mp hS
  have hFpos : (0 : ℚ) < r.fairCpuShare.toNat := by exact_mod_cast (by omega)
  have hSF' : (r.slice.toNat : ℚ) ≤ r.fairCpuShare.toNat := by exact_mod_cast hSF
  have hover : (r.amntShareOver.toNat : ℚ) = (r.rxQuota.toNat : ℚ) - r.fairCpuShare.toNat := by
    rw [amntShareOver_toNat hF, Nat.cast_sub hlt.le]
  have hexcess : (0 : ℚ) ≤ r.amntShareOver.toNat := Nat.cast_nonneg _
  rw [overStep_exact hR]
  split
  · refine truncToUInt64_le ?_
    calc r.percentOver * r.slice.toNat
        ≤ r.percentOver * r.fairCpuShare.toNat :=
          mul_le_mul_of_nonneg_left hSF' (by linarith)
      _ = r.amntShareOver.toNat := by
          rw [percentOver_exact hR, div_mul_cancel₀ _ hFpos.ne', hover]
  · rename_i hle
    exact truncToUInt64_le (mul_le_of_le_one_left hexcess (not_lt.mp hle))

theorem toSub_le_of_recoverable (hR : r.rounding = .exact) (hslice : r.slice = 30000000)
    (hF : r.fairCpuShare < r.rxQuota) (h : r.Recoverable) :
    r.toSub.toNat ≤ r.rxQuota.toNat - r.fairCpuShare.toNat := by
  have hs : r.slice.toNat = 30000000 := by rw [hslice]; rfl
  have hover := amntShareOver_toNat hF
  have hmin := r.toSub_toNat
  have hshare : r.overStep.toNat ≤ r.amntShareOver.toNat →
      r.overShare.toNat ≤ r.amntShareOver.toNat := by
    intro hstep
    unfold overShare
    split
    · exact Nat.le_refl _
    · exact hstep
  rcases h with hS | hdouble | hoverrun
  · have := hshare (overStep_le_of_slice hR hslice hS hF)
    omega
  · have := hshare (overStep_le_of_double hR hF hdouble)
    omega
  · omega

/-- **The step stays within the excess** exactly when one of the three reasons applies. -/
theorem toSub_le_iff (hR : r.rounding = .exact) (hslice : r.slice = 30000000)
    (hF0 : 0 < r.fairCpuShare) (hF : r.fairCpuShare < r.rxQuota)
    (hcast : r.percentOver * (r.slice.toNat : ℚ) < 2 ^ 64) :
    r.toSub.toNat ≤ r.rxQuota.toNat - r.fairCpuShare.toNat ↔ r.Recoverable := by
  refine ⟨fun hle => ?_, toSub_le_of_recoverable hR hslice hF⟩
  have hs : r.slice.toNat = 30000000 := by rw [hslice]; rfl
  have hpos : 0 < r.fairCpuShare.toNat := UInt64.lt_iff_toNat_lt.mp hF0
  have hmin := r.toSub_toNat
  by_contra hnot
  unfold Recoverable at hnot
  rw [UInt64.le_iff_toNat_le] at hnot
  obtain ⟨hS, hrest⟩ := not_or.mp hnot
  obtain ⟨hdouble, hoverrun⟩ := not_or.mp hrest
  obtain ⟨hstep, hhalf⟩ := lt_overStep hR hpos (by omega) (by omega) hcast
  have hkept : r.overShare = r.overStep := by
    unfold overShare
    rw [if_neg]
    rw [UInt64.lt_iff_toNat_lt, UInt64.toNat_div, hs]
    show ¬ r.overStep.toNat < 15000000
    omega
  rw [hkept] at hmin
  omega

/-- A step of `2 ^ 63` takes a percentage of the slice, and an overrun that has as much. -/
theorem le_toSub_iff (hR : r.rounding = .exact) (hslice : r.slice = 30000000)
    (hF0 : 0 < r.fairCpuShare) (hF : r.fairCpuShare < r.rxQuota)
    (hcast : r.percentOver * (r.slice.toNat : ℚ) < 2 ^ 64) :
    2 ^ 63 ≤ r.toSub.toNat ↔ 2 ^ 63 ≤ r.overrun.toNat ∧
      2 ^ 63 * r.fairCpuShare.toNat ≤ (r.rxQuota.toNat - r.fairCpuShare.toNat) * r.slice.toNat := by
  have hs : r.slice.toNat = 30000000 := by rw [hslice]; rfl
  have hpos : 0 < r.fairCpuShare.toNat := UInt64.lt_iff_toNat_lt.mp hF0
  have hFpos : (0 : ℚ) < r.fairCpuShare.toNat := by exact_mod_cast hpos
  have hlt := UInt64.lt_iff_toNat_lt.mp hF
  have hword := r.rxQuota.toNat_lt
  have hover := amntShareOver_toNat hF
  have hmin := r.toSub_toNat
  suffices hshare : 2 ^ 63 ≤ r.overShare.toNat ↔ 2 ^ 63 * r.fairCpuShare.toNat ≤
      (r.rxQuota.toNat - r.fairCpuShare.toNat) * r.slice.toNat by
    rw [← hshare, hmin]
    exact le_min_iff
  by_cases hdouble : r.rxQuota.toNat ≤ 2 * r.fairCpuShare.toNat
  · -- a part of an excess that is at most half of the quota
    have hstep := overStep_le_of_double hR hF hdouble
    have hsmall : r.overShare.toNat < 2 ^ 63 := by
      unfold overShare
      split <;> omega
    have hprod : (r.rxQuota.toNat - r.fairCpuShare.toNat) * r.slice.toNat <
        2 ^ 63 * r.fairCpuShare.toNat := by
      rw [hs]
      omega
    exact iff_of_false (by omega) (by omega)
  · have hdouble' : 2 * (r.fairCpuShare.toNat : ℚ) < r.rxQuota.toNat := by
      exact_mod_cast not_le.mp hdouble
    have hpercent : 1 < r.percentOver := by
      rw [percentOver_exact hR, lt_div_iff₀ hFpos]
      linarith
    have hstep : r.overStep = Local.truncToUInt64 (r.percentOver * r.slice.toNat) := by
      rw [overStep_exact hR, if_pos hpercent]
    have hslices : (30000000 : ℕ) ≤ r.overStep.toNat := by
      rw [hstep]
      refine le_truncToUInt64 ?_ hcast
      rw [hs]
      push_cast
      linarith
    have hkept : r.overShare = r.overStep := by
      unfold overShare
      rw [if_neg]
      rw [UInt64.lt_iff_toNat_lt, UInt64.toNat_div, hs]
      show ¬ r.overStep.toNat < 15000000
      omega
    have hcross : ((2 ^ 63 : ℕ) : ℚ) ≤ r.percentOver * r.slice.toNat ↔
        ((2 ^ 63 * r.fairCpuShare.toNat : ℕ) : ℚ) ≤
          (((r.rxQuota.toNat - r.fairCpuShare.toNat) * r.slice.toNat : ℕ) : ℚ) := by
      rw [percentOver_exact hR, div_mul_eq_mul_div, le_div_iff₀ hFpos, Nat.cast_mul, Nat.cast_mul,
        Nat.cast_sub hlt.le]
    rw [hkept, hstep, le_truncToUInt64_iff (by norm_num) hcast, hcross]
    exact Nat.cast_le

/-- **The decrements take the step exactly** when the counters compare as they should. -/
theorem draws_toSub_iff {allocRt : UInt64} (hR : r.rounding = .exact) (hslice : r.slice = 30000000)
    (hF0 : 0 < r.fairCpuShare) (hF : r.fairCpuShare < r.rxQuota)
    (hcast : r.percentOver * (r.slice.toNat : ℚ) < 2 ^ 64)
    (hle : r.toSub.toNat ≤ allocRt.toNat) :
    Draws r.overrun r.toSub ∧ Draws allocRt r.toSub ↔ r.Comparable allocRt := by
  have hlarge := le_toSub_iff hR hslice hF0 hF hcast
  have hmin := r.toSub_toNat
  unfold Comparable
  rw [← hlarge]
  unfold Draws
  omega

/-- Something is paid back. -/
theorem toSub_pos (hslice : r.slice = 30000000) (hO : 0 < r.overrun)
    (hF : r.fairCpuShare < r.rxQuota) : 0 < r.toSub.toNat := by
  have hs : r.slice.toNat = 30000000 := by rw [hslice]; rfl
  have hlt := UInt64.lt_iff_toNat_lt.mp hF
  have hover := amntShareOver_toNat hF
  have hO' : 0 < r.overrun.toNat := UInt64.lt_iff_toNat_lt.mp hO
  have hmin := r.toSub_toNat
  have hshare : 0 < r.overShare.toNat := by
    unfold overShare
    split
    · omega
    · rename_i hstep
      rw [UInt64.lt_iff_toNat_lt, UInt64.toNat_div, hs] at hstep
      change ¬ r.overStep.toNat < 15000000 at hstep
      omega
  omega

end Reading

namespace Manager

open ElasticContainer

variable {m m' : Manager} {env : Env} {req : Msg} {sc : SubContainer} {agent : AgentClient}

/-- What a report that decides on a resize leaves, once its push has succeeded. -/
structure Pushed (m : Manager) (req : Msg) (sc : SubContainer) (agent : AgentClient)
    (cpu : Global.Cpu) (rz : Resize) (m' : Manager) : Prop where
  request : ∃ change seqNum, m'.quotaRequests =
    m.quotaRequests ++ [⟨agent, sc.cId.cgroupId, rz.newQuota, change, seqNum⟩]
  quota : ∃ sc', m'.ec.back? req.containerId = some sc' ∧ sc'.quota = rz.newQuota
  cpu : m'.ec.cpu = rz.transfer.apply cpu

theorem wp_report_pushed {sc₁ : SubContainer} {cpu₁ : Global.Cpu} {rz : Resize}
    (ht : req.reqType = cpuReq) (hb : m.ec.back? req.containerId = some sc)
    (hins : sc.inserted = true) (hagent : m.ec.agent? sc.cId = some agent)
    (hzero : env.updateContainerQuota sc.cId = 0)
    (hs : (sc.stamped env req).syncQuota req.rsrcAmnt m.ec.cpu = .handled sc₁ cpu₁)
    (hrz : (m.chainReading env req sc sc₁ cpu₁).resize = some rz) :
    wp (handleCpuUsageReport env req)
      (fun _ => Pushed m req sc agent (fixRtLeak m.cpuleak cpu₁).2 rz) (fun _ _ => False) m := by
  refine wp_handleCpuUsageReport ht hb (fun sc' hs' => ?_) (fun sc' cpu' hs' hnone => ?_)
    (fun sc' cpu' rz' hs' hrz' => ?_)
  · rw [hs] at hs'
    cases hs'
  · rw [hs] at hs'
    cases hs'
    rw [hrz] at hnone
    cases hnone
  · rw [hs] at hs'
    cases hs'
    cases hrz.symm.trans hrz'
    obtain ⟨hins₁, hcId₁, hagent₁⟩ := reach_of_handled hs
    have hb₁ : (m.accepted env req sc₁ cpu₁).ec.back? req.containerId =
        some (sc₁.sampled env req) :=
      back?_modifyBack hb
    have hlinked : (m.accepted env req sc₁ cpu₁).ec.agent? (sc₁.sampled env req).cId =
        some agent := by
      rw [hcId₁, hagent₁]
      exact hagent
    refine wp_applyResize_of_agent (hins₁.trans hins) hlinked ?_ ⟨?_, ?_, ?_⟩
    · rw [hcId₁]
      exact hzero
    · rw [← hcId₁]
      exact ⟨_, _, rfl⟩
    · exact ⟨_, back?_modifyBack hb₁, SubContainer.quota_resized _ _⟩
    · rw [← cpu_accepted]
      rfl

/-! ## The report -/

/-- The share is at least a slice, or the container's excess at most a share, or the overrun at
most the excess. -/
def Recoverable (m : Manager) (sc : SubContainer) : Prop :=
  m.ec.cpu.sliceSize ≤ m.ec.fairCpuShare ∨ sc.quota.toNat ≤ 2 * m.ec.fairCpuShare.toNat ∨
    m.ec.cpu.overrun.toNat + m.ec.fairCpuShare.toNat ≤ sc.quota.toNat

instance : Decidable (m.Recoverable sc) := inferInstanceAs (Decidable (_ ∨ _ ∨ _))

/-- Allocated total and overrun are below `2 ^ 63`, or the overrun is not and neither is the
percentage of the slice. -/
def Comparable (m : Manager) (sc : SubContainer) : Prop :=
  (m.ec.cpu.allocRt.toNat < 2 ^ 63 ∧ m.ec.cpu.overrun.toNat < 2 ^ 63) ∨
    (2 ^ 63 ≤ m.ec.cpu.overrun.toNat ∧ 2 ^ 63 * m.ec.fairCpuShare.toNat ≤
      (sc.quota.toNat - m.ec.fairCpuShare.toNat) * m.ec.cpu.sliceSize.toNat)

instance : Decidable (m.Comparable sc) := inferInstanceAs (Decidable (_ ∨ _))

/-- A report that echoes the recorded quota and takes the overrun branch, and whose push
succeeds. -/
structure Recovers (m : Manager) (env : Env) (req : Msg) (sc : SubContainer)
    (agent : AgentClient) : Prop where
  reqType : req.reqType = cpuReq
  back : m.ec.back? req.containerId = some sc
  echo : req.rsrcAmnt = sc.quota
  branch : (m.chainReading env req sc (sc.stamped env req) m.ec.cpu).branch = .overrun
  share : 0 < m.ec.fairCpuShare
  inserted : sc.inserted = true
  agent : m.ec.agent? sc.cId = some agent
  status : env.updateContainerQuota sc.cId = 0

/-- One quota is pushed and recorded; it is below the old one and not below the share, and what
the container lost is gone from the overrun and from the allocated total. -/
structure PaysBack (m : Manager) (req : Msg) (sc : SubContainer) (agent : AgentClient)
    (m' : Manager) (q : UInt64) : Prop where
  request : ∃ change seqNum, m'.quotaRequests =
    m.quotaRequests ++ [⟨agent, sc.cId.cgroupId, q, change, seqNum⟩]
  quota : ∃ sc', m'.ec.back? req.containerId = some sc' ∧ sc'.quota = q
  share_le : m.ec.fairCpuShare.toNat ≤ q.toNat
  lt : q.toNat < sc.quota.toNat
  overrun : m'.ec.cpu.overrun.toNat + (sc.quota.toNat - q.toNat) = m.ec.cpu.overrun.toNat
  allocRt : m'.ec.cpu.allocRt.toNat + (sc.quota.toNat - q.toNat) = m.ec.cpu.allocRt.toNat

theorem chainReading_fields (m : Manager) (env : Env) (req : Msg) (sc₀ sc₁ : SubContainer) :
    (m.chainReading env req sc₀ sc₁ m.ec.cpu).slice = m.ec.cpu.sliceSize ∧
    (m.chainReading env req sc₀ sc₁ m.ec.cpu).overrun = m.ec.cpu.overrun ∧
    (m.chainReading env req sc₀ sc₁ m.ec.cpu).fairCpuShare = m.ec.fairCpuShare ∧
    (m.chainReading env req sc₀ sc₁ m.ec.cpu).rxQuota = req.rsrcAmnt := by
  refine ⟨?_, ?_, fairCpuShare_modifyBack, rfl⟩
  · show (m.accepted env req sc₁ m.ec.cpu).ec.cpu.sliceSize = _
    rw [cpu_accepted, (fixed_fixRtLeak _ _).2]
  · show (m.accepted env req sc₁ m.ec.cpu).ec.cpu.overrun = _
    rw [cpu_accepted, (debts_fixRtLeak _ _).1]

theorem Recovers.sync (h : m.Recovers env req sc agent) :
    (sc.stamped env req).syncQuota req.rsrcAmnt m.ec.cpu =
      .handled (sc.stamped env req) m.ec.cpu := SubContainer.syncQuota_of_echo h.echo

/-- What the report does, in terms of the step it takes. -/
theorem Recovers.wp_pushed (h : m.Recovers env req sc agent) :
    wp (handleCpuUsageReport env req)
      (fun _ => Pushed m req sc agent (fixRtLeak m.cpuleak m.ec.cpu).2
        ⟨req.rsrcAmnt - (m.chainReading env req sc (sc.stamped env req) m.ec.cpu).toSub,
          .shed (m.chainReading env req sc (sc.stamped env req) m.ec.cpu).toSub⟩)
      (fun _ _ => False) m := by
  refine wp_report_pushed h.reqType h.back h.inserted h.agent h.status h.sync ?_
  unfold Reading.resize
  rw [h.branch]
  rfl

/-- A step pays back when it is within the excess and both counters can take it. -/
theorem Pushed.paysBack_iff {d : UInt64}
    (h : Pushed m req sc agent (fixRtLeak m.cpuleak m.ec.cpu).2 ⟨req.rsrcAmnt - d, .shed d⟩ m')
    (hecho : req.rsrcAmnt = sc.quota) (hpos : 0 < d.toNat) :
    (∃ q, PaysBack m req sc agent m' q) ↔
      m.ec.fairCpuShare.toNat + d.toNat ≤ sc.quota.toNat ∧
        Draws m.ec.cpu.overrun d ∧ Draws m.ec.cpu.allocRt d := by
  obtain ⟨hover, halloc⟩ := debts_fixRtLeak m.cpuleak m.ec.cpu
  have hO : m'.ec.cpu.overrun = satSub m.ec.cpu.overrun d := by
    rw [h.cpu, ← hover]
    rfl
  have hA : m'.ec.cpu.allocRt = satSub m.ec.cpu.allocRt d := by
    rw [h.cpu, ← halloc]
    rfl
  have hword := d.toNat_lt
  have hquota := sc.quota.toNat_lt
  rw [draws_iff, draws_iff]
  constructor
  · rintro ⟨q, hpays⟩
    obtain ⟨sc', hb', hq'⟩ := hpays.quota
    obtain ⟨sc'', hb'', hq''⟩ := h.quota
    cases hb'.symm.trans hb''
    -- the recorded quota is the unsigned difference, and it is where it should be
    have hq : q = sc.quota - d := by
      rw [← hq', hq'', hecho]
    have hqNat := congrArg UInt64.toNat hq
    rw [UInt64.toNat_sub] at hqNat
    have hshare := hpays.share_le
    have hlt := hpays.lt
    have hoverrun := hpays.overrun
    have hallocRt := hpays.allocRt
    rw [hO] at hoverrun
    rw [hA] at hallocRt
    omega
  · rintro ⟨hle, hdO, hdA⟩
    have hq : (sc.quota - d).toNat = sc.quota.toNat - d.toNat :=
      UInt64.toNat_sub_of_le _ _ (UInt64.le_iff_toNat_le.mpr (by omega))
    rw [← hO] at hdO
    rw [← hA] at hdA
    refine ⟨sc.quota - d, ?_, ?_, by omega, by omega, by omega, by omega⟩
    · rw [← hecho]
      exact h.request
    · rw [← hecho]
      exact h.quota

/-- In every state with a slice of its size. -/
theorem Recovers.paysBack_iff (h : m.Recovers env req sc agent) (hexact : env.rounding = .exact)
    (hsize : m.ec.cpu.sliceSize = 30000000) (halloc : sc.quota ≤ m.ec.cpu.allocRt)
    (hcast : ((sc.quota.toNat : ℚ) - m.ec.fairCpuShare.toNat) / m.ec.fairCpuShare.toNat *
      m.ec.cpu.sliceSize.toNat < 2 ^ 64) :
    wp (handleCpuUsageReport env req) (fun _ m' => ∃ q, PaysBack m req sc agent m' q)
      (fun _ _ => False) m ↔ m.Recoverable sc ∧ m.Comparable sc := by
  obtain ⟨hslice, hover, hshare, hrx⟩ := m.chainReading_fields env req sc (sc.stamped env req)
  have hR : (m.chainReading env req sc (sc.stamped env req) m.ec.cpu).rounding = .exact := hexact
  have hpushed := h.wp_pushed
  have hguard := Reading.branch_overrun_guard h.branch
  generalize m.chainReading env req sc (sc.stamped env req) m.ec.cpu = r at *
  rw [h.echo] at hrx
  rw [UInt64.le_iff_toNat_le] at halloc
  have hs : r.slice = 30000000 := hslice.trans hsize
  have hF : r.fairCpuShare < r.rxQuota := hguard.2
  have hF0 : 0 < r.fairCpuShare := by rw [hshare]; exact h.share
  have hcast' : r.percentOver * (r.slice.toNat : ℚ) < 2 ^ 64 := by
    rw [Reading.percentOver_exact hR, hrx, hshare, hslice]
    exact hcast
  have hpos := Reading.toSub_pos hs hguard.1 hF
  have hpays : wp (handleCpuUsageReport env req)
      (fun _ m' => ∃ q, PaysBack m req sc agent m' q) (fun _ _ => False) m ↔
      m.ec.fairCpuShare.toNat + r.toSub.toNat ≤ sc.quota.toNat ∧
        Draws m.ec.cpu.overrun r.toSub ∧ Draws m.ec.cpu.allocRt r.toSub := by
    constructor
    · intro hwp
      obtain ⟨_, m', _, hq, hm'⟩ := wp_total.mp (wp_and hwp hpushed)
      exact (hm'.paysBack_iff h.echo hpos).mp hq
    · intro hdraws
      exact wp_mono_ret hpushed fun _ m' hm' => (hm'.paysBack_iff h.echo hpos).mpr hdraws
  have hlt := UInt64.lt_iff_toNat_lt.mp hF
  rw [hrx, hshare] at hlt
  have hwithin : m.ec.fairCpuShare.toNat + r.toSub.toNat ≤ sc.quota.toNat ↔ m.Recoverable sc := by
    have hle := Reading.toSub_le_iff hR hs hF0 hF hcast'
    unfold Reading.Recoverable at hle
    unfold Recoverable
    rw [hslice, hshare, hrx, hover] at hle
    rw [← hle]
    omega
  rw [hpays, hwithin]
  refine and_congr_right fun hrec => ?_
  have hle := hwithin.mpr hrec
  have hdraws : Draws r.overrun r.toSub ∧ Draws m.ec.cpu.allocRt r.toSub ↔
      r.Comparable m.ec.cpu.allocRt :=
    Reading.draws_toSub_iff hR hs hF0 hF hcast' (by omega)
  unfold Reading.Comparable at hdraws
  rw [hover, hshare, hrx, hslice] at hdraws
  exact hdraws

/-- **Overrun recovery stops at the fair share** exactly when the share is at least a slice, the
excess at most a share, or the overrun at most the excess, and the counters compare. -/
theorem overrun_recovery_iff {db : UnorderedMap Ip4Addr AgentClient} (hrun : gcm.Run (.new db) m)
    (h : m.Recovers env req sc agent) (hexact : env.rounding = .exact)
    (halloc : sc.quota ≤ m.ec.cpu.allocRt)
    (hcast : ((sc.quota.toNat : ℚ) - m.ec.fairCpuShare.toNat) / m.ec.fairCpuShare.toNat *
      m.ec.cpu.sliceSize.toNat < 2 ^ 64) :
    wp (handleCpuUsageReport env req) (fun _ m' => ∃ q, PaysBack m req sc agent m' q)
      (fun _ _ => False) m ↔ m.Recoverable sc ∧ m.Comparable sc :=
  h.paysBack_iff hexact (slices_of_run hrun).1 halloc hcast

/-! ## Two containers

The first takes the whole pool, the second is admitted on credit: one slice of overrun, held by a
container whose share is `cpuLimit * 50000`. -/

/-- The report of the second container. -/
def creditReport : Msg := msgOf 2 cpuReq 30000000 0

def creditWorld : Env := { Env.uniform 0 0 0 0 0 with rounding := .exact }

/-- The facts a concrete run has to provide, as one test. -/
def recoveryTest (m : Manager) (sc : SubContainer) : Bool :=
  creditReport.rsrcAmnt = sc.quota ∧
  (m.chainReading creditWorld creditReport sc (sc.stamped creditWorld creditReport)
    m.ec.cpu).branch = .overrun ∧
  0 < m.ec.fairCpuShare ∧ sc.inserted = true ∧ m.ec.agent? sc.cId = some ⟨node, 4445⟩ ∧
  sc.quota ≤ m.ec.cpu.allocRt ∧
  ((sc.quota.toNat : ℚ) - m.ec.fairCpuShare.toNat) / m.ec.fairCpuShare.toNat *
    m.ec.cpu.sliceSize.toNat < 2 ^ 64

/-- Half a core for the two of them: the excess is less than a share. -/
theorem overrun_recovery_of_half_core :
    ∃ m sc, gcm.Run (.new oneAgent) m ∧ m.Recovers creditWorld creditReport sc ⟨node, 4445⟩ ∧
      m.Recoverable sc ∧ m.Comparable sc ∧
      wp (handleCpuUsageReport creditWorld creditReport)
        (fun _ m' => ∃ q, PaysBack m creditReport sc ⟨node, 4445⟩ m' q) (fun _ _ => False) m := by
  have hreplay : ((gcm.replay
      [.appSpec ⟨500, 100⟩, deliver 0 (msgOf 1 initReq 50000000 0),
        deliver 0 (msgOf 2 initReq 1000 0)]
      (.new oneAgent)).any fun m => (m.ec.back? ⟨2, node⟩).any fun sc =>
        recoveryTest m sc && decide (m.Recoverable sc ∧ m.Comparable sc)) = true := by
    decide +kernel
  obtain ⟨m, hrun, hany⟩ := System.exists_run_of_replay hreplay
  obtain ⟨sc, hb, hsc⟩ := (Option.any_eq_true ..).mp hany
  obtain ⟨htest, hrec⟩ := (Bool.and_eq_true ..).mp hsc
  obtain ⟨hecho, hbranch, hshare, hins, hagent, halloc, hcast⟩ := of_decide_eq_true htest
  have h : m.Recovers creditWorld creditReport sc ⟨node, 4445⟩ :=
    ⟨rfl, hb, hecho, hbranch, hshare, hins, hagent, rfl⟩
  obtain ⟨hrecoverable, hcomparable⟩ := of_decide_eq_true hrec
  exact ⟨m, sc, hrun, h, hrecoverable, hcomparable,
    (overrun_recovery_iff hrun h rfl halloc hcast).mpr ⟨hrecoverable, hcomparable⟩⟩

/-- A tenth of a core for the two of them: the second container loses all it has. -/
theorem overrun_recovery_overshoots :
    ¬ ∀ (db : UnorderedMap Ip4Addr AgentClient) (m : Manager) (env : Env) (req : Msg)
      (sc : SubContainer) (agent : AgentClient), gcm.Run (.new db) m →
      m.Recovers env req sc agent → env.rounding = .exact → sc.quota ≤ m.ec.cpu.allocRt →
      wp (handleCpuUsageReport env req) (fun _ m' => ∃ q, PaysBack m req sc agent m' q)
        (fun _ _ => False) m := by
  intro hclaim
  have hreplay : ((gcm.replay
      [.appSpec ⟨100, 100⟩, deliver 0 (msgOf 1 initReq 10000000 0),
        deliver 0 (msgOf 2 initReq 1000 0)]
      (.new oneAgent)).any fun m => (m.ec.back? ⟨2, node⟩).any fun sc =>
        recoveryTest m sc && decide (¬ m.Recoverable sc)) = true := by
    decide +kernel
  obtain ⟨m, hrun, hany⟩ := System.exists_run_of_replay hreplay
  obtain ⟨sc, hb, hsc⟩ := (Option.any_eq_true ..).mp hany
  obtain ⟨htest, hnot⟩ := (Bool.and_eq_true ..).mp hsc
  obtain ⟨hecho, hbranch, hshare, hins, hagent, halloc, hcast⟩ := of_decide_eq_true htest
  have h : m.Recovers creditWorld creditReport sc ⟨node, 4445⟩ :=
    ⟨rfl, hb, hecho, hbranch, hshare, hins, hagent, rfl⟩
  have hpays := hclaim oneAgent m creditWorld creditReport sc ⟨node, 4445⟩ hrun h rfl halloc
  exact of_decide_eq_true hnot
    ((h.paysBack_iff rfl (slices_of_run hrun).1 halloc hcast).mp hpays).1

end Manager

end EcGcm
