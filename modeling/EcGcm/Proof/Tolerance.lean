import EcGcm.Proof.CpuBooks
import EcGcm.Proof.Fixed
import EcGcm.Proof.Quiet

/-!
# The tolerance of the mismatch test

A report whose quota agrees with the record up to the last 999 ns is not a mismatch, but the chain
computes the new quota and the transfer from the *reported* value. What `alloc_rt` moves by is the
change relative to the report, what the recorded quotas move by is the change relative to the
record, and the difference stays. Reports that resize and carry exactly the recorded quota leave
no difference; reports with a remainder add it up.
-/

set_option autoImplicit false

namespace EcGcm

open Word Handler

/-- The allocated total moves with the quota, whatever the transfer draws on. -/
theorem Resize.Pays.allocRt {c : Global.Cpu} {rx overrun : UInt64} {bound : ℕ} {rz : Resize}
    (h : rz.Pays rx overrun bound) (hA : c.allocRt.toNat < 2 ^ 63)
    (hrx : rx.toNat ≤ c.allocRt.toNat) :
    ((rz.transfer.apply c).allocRt.toNat : Int) =
      c.allocRt.toNat + (rz.newQuota.toNat - rx.toNat) := by
  cases h with
  | take q d hq _ =>
    have hd := amount_lt d
    have hsum : ((c.allocRt + d).toNat : Int) = c.allocRt.toNat + amount d :=
      add_toNat (by omega) (by omega)
    show ((c.allocRt + d).toNat : Int) = c.allocRt.toNat + (q.toNat - rx.toNat)
    omega
  | give q d hq =>
    have hsum := satSub_toNat hA (amount_le_of_le hA (d := d) (by omega))
    rw [amount_of_lt (by omega)] at hsum
    show ((satSub c.allocRt d).toNat : Int) = c.allocRt.toNat + (q.toNat - rx.toNat)
    omega
  | borrow q d hq hd =>
    have hsum := add_toNat_of_lt (a := c.allocRt) (d := d) (by omega)
    show ((c.allocRt + d).toNat : Int) = c.allocRt.toNat + (q.toNat - rx.toNat)
    omega
  | shed q d hq _ =>
    have hsum := satSub_toNat hA (amount_le_of_le hA (d := d) (by omega))
    rw [amount_of_lt (by omega)] at hsum
    show ((satSub c.allocRt d).toNat : Int) = c.allocRt.toNat + (q.toNat - rx.toNat)
    omega

namespace Manager

open ElasticContainer

variable {m m' : Manager} {env : Env} {req : Msg} {id : ContainerId} {sc : SubContainer}

/-- What `alloc_rt` and the recorded quotas differ by. -/
def drift (m : Manager) : Int := m.ec.cpu.allocRt.toNat - m.ec.totalQuota

/-- How many containers there are. -/
def count (m : Manager) : ℕ := m.ec.sumOver fun _ => 1

/-- A report about a known container that is not a mismatch. -/
def Tolerated (m : Manager) (e : Event) : Prop :=
  ∃ p ∈ e.report?, ∃ sc ∈ m.ec.back? p.2.containerId, sc.quotaMismatch p.2.rsrcAmnt = false

instance (m : Manager) (e : Event) : Decidable (m.Tolerated e) :=
  inferInstanceAs (Decidable (∃ p ∈ _, ∃ sc ∈ _, _))

/-- The chain does not resize, or it starts from the recorded quota and its arithmetic stays in
range. -/
def ResizesExactly (m : Manager) (env : Env) (req : Msg) (sc : SubContainer) : Prop :=
  let r := m.chainReading env req sc (sc.stamped env req) m.ec.cpu
  r.resize = none ∨
    (req.rsrcAmnt = sc.quota ∧ (r.branch = .overrun → r.slice ≤ r.fairCpuShare) ∧
      req.rsrcAmnt.toNat + r.unallocatedRt.toNat < 2 ^ 63 ∧ r.fairCpuShare.toNat < 2 ^ 63 ∧
      m.ec.cpu.allocRt.toNat < 2 ^ 63)

instance (m : Manager) (env : Env) (req : Msg) (sc : SubContainer) :
    Decidable (m.ResizesExactly env req sc) :=
  inferInstanceAs (Decidable (_ = _ ∨ (_ ∧ _ ∧ _ ∧ _ ∧ _)))

/-- The condition on an event. -/
def Exact (m : Manager) (e : Event) : Prop :=
  ∀ p ∈ e.report?, ∀ sc ∈ m.ec.back? p.2.containerId, m.ResizesExactly p.1 p.2 sc

instance (m : Manager) (e : Event) : Decidable (m.Exact e) :=
  inferInstanceAs (Decidable (∀ p ∈ _, ∀ sc ∈ _, _))

instance (e : Event) : Decidable ((gcm.only Tolerated).enabled m e) :=
  inferInstanceAs (Decidable (True ∧ m.Tolerated e))

instance (e : Event) : Decidable (((gcm.only Tolerated).only Exact).enabled m e) :=
  inferInstanceAs (Decidable ((gcm.only Tolerated).enabled m e ∧ m.Exact e))

/-! ## One report -/

theorem drift_of_agentFrame (h : AgentFrame m m') : m'.drift = m.drift := by
  unfold drift totalQuota sumOver
  rw [h.cpu, h.subcontainers]

/-- Stamping and sampling touch neither side, and the leak repair only the pool. -/
theorem drift_accepted {cpu : Global.Cpu} (hb : m.ec.back? req.containerId = some sc)
    (hcpu : cpu = m.ec.cpu) : (m.accepted env req (sc.stamped env req) cpu).drift = m.drift := by
  subst hcpu
  have hsum := sumOver_modifyBack (f := fun _ => (sc.stamped env req).sampled env req)
    (g := fun sc => sc.quota.toNat) hb
  simp only [SubContainer.quota_sampled, SubContainer.quota_stamped] at hsum
  have hQ : (m.accepted env req (sc.stamped env req) m.ec.cpu).ec.totalQuota = m.ec.totalQuota := by
    have hsub : (m.accepted env req (sc.stamped env req) m.ec.cpu).ec.subcontainers =
        (m.ec.modifyBack req.containerId fun _ =>
          (sc.stamped env req).sampled env req).subcontainers :=
      subcontainers_modifyBack_congr rfl
    unfold totalQuota sumOver at *
    rw [hsub]
    exact Nat.add_right_cancel hsum
  unfold drift
  rw [hQ, cpu_accepted, (debts_fixRtLeak _ _).2]

/-- A resize from the recorded quota moves both sides by the same amount. -/
theorem drift_resize {rz : Resize} {overrun : UInt64} {bound : ℕ}
    (hb : m.ec.back? id = some sc) (hpays : rz.Pays sc.quota overrun bound)
    (hA : m.ec.cpu.allocRt.toNat < 2 ^ 63) (hle : sc.quota.toNat ≤ m.ec.cpu.allocRt.toNat) :
    ({ m with ec := { m.ec.modifyBack id fun sc => sc.resized rz.newQuota with
        cpu := rz.transfer.apply m.ec.cpu } } : Manager).drift = m.drift := by
  have halloc := hpays.allocRt hA hle
  have hsum := sumOver_modifyBack (f := fun sc => sc.resized rz.newQuota)
    (g := fun sc => sc.quota.toNat) hb
  simp only [SubContainer.quota_resized] at hsum
  show ((rz.transfer.apply m.ec.cpu).allocRt.toNat : Int) -
    (m.ec.modifyBack id fun sc => sc.resized rz.newQuota).totalQuota = m.drift
  unfold drift totalQuota
  omega

theorem wp_report_drift (ht : req.reqType = cpuReq) (hb : m.ec.back? req.containerId = some sc)
    (hagree : sc.quotaMismatch req.rsrcAmnt = false) (hexact : m.ResizesExactly env req sc)
    (hslice : m.ec.cpu.sliceSize = 30000000) (hzero : m.drift = 0) :
    wp (handleCpuUsageReport env req) (fun _ m' => m'.drift = 0) (fun _ m' => m'.drift = 0) m := by
  have hsync : (sc.stamped env req).syncQuota req.rsrcAmnt m.ec.cpu =
      .handled (sc.stamped env req) m.ec.cpu := SubContainer.syncQuota_stamped_of_agree hagree
  have hacc : (m.accepted env req (sc.stamped env req) m.ec.cpu).drift = 0 :=
    (drift_accepted hb rfl).trans hzero
  refine wp_handleCpuUsageReport ht hb (fun sc' hs => ?_) (fun sc₁ cpu₁ hs hrz => ?_)
    (fun sc₁ cpu₁ rz hs hrz => ?_)
  all_goals
    rw [hsync] at hs
    cases hs
  · exact hacc
  · unfold ResizesExactly at hexact
    dsimp only at hexact
    rw [hrz] at hexact
    obtain ⟨hrx, hover, hrange, hshare, hA⟩ := hexact.resolve_left (Option.some_ne_none _)
    set r := m.chainReading env req sc (sc.stamped env req) m.ec.cpu with hr
    set m₁ := m.accepted env req (sc.stamped env req) m.ec.cpu with hm₁
    have hbacc : m₁.ec.back? req.containerId = some ((sc.stamped env req).sampled env req) :=
      back?_modifyBack hb
    have hquota : ((sc.stamped env req).sampled env req).quota = req.rsrcAmnt := by
      rw [SubContainer.quota_sampled, SubContainer.quota_stamped, hrx]
    have hAacc : m₁.ec.cpu.allocRt = m.ec.cpu.allocRt := by
      rw [hm₁, cpu_accepted, (debts_fixRtLeak _ _).2]
    have hSacc : r.slice = 30000000 := by
      show m₁.ec.cpu.sliceSize = 30000000
      rw [hm₁, cpu_accepted, (fixed_fixRtLeak _ _).2]
      exact hslice
    -- the pool may be short of a small gap, but the share never is
    have hpays : rz.Pays req.rsrcAmnt r.overrun
        (max r.unallocatedRt.toNat r.fairCpuShare.toNat) := by
      refine Reading.resize_pays hSacc hrange hshare (le_max_left _ _) hover (fun hbr _ => .inr ?_)
        hrz
      have := Reading.amntShareLacking_toNat (Reading.branch_fairShare hbr)
      omega
    rw [← hquota] at hpays
    have hle : ((sc.stamped env req).sampled env req).quota.toNat ≤ m₁.ec.cpu.allocRt.toNat := by
      have hsum : ((sc.stamped env req).sampled env req).quota.toNat ≤ m₁.ec.totalQuota :=
        le_sumOver (g := fun sc => sc.quota.toNat) hbacc
      unfold drift at hacc
      omega
    refine wp_applyResize_of (fun _ m' hm => ?_) (fun m' hm => ?_) (fun m' hm => ?_)
    · exact (drift_of_agentFrame hm).trans hacc
    · exact (drift_of_agentFrame hm).trans hacc
    · have hbm : m'.ec.back? req.containerId = some ((sc.stamped env req).sampled env req) :=
        (hm.back? _).trans hbacc
      refine (drift_resize hbm hpays ?_ ?_).trans ((drift_of_agentFrame hm).trans hacc)
      · rw [hm.cpu, hAacc]
        exact hA
      · rw [hm.cpu]
        exact hle

/-! ## Runs -/

/-- **The tolerance does not accumulate** as long as every report that resizes carries exactly
the recorded quota. -/
theorem drift_bounded_of_run {db : UnorderedMap Ip4Addr AgentClient} (hm : gcm.Run (.new db) m)
    (hzero : m.ec.cpu.allocRt.toNat = m.ec.totalQuota) (hcount : 0 < m.count)
    (hrun : ((gcm.only Tolerated).only Exact).Run m m') : |m'.drift| < 1000 * m.count := by
  have hstart : m.drift = 0 := by
    unfold drift
    omega
  have hinv : m'.drift = 0 ∧ m'.ec.cpu.sliceSize = 30000000 := by
    refine System.invariant (I := fun m => m.drift = 0 ∧ m.ec.cpu.sliceSize = 30000000)
      ⟨hstart, (slices_of_run hm).1⟩ ?_ hrun
    rintro e t t' ⟨hdrift, hslice⟩ ⟨⟨_, ⟨env, req⟩, hp, sc, hb, hagree⟩, hexact⟩ hnext
    obtain ⟨ht, hhandle⟩ := Event.handle_of_report hp
    have hne : ∀ spec, e ≠ .appSpec spec := by
      rintro spec rfl
      cases hp
    refine ⟨resume_of_wp (I := fun m => m.drift = 0) ?_ hnext, ?_⟩
    · rw [hhandle, wp_inThread, wp_bind]
      exact wp_report_drift ht hb hagree (hexact _ hp sc hb) hslice hdrift
    · have hsame := congrArg (fun t => t.2.2.1) (fixed_next hne hnext)
      exact hsame.trans hslice
  rw [hinv.1, abs_zero]
  omega

/-! ## Two runs

A container with a quota of 30000000 that uses two thirds of it. -/

/-- The admission of the container. -/
def oneContainer : List Event := [.appSpec ⟨1000, 1000⟩, deliver 0 (msgOf 1 initReq 30000000 0)]

/-- A report with a third of the quota unused. -/
def unusedReport (quota : UInt64) : Event :=
  deliver 0 { msgOf 1 cpuReq quota 0 with runtimeRemaining := 10000000 }

/-- Two reports that carry the record. -/
theorem drift_bounded_after_reports :
    ∃ m m', gcm.Run (.new oneAgent) m ∧ m.ec.cpu.allocRt.toNat = m.ec.totalQuota ∧ 0 < m.count ∧
      ((gcm.only Tolerated).only Exact).Run m m' ∧ |m'.drift| < 1000 * m.count := by
  have hreplay : ((gcm.replay oneContainer (.new oneAgent)).any fun m =>
      m.ec.cpu.allocRt.toNat = m.ec.totalQuota ∧ 0 < m.count ∧
        (((gcm.only Tolerated).only Exact).replay [unusedReport 30000000, unusedReport 30000000]
          m).any fun _ => true) = true := by
    decide +kernel
  obtain ⟨m, hm, hp⟩ := System.exists_run_of_replay hreplay
  obtain ⟨hzero, hcount, hreports⟩ := of_decide_eq_true hp
  obtain ⟨m', hrun, _⟩ := System.exists_run_of_replay hreports
  exact ⟨m, m', hm, hzero, hcount, hrun, drift_bounded_of_run hm hzero hcount hrun⟩

/-- Two reports with 999 ns more. Each of them gives 999 ns back that the record never had. -/
theorem drift_accumulates :
    ¬ ∀ (db : UnorderedMap Ip4Addr AgentClient) (m m' : Manager), gcm.Run (.new db) m →
      m.ec.cpu.allocRt.toNat = m.ec.totalQuota → 0 < m.count → (gcm.only Tolerated).Run m m' →
      |m'.drift| < 1000 * m.count := by
  intro hclaim
  have hreplay : ((gcm.replay oneContainer (.new oneAgent)).any fun m =>
      m.ec.cpu.allocRt.toNat = m.ec.totalQuota ∧ 0 < m.count ∧
        ((gcm.only Tolerated).replay [unusedReport 30000999, unusedReport 30000999] m).any fun m' =>
          ¬ |m'.drift| < 1000 * (m.count : Int)) = true := by
    decide +kernel
  obtain ⟨m, hm, hp⟩ := System.exists_run_of_replay hreplay
  obtain ⟨hzero, hcount, hreports⟩ := of_decide_eq_true hp
  obtain ⟨m', hrun, hbroken⟩ := System.exists_run_of_replay hreports
  exact of_decide_eq_true hbroken (hclaim oneAgent m m' hm hzero hcount hrun)

end Manager

end EcGcm
