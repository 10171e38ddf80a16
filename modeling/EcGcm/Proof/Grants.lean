import EcGcm.Proof.Recovery

/-!
# Three ways a report moves CPU

A report can change a quota in three places that are not covered by the pool they draw on.

* The fair-share branch tops a throttled container up. A large gap is capped by the pool; a small
  one is closed at once, whatever the pool holds (`fair_share_topUp_iff`).
* The wake-up branch sets the quota to one core or to the pool, whichever is less. That is below
  the old quota whenever the pool is (`wake_up_iff`).
* The mismatch path takes over a reported quota, however far it is from the record
  (`resync_conserves_iff`).

In all three the pool is decremented by a call that stops at zero, and the allocated total is not.
Each result says exactly when the counters still agree.
-/

set_option autoImplicit false

namespace EcGcm

open Handler Word

/-- What the application may use in all, as far as the counters know. -/
def Global.Cpu.balance (c : Global.Cpu) : Int :=
  (c.allocRt.toNat : Int) + c.unallocatedRt.toNat - c.overrun.toNat

/-- What goes back from the allocated total to the pool. -/
theorem Global.Cpu.returned_iff {c : Global.Cpu} {d : UInt64} :
    (((c.decrAllocRt d).incrUnallocatedRt d).allocRt.toNat + d.toNat = c.allocRt.toNat ∧
      ((c.decrAllocRt d).incrUnallocatedRt d).balance = c.balance) ↔
      (Draws c.allocRt d ∧ c.unallocatedRt.toNat + d.toNat < 2 ^ 64) := by
  have hpool := UInt64.toNat_add c.unallocatedRt d
  have := c.unallocatedRt.toNat_lt
  have := d.toNat_lt
  rw [draws_iff]
  unfold balance
  change (satSub c.allocRt d).toNat + d.toNat = _ ∧
    ((satSub c.allocRt d).toNat : Int) + (c.unallocatedRt + d).toNat - c.overrun.toNat = _ ↔ _
  omega

/-- What is taken from the pool and added to the allocated total. -/
theorem Global.Cpu.taken_iff {c : Global.Cpu} {d : UInt64} :
    (((c.decrUnallocatedRt d).incrAllocRt d).allocRt.toNat = c.allocRt.toNat + d.toNat ∧
      ((c.decrUnallocatedRt d).incrAllocRt d).balance = c.balance) ↔
      (Draws c.unallocatedRt d ∧ c.allocRt.toNat + d.toNat < 2 ^ 64) := by
  have halloc := UInt64.toNat_add c.allocRt d
  have := c.allocRt.toNat_lt
  have := d.toNat_lt
  rw [draws_iff]
  unfold balance
  change (c.allocRt + d).toNat = _ ∧
    ((c.allocRt + d).toNat : Int) + (satSub c.unallocatedRt d).toNat - c.overrun.toNat = _ ↔ _
  omega

namespace Transfer

variable {c : Global.Cpu} {d : UInt64}

/-- A draw on the pool that the pool covers is exact when both counters can carry it. -/
theorem balance_take_iff (hd : d.toNat ≤ c.unallocatedRt.toNat) :
    ((take d).apply c).balance = c.balance ↔
      Draws c.unallocatedRt d ∧ c.allocRt.toNat + d.toNat < 2 ^ 64 := by
  have hA := c.allocRt.toNat_lt
  have hd' := d.toNat_lt
  have hpool : ((take d).apply c).unallocatedRt = satSub c.unallocatedRt d := rfl
  have halloc : ((take d).apply c).allocRt = c.allocRt + d := rfl
  have hover : ((take d).apply c).overrun = c.overrun := rfl
  have hsub := toNat_satSub c.unallocatedRt d
  have hadd := UInt64.toNat_add c.allocRt d
  unfold Global.Cpu.balance Draws
  rw [hpool, halloc, hover]
  rw [if_pos hd] at hsub
  split_ifs at hsub <;> omega

end Transfer

namespace Manager

open ElasticContainer

variable {m m' : Manager} {env : Env} {req : Msg} {sc sc₁ : SubContainer} {cpu₁ : Global.Cpu}
  {rz : Resize}

/-! ## What is left of a report -/

/-- A quota pushed for `sc` reaches its agent and is accepted there. -/
def PushSucceeds (m : Manager) (env : Env) (sc : SubContainer) : Prop :=
  sc.inserted = true ∧ (m.ec.agent? sc.cId).isSome = true ∧ env.updateContainerQuota sc.cId = 0

instance : Decidable (m.PushSucceeds env sc) := inferInstanceAs (Decidable (_ ∧ _ ∧ _))

/-- The counters, and the quota recorded for the newest instance of `id`. -/
def Leaves (m : Manager) (id : ContainerId) (cpu : Global.Cpu) (q : UInt64) : Prop :=
  m.ec.cpu = cpu ∧ ∃ sc, m.ec.back? id = some sc ∧ sc.quota = q

theorem leaves_accepted (hb : m.ec.back? req.containerId = some sc) :
    (m.accepted env req sc₁ cpu₁).Leaves req.containerId (m.accepted env req sc₁ cpu₁).ec.cpu
      sc₁.quota :=
  ⟨rfl, _, back?_modifyBack hb, SubContainer.quota_sampled⟩

/-- A resize whose push gets through is recorded, whatever branch decided on it. -/
theorem leaves_of_pushed (ht : req.reqType = cpuReq) (hb : m.ec.back? req.containerId = some sc)
    (hs : (sc.stamped env req).syncQuota req.rsrcAmnt m.ec.cpu = .handled sc₁ cpu₁)
    (hrz : (m.chainReading env req sc sc₁ cpu₁).resize = some rz) (hpush : m.PushSucceeds env sc) :
    ((handleCpuUsageReport env req).run m).state.Leaves req.containerId
      (rz.transfer.apply (m.accepted env req sc₁ cpu₁).ec.cpu) rz.newQuota := by
  obtain ⟨hins, hagent, hzero⟩ := hpush
  obtain ⟨agent, hagent⟩ := Option.isSome_iff_exists.mp hagent
  rw [cpu_accepted]
  refine (wp_state_iff (I := fun m' => Leaves m' _ _ _)).mp ?_
  refine wp_mono (wp_report_pushed ht hb hins hagent hzero hs hrz) (fun _ m' hm' => ?_)
    (fun _ _ he => he.elim)
  exact ⟨hm'.cpu, hm'.quota⟩

/-- A report that decides on nothing, or whose push does not get through, changes no quota and
no counter after the leak repair. The handler may not come back. -/
theorem leaves_of_kept (ht : req.reqType = cpuReq) (hb : m.ec.back? req.containerId = some sc)
    (hs : (sc.stamped env req).syncQuota req.rsrcAmnt m.ec.cpu = .handled sc₁ cpu₁)
    (hkept : (m.chainReading env req sc sc₁ cpu₁).resize = none ∨ ¬ m.PushSucceeds env sc) :
    ((handleCpuUsageReport env req).run m).state.Leaves req.containerId
      (m.accepted env req sc₁ cpu₁).ec.cpu sc₁.quota := by
  have hstart : (m.accepted env req sc₁ cpu₁).Leaves req.containerId
      (m.accepted env req sc₁ cpu₁).ec.cpu sc₁.quota := leaves_accepted hb
  have hframe : ∀ {m'}, AgentFrame (m.accepted env req sc₁ cpu₁) m' →
      m'.Leaves req.containerId (m.accepted env req sc₁ cpu₁).ec.cpu sc₁.quota := by
    intro m' hm
    unfold Leaves
    rw [hm.cpu, hm.back?]
    exact hstart
  obtain ⟨hins₁, hcId₁, hagent₁⟩ := reach_of_handled hs
  refine (wp_state_iff (I := fun m' => Leaves m' _ _ _)).mp ?_
  refine wp_handleCpuUsageReport ht hb (fun sc' hs' => ?_) (fun sc' cpu' hs' _ => ?_)
    (fun sc' cpu' rz hs' hrz => ?_)
  · rw [hs] at hs'
    cases hs'
  · rw [hs] at hs'
    cases hs'
    exact hstart
  · rw [hs] at hs'
    cases hs'
    -- the push is attempted, so it is the push that fails
    have hnot : ¬ m.PushSucceeds env sc := by
      rcases hkept with hnone | hnot
      · rw [hnone] at hrz
        cases hrz
      · exact hnot
    refine wp_applyResize (fun _ => hframe (.refl _)) (fun m' hm _ _ => hframe hm)
      (fun m' _ hm _ _ _ => show Leaves m' _ _ _ from hframe hm)
      (fun m' agent hm hins hagent hzero => ?_)
    rw [hcId₁, hagent₁] at hagent
    rw [hcId₁] at hzero
    refine absurd ⟨hins₁.symm.trans hins, ?_, hzero⟩ hnot
    rw [hagent]
    rfl

theorem Leaves.cpu_eq {id : ContainerId} {cpu : Global.Cpu} {q : UInt64}
    (h : m'.Leaves id cpu q) : m'.ec.cpu = cpu := h.1

theorem Leaves.quota_eq {id : ContainerId} {cpu : Global.Cpu} {q : UInt64}
    (h : m'.Leaves id cpu q) (hb : m'.ec.back? id = some sc) : sc.quota = q := by
  obtain ⟨_, sc', hb', hq⟩ := h
  cases hb.symm.trans hb'
  exact hq

end Manager

/-! ## The fair-share branch -/

namespace Reading

variable {r : Reading} {alloc : UInt64}

/-- What the container lacks of its fair share. -/
def gap (r : Reading) : ℕ := r.fairCpuShare.toNat - r.rxQuota.toNat

/-- What the branch adds, as a number: a part of a large gap, capped by the pool, or all of a
small one. -/
def topUp (r : Reading) : ℕ :=
  if r.slice.toNat / 2 < r.gap then min r.unallocatedRt.toNat r.underShare.toNat else r.gap

/-- The gap is large, or the pool covers it; the part of a large gap is not rounded above it, or the
pool is below that; and the counters can carry the amount. -/
def Covered (r : Reading) (alloc : UInt64) : Prop :=
  (r.slice.toNat / 2 < r.gap ∨ r.gap ≤ r.unallocatedRt.toNat) ∧
  (r.slice.toNat / 2 < r.gap → r.unallocatedRt.toNat ≤ r.gap ∨ r.underShare.toNat ≤ r.gap) ∧
  (r.unallocatedRt.toNat < 2 ^ 63 ∨ 2 ^ 63 ≤ r.topUp) ∧ alloc.toNat + r.topUp < 2 ^ 64

instance : Decidable (r.Covered alloc) :=
  inferInstanceAs (Decidable (_ ∧ (_ → _) ∧ _ ∧ _))

/-- A gap that is a double is not exceeded by its part. -/
theorem underShare_le_gap (hF : r.rxQuota < r.fairCpuShare) (hgap : r.gap ≤ 2 ^ 53) :
    r.underShare.toNat ≤ r.gap := by
  have hlack : r.amntShareLacking.toNat = r.gap := amntShareLacking_toNat hF
  refine underShare_le ?_
  rw [hlack, r.rounding.ofNat_eq hgap]

theorem toAdd_toNat (hF : r.rxQuota < r.fairCpuShare) : r.toAdd.toNat = r.topUp := by
  have hlack : r.amntShareLacking.toNat = r.gap := amntShareLacking_toNat hF
  have hlarge : r.amntShareLacking > r.slice / 2 ↔ r.slice.toNat / 2 < r.gap := by
    rw [gt_iff_lt, UInt64.lt_iff_toNat_lt, hlack, UInt64.toNat_div]
    rfl
  unfold toAdd topUp
  simp only [hlarge]
  split
  · exact toNat_min _ _
  · exact hlack

/-- The amount stays within the gap and the pool. -/
theorem topUp_le_iff :
    r.topUp ≤ r.gap ∧ r.topUp ≤ r.unallocatedRt.toNat ↔
      (r.slice.toNat / 2 < r.gap ∨ r.gap ≤ r.unallocatedRt.toNat) ∧
        (r.slice.toNat / 2 < r.gap →
          r.unallocatedRt.toNat ≤ r.gap ∨ r.underShare.toNat ≤ r.gap) := by
  have hpool := Nat.min_le_left r.unallocatedRt.toNat r.underShare.toNat
  unfold topUp
  split
  · rename_i hlarge
    rw [min_le_iff]
    exact ⟨fun h => ⟨.inl hlarge, fun _ => h.1⟩, fun h => ⟨h.2 hlarge, hpool⟩⟩
  · rename_i hsmall
    exact ⟨fun h => ⟨.inr h.2, fun hlarge => absurd hlarge hsmall⟩,
      fun h => ⟨le_rfl, h.1.resolve_left hsmall⟩⟩

end Reading

namespace Manager

open ElasticContainer

variable {m m' : Manager} {env : Env} {req : Msg} {sc sc₁ : SubContainer} {cpu₁ : Global.Cpu}

/-- `m₁` is the state the chain starts in. The amount added comes out of the pool, the new quota
stays within the fair share, and no CPU appears or disappears. -/
structure TopsUp (m₁ : Manager) (env : Env) (req : Msg) (sc : SubContainer) (m' : Manager) :
    Prop where
  grant : m₁.PushSucceeds env sc → ∃ sc' e, m'.ec.back? req.containerId = some sc' ∧
    e ≤ m₁.ec.cpu.unallocatedRt.toNat ∧ sc'.quota.toNat = req.rsrcAmnt.toNat + e ∧
    sc'.quota.toNat ≤ m₁.ec.fairCpuShare.toNat
  balance : m'.ec.cpu.balance = m₁.ec.cpu.balance

theorem pushSucceeds_accepted :
    (m.accepted env req sc₁ cpu₁).PushSucceeds env sc ↔ m.PushSucceeds env sc := by
  have hagent : (m.accepted env req sc₁ cpu₁).ec.agent? sc.cId = m.ec.agent? sc.cId :=
    agent?_congr scAcMap_modifyBack sc.cId
  unfold PushSucceeds
  rw [hagent]

theorem TopsUp.of_leaves {m₁ : Manager} {d : UInt64} (hpush : m₁.PushSucceeds env sc)
    (hl : m'.Leaves req.containerId ((Transfer.take d).apply m₁.ec.cpu) (req.rsrcAmnt + d)) :
    m₁.TopsUp env req sc m' ↔ req.rsrcAmnt.toNat + d.toNat ≤ m₁.ec.fairCpuShare.toNat ∧
      Draws m₁.ec.cpu.unallocatedRt d ∧ m₁.ec.cpu.allocRt.toNat + d.toNat < 2 ^ 64 := by
  have hshare := m₁.ec.fairCpuShare.toNat_lt
  have hword := d.toNat_lt
  have hsum := UInt64.toNat_add req.rsrcAmnt d
  constructor
  · intro h
    obtain ⟨sc', e, hb', he, heq, hF⟩ := h.grant hpush
    -- a sum that wraps is below the old quota
    rw [hl.quota_eq hb', hsum] at heq hF
    have hle : req.rsrcAmnt.toNat + d.toNat ≤ m₁.ec.fairCpuShare.toNat := by omega
    have hd : d.toNat ≤ m₁.ec.cpu.unallocatedRt.toNat := by omega
    rw [← Transfer.balance_take_iff hd, ← hl.cpu_eq]
    exact ⟨hle, h.balance⟩
  · rintro ⟨hF, hdraws, hroom⟩
    have hq := add_toNat_of_lt (a := req.rsrcAmnt) (d := d) (by omega)
    obtain ⟨sc', hb', hsc'⟩ := hl.2
    refine ⟨fun _ => ⟨sc', d.toNat, hb', hdraws.1, ?_, ?_⟩, ?_⟩
    · rw [hsc', hq]
    · rw [hsc', hq]
      exact hF
    · rw [hl.cpu_eq, Transfer.balance_take_iff hdraws.1]
      exact ⟨hdraws, hroom⟩

/-- **A top-up mints nothing** exactly when its push fails or the gap is large or in the pool, and
the rounding of a large gap stays within it. -/
theorem fair_share_topUp_iff (ht : req.reqType = cpuReq)
    (hb : m.ec.back? req.containerId = some sc)
    (hs : (sc.stamped env req).syncQuota req.rsrcAmnt m.ec.cpu = .handled sc₁ cpu₁)
    (hbranch : (m.chainReading env req sc sc₁ cpu₁).branch = .fairShare)
    (hU : 0 < (m.accepted env req sc₁ cpu₁).ec.cpu.unallocatedRt) :
    (m.accepted env req sc₁ cpu₁).TopsUp env req sc ((handleCpuUsageReport env req).run m).state ↔
      (m.PushSucceeds env sc →
        (m.chainReading env req sc sc₁ cpu₁).Covered
          (m.accepted env req sc₁ cpu₁).ec.cpu.allocRt) := by
  by_cases hpush : m.PushSucceeds env sc
  · have hF := Reading.branch_fairShare hbranch
    have hadd := Reading.toAdd_toNat hF
    have hlt := UInt64.lt_iff_toNat_lt.mp hF
    have hrz : (m.chainReading env req sc sc₁ cpu₁).resize =
        some ⟨req.rsrcAmnt + (m.chainReading env req sc sc₁ cpu₁).toAdd,
          .take (m.chainReading env req sc sc₁ cpu₁).toAdd⟩ := by
      unfold Reading.resize
      rw [hbranch]
      exact if_pos hU
    have hrx : (m.chainReading env req sc sc₁ cpu₁).rxQuota = req.rsrcAmnt := rfl
    have hshare : (m.chainReading env req sc sc₁ cpu₁).fairCpuShare =
        (m.accepted env req sc₁ cpu₁).ec.fairCpuShare := rfl
    have hpool : (m.chainReading env req sc sc₁ cpu₁).unallocatedRt =
        (m.accepted env req sc₁ cpu₁).ec.cpu.unallocatedRt := rfl
    rw [hrx, hshare] at hlt
    have hgap : (m.chainReading env req sc sc₁ cpu₁).gap =
        (m.accepted env req sc₁ cpu₁).ec.fairCpuShare.toNat - req.rsrcAmnt.toNat := rfl
    have hwithin : req.rsrcAmnt.toNat + (m.chainReading env req sc sc₁ cpu₁).topUp ≤
          (m.accepted env req sc₁ cpu₁).ec.fairCpuShare.toNat ↔
        (m.chainReading env req sc sc₁ cpu₁).topUp ≤ (m.chainReading env req sc sc₁ cpu₁).gap := by
      omega
    rw [TopsUp.of_leaves (pushSucceeds_accepted.mpr hpush) (leaves_of_pushed ht hb hs hrz hpush)]
    unfold Reading.Covered Draws
    rw [← hpool, hadd, hwithin]
    have hcovers := Reading.topUp_le_iff (r := m.chainReading env req sc sc₁ cpu₁)
    constructor
    · rintro ⟨hle, ⟨hpool', hclip⟩, hroom⟩ _
      obtain ⟨hlarge, hrounded⟩ := hcovers.mp ⟨hle, hpool'⟩
      exact ⟨hlarge, hrounded, hclip, hroom⟩
    · intro h
      obtain ⟨hlarge, hrounded, hclip, hroom⟩ := h hpush
      obtain ⟨hle, hpool'⟩ := hcovers.mpr ⟨hlarge, hrounded⟩
      exact ⟨hle, ⟨hpool', hclip⟩, hroom⟩
  · -- nothing is recorded, so nothing moves
    have hl := leaves_of_kept ht hb hs (.inr hpush)
    refine ⟨fun _ h => absurd h hpush, fun _ => ⟨fun h => ?_, ?_⟩⟩
    · exact absurd (pushSucceeds_accepted.mp h) hpush
    · rw [hl.cpu_eq]

/-- What a concrete run has to provide for a throttled report that echoes its quota. -/
def topUpTest (m : Manager) (env : Env) (req : Msg) (sc : SubContainer) : Bool :=
  (sc.stamped env req).quotaMismatch req.rsrcAmnt = false ∧
  (m.chainReading env req sc (sc.stamped env req) m.ec.cpu).branch = .fairShare ∧
  0 < (m.accepted env req (sc.stamped env req) m.ec.cpu).ec.cpu.unallocatedRt ∧
  m.PushSucceeds env sc

/-- Two containers with 20 and 50 of 100 million: the first lacks 30, more than half a slice. -/
theorem fair_share_topUp_of_large_gap :
    ∃ m sc sc₁ cpu₁, gcm.Run (.new oneAgent) m ∧ m.PushSucceeds creditWorld sc ∧
      (m.accepted creditWorld (msgOf 1 cpuReq 20000000 10) sc₁ cpu₁).TopsUp creditWorld
        (msgOf 1 cpuReq 20000000 10) sc
        ((handleCpuUsageReport creditWorld (msgOf 1 cpuReq 20000000 10)).run m).state := by
  have hreplay : ((gcm.replay
      [.appSpec ⟨1000, 100⟩, deliver 0 (msgOf 1 initReq 20000000 0),
        deliver 0 (msgOf 2 initReq 50000000 0)]
      (.new oneAgent)).any fun m => (m.ec.back? ⟨1, node⟩).any fun sc =>
        topUpTest m creditWorld (msgOf 1 cpuReq 20000000 10) sc &&
        decide ((m.chainReading creditWorld (msgOf 1 cpuReq 20000000 10) sc
          (sc.stamped creditWorld (msgOf 1 cpuReq 20000000 10)) m.ec.cpu).Covered
          (m.accepted creditWorld (msgOf 1 cpuReq 20000000 10)
            (sc.stamped creditWorld (msgOf 1 cpuReq 20000000 10)) m.ec.cpu).ec.cpu.allocRt)) =
      true := by
    decide +kernel
  obtain ⟨m, hrun, hany⟩ := System.exists_run_of_replay hreplay
  obtain ⟨sc, hb, hsc⟩ := (Option.any_eq_true ..).mp hany
  obtain ⟨htest, hcov⟩ := (Bool.and_eq_true ..).mp hsc
  obtain ⟨hecho, hbranch, hU, hpush⟩ := of_decide_eq_true htest
  exact ⟨m, sc, _, _, hrun, hpush,
    (fair_share_topUp_iff rfl hb (SubContainer.syncQuota_of_agree hecho) hbranch hU).mpr
      fun _ => of_decide_eq_true hcov⟩

/-- Two containers with 55 and 44.99: the pool holds 0.01 and the second lacks 5.01, which is
less than half a slice. -/
theorem fair_share_topUp_mints :
    ¬ ∀ (m : Manager) (env : Env) (req : Msg) (sc sc₁ : SubContainer) (cpu₁ : Global.Cpu),
      gcm.Run (.new oneAgent) m → req.reqType = cpuReq →
      m.ec.back? req.containerId = some sc →
      (sc.stamped env req).syncQuota req.rsrcAmnt m.ec.cpu = .handled sc₁ cpu₁ →
      (m.chainReading env req sc sc₁ cpu₁).branch = .fairShare →
      0 < (m.accepted env req sc₁ cpu₁).ec.cpu.unallocatedRt →
      (m.accepted env req sc₁ cpu₁).TopsUp env req sc
        ((handleCpuUsageReport env req).run m).state := by
  intro hclaim
  have hreplay : ((gcm.replay
      [.appSpec ⟨1000, 100⟩, deliver 0 (msgOf 1 initReq 55000000 0),
        deliver 0 (msgOf 2 initReq 44990000 0)]
      (.new oneAgent)).any fun m => (m.ec.back? ⟨2, node⟩).any fun sc =>
        topUpTest m creditWorld (msgOf 2 cpuReq 44990000 10) sc &&
        decide (((handleCpuUsageReport creditWorld (msgOf 2 cpuReq 44990000 10)).run
          m).state.ec.cpu.balance ≠ (m.accepted creditWorld (msgOf 2 cpuReq 44990000 10)
            (sc.stamped creditWorld (msgOf 2 cpuReq 44990000 10)) m.ec.cpu).ec.cpu.balance)) =
      true := by
    decide +kernel
  obtain ⟨m, hrun, hany⟩ := System.exists_run_of_replay hreplay
  obtain ⟨sc, hb, hsc⟩ := (Option.any_eq_true ..).mp hany
  obtain ⟨htest, hne⟩ := (Bool.and_eq_true ..).mp hsc
  obtain ⟨hecho, hbranch, hU, _⟩ := of_decide_eq_true htest
  exact of_decide_eq_true hne
    (hclaim m creditWorld (msgOf 2 cpuReq 44990000 10) sc _ _ hrun rfl hb
      (SubContainer.syncQuota_of_agree hecho) hbranch hU).balance

end Manager

/-! ## The wake-up branch -/

namespace Reading

variable {r : Reading} {alloc : UInt64}

/-- One core, or what the pool has. -/
def wakeUpQuota (r : Reading) : ℕ := min r.unallocatedRt.toNat oneCore.toNat

/-- Waking up is not a step down, and the counters can carry a step up. -/
def Rises (r : Reading) (alloc : UInt64) : Prop :=
  r.rxQuota.toNat ≤ r.wakeUpQuota ∧
  (r.rxQuota.toNat < r.wakeUpQuota →
    r.unallocatedRt.toNat < 2 ^ 63 ∧ alloc.toNat + r.wakeUpQuota < 2 ^ 64 + r.rxQuota.toNat)

instance : Decidable (r.Rises alloc) := inferInstanceAs (Decidable (_ ∧ (_ → _)))

theorem branch_of_idle (hidle : r.idleFlag = true) (hU : 0 < r.unallocatedRt) :
    r.branch = .wakeUp := if_pos ⟨hidle, hU⟩

/-- `extra_rt`, as the source has it. -/
def extraRt (r : Reading) : UInt64 := min r.unallocatedRt oneCore - r.rxQuota

theorem extraRt_eq_zero_iff : r.extraRt = 0 ↔ r.wakeUpQuota = r.rxQuota.toNat := by
  have hmin : (min r.unallocatedRt oneCore).toNat = r.wakeUpQuota := toNat_min _ _
  unfold extraRt
  rw [← hmin, UInt64.toNat_inj]
  constructor
  · intro h
    rw [← UInt64.sub_add_cancel (min r.unallocatedRt oneCore) r.rxQuota, h, UInt64.zero_add]
  · intro h
    rw [h, UInt64.sub_self]

theorem wakeUp_eq_none (h : r.extraRt = 0) : r.wakeUp = none := by
  refine if_neg (fun hpos => ?_)
  change 0 < r.extraRt at hpos
  rw [h] at hpos
  exact absurd hpos (by decide)

theorem wakeUp_eq_some (h : r.extraRt ≠ 0) :
    r.wakeUp = some ⟨min r.unallocatedRt oneCore, .take r.extraRt⟩ := by
  refine if_pos ?_
  change 0 < r.extraRt
  rw [UInt64.lt_iff_toNat_lt]
  exact Nat.pos_of_ne_zero fun h0 => h (UInt64.toNat_inj.mp h0)

end Reading

namespace Manager

open ElasticContainer

variable {m m' : Manager} {env : Env} {req : Msg} {sc sc₁ : SubContainer} {cpu₁ : Global.Cpu}

/-- `m₁` is the state the chain starts in, `sc₁` the container there. Either nothing changes, or
the container gets `e` more than it reported, and `e` is what the pool loses and the allocated
total gains. -/
def WakesUp (m₁ : Manager) (req : Msg) (sc₁ : SubContainer) (m' : Manager) : Prop :=
  ∃ sc', m'.ec.back? req.containerId = some sc' ∧
    ((sc'.quota = sc₁.quota ∧ m'.ec.cpu = m₁.ec.cpu) ∨
      ∃ e, sc'.quota.toNat = req.rsrcAmnt.toNat + e ∧ e ≤ m₁.ec.cpu.unallocatedRt.toNat ∧
        m'.ec.cpu.unallocatedRt.toNat + e = m₁.ec.cpu.unallocatedRt.toNat ∧
        m'.ec.cpu.allocRt.toNat = m₁.ec.cpu.allocRt.toNat + e)

theorem WakesUp.of_kept {m₁ : Manager}
    (hl : m'.Leaves req.containerId m₁.ec.cpu sc₁.quota) : m₁.WakesUp req sc₁ m' := by
  obtain ⟨hcpu, sc', hb', hq⟩ := hl
  exact ⟨sc', hb', .inl ⟨hq, hcpu⟩⟩

/-- A push that gets through wakes the container up exactly when the new quota is above the old
one and the counters have room. -/
theorem WakesUp.of_leaves {m₁ : Manager} {q d : UInt64} (hd : d ≠ 0)
    (hq : d = q - req.rsrcAmnt) (hpool : q.toNat ≤ m₁.ec.cpu.unallocatedRt.toNat)
    (hcore : q.toNat < 2 ^ 63)
    (hl : m'.Leaves req.containerId ((Transfer.take d).apply m₁.ec.cpu) q) :
    m₁.WakesUp req sc₁ m' ↔ req.rsrcAmnt.toNat ≤ q.toNat ∧
      m₁.ec.cpu.unallocatedRt.toNat < 2 ^ 63 ∧
      m₁.ec.cpu.allocRt.toNat + q.toNat < 2 ^ 64 + req.rsrcAmnt.toNat := by
  have hA := m₁.ec.cpu.allocRt.toNat_lt
  have hd' := d.toNat_lt
  have hd0 : d.toNat ≠ 0 := fun h => hd (UInt64.toNat_inj.mp h)
  have hdiff := congrArg UInt64.toNat hq
  rw [UInt64.toNat_sub] at hdiff
  have hrx := req.rsrcAmnt.toNat_lt
  have hU' : m'.ec.cpu.unallocatedRt = satSub m₁.ec.cpu.unallocatedRt d := by
    rw [hl.cpu_eq]
    rfl
  have hA' : m'.ec.cpu.allocRt = m₁.ec.cpu.allocRt + d := by
    rw [hl.cpu_eq]
    rfl
  have hsum := UInt64.toNat_add m₁.ec.cpu.allocRt d
  constructor
  · rintro ⟨sc', hb', ⟨_, hcpu⟩ | ⟨e, hsc', _, hU, hAe⟩⟩
    · -- the allocated total has moved
      rw [hcpu] at hA'
      have := congrArg UInt64.toNat hA'
      omega
    · rw [hl.quota_eq hb'] at hsc'
      have hde : d.toNat = e := by omega
      rw [hU', ← hde, ← draws_iff] at hU
      obtain ⟨_, hclip⟩ := hU
      rw [hA'] at hAe
      omega
  · rintro ⟨hle, hclip, hroom⟩
    have hde : d.toNat = q.toNat - req.rsrcAmnt.toNat := by omega
    obtain ⟨sc', hb', hsc'⟩ := hl.2
    refine ⟨sc', hb', .inr ⟨d.toNat, ?_, by omega, ?_, ?_⟩⟩
    · rw [hsc']
      omega
    · rw [hU']
      exact draws_iff.mp ⟨by omega, .inl hclip⟩
    · rw [hA']
      omega

/-- **Waking up costs nothing** exactly when the push fails or the quota is at most one core and
at most the pool. -/
theorem wake_up_iff (ht : req.reqType = cpuReq) (hb : m.ec.back? req.containerId = some sc)
    (hs : (sc.stamped env req).syncQuota req.rsrcAmnt m.ec.cpu = .handled sc₁ cpu₁)
    (hidle : sc.checkIfIdle env.now = true)
    (hU : 0 < (m.accepted env req sc₁ cpu₁).ec.cpu.unallocatedRt) :
    (m.accepted env req sc₁ cpu₁).WakesUp req sc₁ ((handleCpuUsageReport env req).run m).state ↔
      (m.PushSucceeds env sc →
        (m.chainReading env req sc sc₁ cpu₁).Rises
          (m.accepted env req sc₁ cpu₁).ec.cpu.allocRt) := by
  have hresize : (m.chainReading env req sc sc₁ cpu₁).resize =
      (m.chainReading env req sc sc₁ cpu₁).wakeUp := by
    unfold Reading.resize
    rw [Reading.branch_of_idle hidle hU]
  have hpool : (m.chainReading env req sc sc₁ cpu₁).unallocatedRt =
      (m.accepted env req sc₁ cpu₁).ec.cpu.unallocatedRt := rfl
  have hrx : (m.chainReading env req sc sc₁ cpu₁).rxQuota = req.rsrcAmnt := rfl
  have hkept : ∀ h, (m.accepted env req sc₁ cpu₁).WakesUp req sc₁
      ((handleCpuUsageReport env req).run m).state := fun h =>
    .of_kept (leaves_of_kept ht hb hs h)
  generalize hr : m.chainReading env req sc sc₁ cpu₁ = r at *
  have hmin : (min r.unallocatedRt oneCore).toNat = r.wakeUpQuota := toNat_min _ _
  by_cases hpush : m.PushSucceeds env sc
  · by_cases hextra : r.extraRt = 0
    · -- the quota is what waking up would set it to
      have hsame := Reading.extraRt_eq_zero_iff.mp hextra
      have hnone := hresize.trans (Reading.wakeUp_eq_none hextra)
      exact ⟨fun _ _ => ⟨hsame.ge, fun hlt => absurd hsame hlt.ne'⟩, fun _ => hkept (.inl hnone)⟩
    · have hne := fun h => hextra (Reading.extraRt_eq_zero_iff.mpr h)
      have hrz := hresize.trans (Reading.wakeUp_eq_some hextra)
      rw [← hr] at hrz
      have hl := leaves_of_pushed ht hb hs hrz hpush
      rw [hr] at hl
      have hwake : r.wakeUpQuota ≤ r.unallocatedRt.toNat := Nat.min_le_left _ _
      have hone : r.wakeUpQuota ≤ 100000000 := Nat.min_le_right _ _
      rw [WakesUp.of_leaves hextra (by rw [← hrx]; rfl) (by rw [hmin, ← hpool]; exact hwake)
        (by rw [hmin]; omega) hl, hmin, ← hpool]
      unfold Reading.Rises
      rw [hrx] at *
      constructor
      · rintro ⟨hle, hclip, hroom⟩ _
        exact ⟨hle, fun _ => ⟨hclip, hroom⟩⟩
      · intro h
        obtain ⟨hle, hroom⟩ := h hpush
        exact ⟨hle, hroom (lt_of_le_of_ne hle (Ne.symm hne))⟩
  · exact ⟨fun _ h => absurd h hpush, fun _ => hkept (.inr hpush)⟩

/-- Three seconds later. -/
def laterWorld : Env := .uniform 3000000000 0 0 0 0

/-- What a concrete run has to provide for a report after a silence. -/
def wakeUpTest (m : Manager) (env : Env) (req : Msg) (sc : SubContainer) : Bool :=
  (sc.stamped env req).quotaMismatch req.rsrcAmnt = false ∧ sc.checkIfIdle env.now = true ∧
  0 < (m.accepted env req (sc.stamped env req) m.ec.cpu).ec.cpu.unallocatedRt ∧
  m.PushSucceeds env sc

/-- A container with a tenth of the core it is about to get. -/
theorem wake_up_of_small_quota :
    ∃ m sc sc₁ cpu₁, gcm.Run (.new oneAgent) m ∧ m.PushSucceeds laterWorld sc ∧
      (m.accepted laterWorld (msgOf 1 cpuReq 10000000 0) sc₁ cpu₁).WakesUp
        (msgOf 1 cpuReq 10000000 0) sc₁
        ((handleCpuUsageReport laterWorld (msgOf 1 cpuReq 10000000 0)).run m).state := by
  have hreplay : ((gcm.replay [.appSpec ⟨1000, 100⟩, deliver 0 (msgOf 1 initReq 10000000 0)]
      (.new oneAgent)).any fun m => (m.ec.back? ⟨1, node⟩).any fun sc =>
        wakeUpTest m laterWorld (msgOf 1 cpuReq 10000000 0) sc &&
        decide ((m.chainReading laterWorld (msgOf 1 cpuReq 10000000 0) sc
          (sc.stamped laterWorld (msgOf 1 cpuReq 10000000 0)) m.ec.cpu).Rises
          (m.accepted laterWorld (msgOf 1 cpuReq 10000000 0)
            (sc.stamped laterWorld (msgOf 1 cpuReq 10000000 0)) m.ec.cpu).ec.cpu.allocRt)) =
      true := by
    decide +kernel
  obtain ⟨m, hrun, hany⟩ := System.exists_run_of_replay hreplay
  obtain ⟨sc, hb, hsc⟩ := (Option.any_eq_true ..).mp hany
  obtain ⟨htest, hrises⟩ := (Bool.and_eq_true ..).mp hsc
  obtain ⟨hecho, hidle, hU, hpush⟩ := of_decide_eq_true htest
  exact ⟨m, sc, _, _, hrun, hpush,
    (wake_up_iff rfl hb (SubContainer.syncQuota_of_agree hecho) hidle hU).mpr
      fun _ => of_decide_eq_true hrises⟩

/-- A container with 60 of 100 million wakes up to the 40 that are in the pool. -/
theorem wake_up_lowers_quota :
    ¬ ∀ (m : Manager) (env : Env) (req : Msg) (sc sc₁ : SubContainer) (cpu₁ : Global.Cpu),
      gcm.Run (.new oneAgent) m → req.reqType = cpuReq →
      m.ec.back? req.containerId = some sc →
      (sc.stamped env req).syncQuota req.rsrcAmnt m.ec.cpu = .handled sc₁ cpu₁ →
      sc.checkIfIdle env.now = true →
      0 < (m.accepted env req sc₁ cpu₁).ec.cpu.unallocatedRt →
      (m.accepted env req sc₁ cpu₁).WakesUp req sc₁
        ((handleCpuUsageReport env req).run m).state := by
  intro hclaim
  have hreplay : ((gcm.replay [.appSpec ⟨1000, 100⟩, deliver 0 (msgOf 1 initReq 60000000 0)]
      (.new oneAgent)).any fun m => (m.ec.back? ⟨1, node⟩).any fun sc =>
        wakeUpTest m laterWorld (msgOf 1 cpuReq 60000000 0) sc &&
        (((handleCpuUsageReport laterWorld (msgOf 1 cpuReq 60000000 0)).run m).state.ec.back?
          ⟨1, node⟩).all fun sc' =>
            decide (sc'.quota.toNat < 60000000 ∧
              sc'.quota ≠ (sc.stamped laterWorld (msgOf 1 cpuReq 60000000 0)).quota)) = true := by
    decide +kernel
  obtain ⟨m, hrun, hany⟩ := System.exists_run_of_replay hreplay
  obtain ⟨sc, hb, hsc⟩ := (Option.any_eq_true ..).mp hany
  obtain ⟨htest, hlow⟩ := (Bool.and_eq_true ..).mp hsc
  obtain ⟨hecho, hidle, hU, _⟩ := of_decide_eq_true htest
  obtain ⟨sc', hb', hwake⟩ := hclaim m laterWorld (msgOf 1 cpuReq 60000000 0) sc _ _ hrun rfl hb
    (SubContainer.syncQuota_of_agree hecho) hidle hU
  obtain ⟨hlt, hne⟩ := of_decide_eq_true ((Option.all_eq_true ..).mp hlow sc' hb')
  have hrx : (msgOf 1 cpuReq 60000000 0).rsrcAmnt.toNat = 60000000 := rfl
  rcases hwake with ⟨hsame, _⟩ | ⟨e, hup, _⟩
  · exact hne hsame
  · omega

end Manager

/-! ## The mismatch path -/

namespace SubContainer

variable {sc : SubContainer} {env : Env} {req : Msg} {rx : UInt64} {cpu : Global.Cpu}

/-- The report differs from the record, as three others did before it. -/
def Adopts (sc : SubContainer) (rx : UInt64) : Prop :=
  sc.quotaMismatch rx = true ∧ sc.quotaMismatchCounter > 2

instance : Decidable (sc.Adopts rx) := inferInstanceAs (Decidable (_ ∧ _))

@[simp] theorem quotaMismatchCounter_stamped :
    (sc.stamped env req).quotaMismatchCounter = sc.quotaMismatchCounter := by
  unfold stamped syncSeqNum
  dsimp only
  split <;> rfl

theorem adopts_stamped : (sc.stamped env req).Adopts rx ↔ sc.Adopts rx := by
  unfold Adopts
  rw [quotaMismatch_stamped, quotaMismatchCounter_stamped]

theorem syncQuota_of_adopts (h : sc.Adopts rx) :
    sc.syncQuota rx cpu = .handled (sc.incrQuotaMismatchCounter.2.adoptQuota rx cpu).1
      (sc.incrQuotaMismatchCounter.2.adoptQuota rx cpu).2 := by
  obtain ⟨hmismatch, hseen⟩ := h
  unfold syncQuota
  rw [if_pos hmismatch]
  exact if_pos hseen

@[simp] theorem quota_adoptQuota : (sc.adoptQuota rx cpu).1.quota = rx := by
  unfold adoptQuota
  dsimp only
  split <;> rfl

theorem adoptQuota_of_lt (h : rx < sc.quota) :
    (sc.adoptQuota rx cpu).2 =
      (cpu.decrAllocRt (sc.quota - rx)).incrUnallocatedRt (sc.quota - rx) := by
  unfold adoptQuota
  rw [if_pos h]

theorem adoptQuota_of_ge (h : ¬ rx < sc.quota) :
    (sc.adoptQuota rx cpu).2 =
      (cpu.decrUnallocatedRt (rx - sc.quota)).incrAllocRt (rx - sc.quota) := by
  unfold adoptQuota
  rw [if_neg h]

end SubContainer

namespace Manager

open ElasticContainer

variable {m m' : Manager} {env : Env} {req : Msg} {sc sc₁ : SubContainer} {cpu₁ : Global.Cpu}

/-- The state right after the mismatch path, before the leak repair. -/
def resynced (m : Manager) (req : Msg) (sc : SubContainer) (cpu : Global.Cpu) : Manager :=
  { m with
    ec := ({ m.ec with cpu := cpu } : ElasticContainer).modifyBack req.containerId fun _ => sc }

/-- The rest of the report goes on from there. -/
theorem accepted_resynced :
    (m.resynced req sc cpu₁).accepted env req sc cpu₁ = m.accepted env req sc cpu₁ := by
  unfold accepted resynced ElasticContainer.modifyBack
  dsimp only
  cases h : m.ec.subcontainers.lookup req.containerId with
  | none =>
    dsimp only
    rw [h]
  | some q =>
    have hlook : (m.ec.subcontainers.insert req.containerId (q.modifyLast fun _ => sc)).lookup
        req.containerId = some (q.modifyLast fun _ => sc) := AList.lookup_insert _
    have hlast : (q.modifyLast fun _ => sc).modifyLast (fun _ => sc.sampled env req) =
        q.modifyLast fun _ => sc.sampled env req := by
      rcases List.eq_nil_or_concat q with rfl | ⟨l, sc', rfl⟩
      · rfl
      · simp only [List.concat_eq_append, List.modifyLast_concat]
    dsimp only
    rw [hlook]
    dsimp only
    rw [hlast, AList.insert_insert]

/-- The allocated total is the sum of the recorded quotas, and no CPU appears or disappears. -/
structure Conserves (m m' : Manager) : Prop where
  allocRt : m'.ec.cpu.allocRt.toNat = m'.ec.totalQuota
  balance : m'.ec.cpu.balance = m.ec.cpu.balance

/-- The counter that gives can give, and the one that takes can take, the difference between the
record and the report. -/
def Resyncable (m : Manager) (sc : SubContainer) (rx : UInt64) : Prop :=
  if rx < sc.quota then
    Draws m.ec.cpu.allocRt (sc.quota - rx) ∧
      m.ec.cpu.unallocatedRt.toNat + (sc.quota - rx).toNat < 2 ^ 64
  else
    Draws m.ec.cpu.unallocatedRt (rx - sc.quota) ∧
      m.ec.cpu.allocRt.toNat + (rx - sc.quota).toNat < 2 ^ 64

instance {rx : UInt64} : Decidable (m.Resyncable sc rx) := by
  unfold Resyncable
  infer_instance

/-- Conservation, as far as it depends on the counters the mismatch path has left. -/
theorem conserves_resynced : m.Conserves (m.resynced req sc₁ cpu₁) ↔
    cpu₁.allocRt.toNat = (m.resynced req sc₁ cpu₁).ec.totalQuota ∧
      cpu₁.balance = m.ec.cpu.balance := by
  have hcpu : (m.resynced req sc₁ cpu₁).ec.cpu = cpu₁ := cpu_modifyBack
  constructor
  · rintro ⟨halloc, hbalance⟩
    rw [hcpu] at halloc hbalance
    exact ⟨halloc, hbalance⟩
  · rintro ⟨halloc, hbalance⟩
    refine ⟨?_, ?_⟩
    · rw [hcpu]
      exact halloc
    · rw [hcpu]
      exact hbalance

/-- The recorded quotas change by the difference between the record and what is adopted. -/
theorem totalQuota_resynced (hb : m.ec.back? req.containerId = some sc) :
    (m.resynced req sc₁ cpu₁).ec.totalQuota + sc.quota.toNat =
      m.ec.totalQuota + sc₁.quota.toNat := by
  have hb' : ({ m.ec with cpu := cpu₁ } : ElasticContainer).back? req.containerId = some sc := hb
  exact sumOver_modifyBack hb'

/-- **Resynchronisation conserves CPU** exactly when the side that pays can pay: the allocated
total for a smaller report, the pool for a larger one. -/
theorem resync_conserves_iff (hsum : m.ec.cpu.allocRt.toNat = m.ec.totalQuota)
    (hb : m.ec.back? req.containerId = some sc) (hadopt : sc.Adopts req.rsrcAmnt)
    (hs : (sc.stamped env req).syncQuota req.rsrcAmnt m.ec.cpu = .handled sc₁ cpu₁) :
    m.Conserves (m.resynced req sc₁ cpu₁) ↔ m.Resyncable sc req.rsrcAmnt := by
  rw [SubContainer.syncQuota_of_adopts (SubContainer.adopts_stamped.mpr hadopt)] at hs
  obtain ⟨hsc₁, hcpu₁⟩ := Sync.handled.inj hs
  have hquota : sc₁.quota = req.rsrcAmnt := by
    rw [← hsc₁, SubContainer.quota_adoptQuota]
  have hkept : (sc.stamped env req).incrQuotaMismatchCounter.2.quota = sc.quota :=
    SubContainer.quota_stamped
  have htotal : (m.resynced req sc₁ cpu₁).ec.totalQuota + sc.quota.toNat =
      m.ec.cpu.allocRt.toNat + req.rsrcAmnt.toNat := by
    rw [hsum, ← hquota]
    exact totalQuota_resynced hb
  have hle : sc.quota.toNat ≤ m.ec.cpu.allocRt.toNat := by
    rw [hsum]
    exact le_sumOver (g := fun sc => sc.quota.toNat) hb
  rw [conserves_resynced]
  unfold Resyncable
  by_cases hlt : req.rsrcAmnt < sc.quota
  · -- the container has less than it should: the difference goes back to the pool
    have hd := UInt64.toNat_sub_of_le _ _ (UInt64.le_of_lt hlt)
    have hlt' := UInt64.lt_iff_toNat_lt.mp hlt
    rw [SubContainer.adoptQuota_of_lt (by rw [hkept]; exact hlt), hkept] at hcpu₁
    rw [if_pos hlt, ← Global.Cpu.returned_iff, hcpu₁]
    exact and_congr_left fun _ => by omega
  · have hge : sc.quota ≤ req.rsrcAmnt := UInt64.not_lt.mp hlt
    have hd := UInt64.toNat_sub_of_le _ _ hge
    have hge' := UInt64.le_iff_toNat_le.mp hge
    rw [SubContainer.adoptQuota_of_ge (by rw [hkept]; exact hlt), hkept] at hcpu₁
    rw [if_neg hlt, ← Global.Cpu.taken_iff, hcpu₁]
    exact and_congr_left fun _ => by omega

/-- A container that was admitted with `quota` has reported `rx` three times. -/
def stuckRun (quota rx : UInt64) : List Event :=
  [.appSpec ⟨1000, 100⟩, deliver 0 (msgOf 1 initReq quota 0), deliver 0 (msgOf 1 cpuReq rx 0),
    deliver 0 (msgOf 1 cpuReq rx 0), deliver 0 (msgOf 1 cpuReq rx 0)]

/-- What a concrete run has to provide for the report that is adopted. -/
def resyncTest (m : Manager) (rx : UInt64) (sc : SubContainer) : Bool :=
  m.ec.cpu.allocRt.toNat = m.ec.totalQuota ∧ sc.Adopts rx

/-- The record says 50 of 100 million, the container 60. -/
theorem resync_conserves_of_covered :
    ∃ (m : Manager) (sc sc₁ : SubContainer) (cpu₁ : Global.Cpu),
      gcm.Run (.new oneAgent) m ∧ sc.Adopts 60000000 ∧
      m.Conserves (m.resynced (msgOf 1 cpuReq 60000000 0) sc₁ cpu₁) := by
  have hreplay : ((gcm.replay (stuckRun 50000000 60000000) (.new oneAgent)).any fun m =>
      (m.ec.back? ⟨1, node⟩).any fun sc =>
        resyncTest m 60000000 sc && decide (m.Resyncable sc 60000000)) = true := by
    decide +kernel
  obtain ⟨m, hrun, hany⟩ := System.exists_run_of_replay hreplay
  obtain ⟨sc, hb, hsc⟩ := (Option.any_eq_true ..).mp hany
  obtain ⟨htest, hcan⟩ := (Bool.and_eq_true ..).mp hsc
  obtain ⟨hsum, hadopt⟩ := of_decide_eq_true htest
  have hadopt' : (sc.stamped creditWorld (msgOf 1 cpuReq 60000000 0)).Adopts 60000000 :=
    SubContainer.adopts_stamped.mpr hadopt
  have hb' : m.ec.back? (msgOf 1 cpuReq 60000000 0).containerId = some sc := hb
  exact ⟨m, sc, _, _, hrun, hadopt,
    (resync_conserves_iff hsum hb' hadopt (SubContainer.syncQuota_of_adopts hadopt')).mpr
      (of_decide_eq_true hcan)⟩

/-- The record says 90 of 100 million, the container 150. -/
theorem resync_mints :
    ¬ ∀ (m : Manager) (env : Env) (req : Msg) (sc sc₁ : SubContainer) (cpu₁ : Global.Cpu),
      gcm.Run (.new oneAgent) m → m.ec.cpu.allocRt.toNat = m.ec.totalQuota →
      m.ec.back? req.containerId = some sc → sc.Adopts req.rsrcAmnt →
      (sc.stamped env req).syncQuota req.rsrcAmnt m.ec.cpu = .handled sc₁ cpu₁ →
      m.Conserves (m.resynced req sc₁ cpu₁) := by
  intro hclaim
  have hreplay : ((gcm.replay (stuckRun 90000000 150000000) (.new oneAgent)).any fun m =>
      (m.ec.back? ⟨1, node⟩).any fun sc =>
        resyncTest m 150000000 sc &&
        decide ((SubContainer.adoptQuota
          (sc.stamped creditWorld (msgOf 1 cpuReq 150000000 0)).incrQuotaMismatchCounter.2
          150000000 m.ec.cpu).2.balance ≠ m.ec.cpu.balance)) = true := by
    decide +kernel
  obtain ⟨m, hrun, hany⟩ := System.exists_run_of_replay hreplay
  obtain ⟨sc, hb, hsc⟩ := (Option.any_eq_true ..).mp hany
  obtain ⟨htest, hne⟩ := (Bool.and_eq_true ..).mp hsc
  obtain ⟨hsum, hadopt⟩ := of_decide_eq_true htest
  have h := (hclaim m creditWorld (msgOf 1 cpuReq 150000000 0) sc _ _ hrun hsum hb hadopt
    (SubContainer.syncQuota_of_adopts (SubContainer.adopts_stamped.mpr hadopt))).balance
  rw [resynced, cpu_modifyBack] at h
  exact of_decide_eq_true hne h

end Manager

end EcGcm
