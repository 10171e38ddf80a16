import EcGcm.Proof.Grants

/-!
# The leak repair

The counters may come to less than the application's total, and the handler makes up for it: every
accepted report adds the *current* shortfall to `cpuleak`, and once `cpuleak` has reached a
microsecond all of it goes to the pool. A shortfall of a microsecond or more is therefore repaired
at once and exactly. A smaller one is counted again at every report, and what is credited in the
end is the shortfall times the number of reports it took to reach the threshold.

A **ledger** follows a sequence of reports that resize nothing, with the number of reports that got
as far as the repair and the sum of what the repair added. A small shortfall is counted until it has
been overpaid; a large one is owed until it has been repaired (`LeakInv`).

The difference the handler forms is signed, so a shortfall from `2^63` on counts as negative. It is
then paid in parts, each below `2^63`, and what has to be shown is that no part leaves a remainder
small enough to be counted twice (`Backlog`).
-/

set_option autoImplicit false

namespace EcGcm

open Handler Word

/-- What is missing from the total. -/
def Global.Cpu.shortfall (c : Global.Cpu) : ℕ :=
  c.totalCpu.toNat - (c.allocRt.toNat + c.unallocatedRt.toNat)

/-- What one run of the repair adds to the pool. -/
def creditOf (cpuleak : Int64) (cpu : Global.Cpu) : ℕ :=
  if leakOf cpuleak cpu ≥ maxCpuLossInNs then (leakOf cpuleak cpu).toUInt64.toNat else 0

/-- The accumulator after one more report. -/
theorem leakOf_eq_bmod {cpuleak : Int64} {c : Global.Cpu}
    (hsum : c.allocRt.toNat + c.unallocatedRt.toNat ≤ c.totalCpu.toNat) :
    (leakOf cpuleak c).toInt = (cpuleak.toInt + c.shortfall).bmod (2 ^ 64) := by
  have hT := c.totalCpu.toNat_lt
  have hAU := add_toNat_of_lt (a := c.allocRt) (d := c.unallocatedRt) (by omega)
  have hamountT := amount_eq_bmod c.totalCpu
  have hamountS := amount_eq_bmod (c.allocRt + c.unallocatedRt)
  rw [hAU] at hamountS
  unfold amount at hamountT hamountS
  have hcast : (c.shortfall : Int) =
      c.totalCpu.toNat - ((c.allocRt.toNat + c.unallocatedRt.toNat : ℕ) : Int) := by
    unfold Global.Cpu.shortfall
    omega
  -- the words may be beyond the signed range; only their difference counts
  unfold leakOf
  rw [Int64.toInt_add, Int64.toInt_sub, hamountT, hamountS, Int.bmod_sub_bmod,
    Int.sub_bmod_bmod, ← hcast, Int.add_bmod_bmod]

/-- While the sum is in range, the shortfall is added as it is. -/
theorem leakOf_toInt {cpuleak : Int64} {c : Global.Cpu}
    (hsum : c.allocRt.toNat + c.unallocatedRt.toNat ≤ c.totalCpu.toNat)
    (h0 : 0 ≤ cpuleak.toInt) (hlt : cpuleak.toInt + c.shortfall < 2 ^ 63) :
    (leakOf cpuleak c).toInt = cpuleak.toInt + c.shortfall := by
  rw [leakOf_eq_bmod hsum]
  exact Int.bmod_eq_of_le (by omega) (by omega)

section Repair

variable {cpuleak : Int64} {c : Global.Cpu}

theorem threshold_iff : leakOf cpuleak c ≥ maxCpuLossInNs ↔ 1000 ≤ (leakOf cpuleak c).toInt := by
  rw [ge_iff_le, Int64.le_iff_toInt_le]
  rfl

/-- Below the threshold the counters stay as they are. -/
theorem fixRtLeak_of_lt (h : (leakOf cpuleak c).toInt < 1000) :
    fixRtLeak cpuleak c = (leakOf cpuleak c, c) ∧ creditOf cpuleak c = 0 := by
  have hnot : ¬ leakOf cpuleak c ≥ maxCpuLossInNs := by
    rw [threshold_iff]
    omega
  unfold fixRtLeak creditOf
  exact ⟨if_neg hnot, if_neg hnot⟩

/-- At the threshold everything that has been counted is credited. -/
theorem fixRtLeak_of_ge (h : 1000 ≤ (leakOf cpuleak c).toInt) :
    fixRtLeak cpuleak c = (0, c.incrUnallocatedRt (leakOf cpuleak c).toUInt64) ∧
      (creditOf cpuleak c : Int) = (leakOf cpuleak c).toInt := by
  have hge := threshold_iff.mpr h
  unfold fixRtLeak creditOf
  refine ⟨if_pos hge, ?_⟩
  rw [if_pos hge]
  exact toUInt64_toNat (by omega)

end Repair

namespace Manager

open ElasticContainer

variable {m m' : Manager} {env : Env} {req : Msg} {sc sc₁ : SubContainer} {cpu₁ : Global.Cpu}

/-! ## Reports that resize nothing -/

/-- A CPU report that leaves every quota alone: it does not override the record, and the chain
decides on nothing or the push does not get through. -/
def KeepsQuotas (m : Manager) (env : Env) (req : Msg) : Prop :=
  req.reqType = cpuReq ∧ ∀ sc ∈ m.ec.back? req.containerId,
    ¬ sc.Adopts req.rsrcAmnt ∧
    (sc.quotaMismatch req.rsrcAmnt = false →
      (m.chainReading env req sc (sc.stamped env req) m.ec.cpu).resize = none ∨
        ¬ m.PushSucceeds env sc)

instance : Decidable (m.KeepsQuotas env req) := inferInstanceAs (Decidable (_ ∧ _))

/-- The report agrees with the record, so the repair runs. -/
def Matches (m : Manager) (req : Msg) : Bool :=
  (m.ec.back? req.containerId).any fun sc => !sc.quotaMismatch req.rsrcAmnt

/-- The counters and the accumulator are as they were. -/
def Untouched (m m' : Manager) : Prop := m'.ec.cpu = m.ec.cpu ∧ m'.cpuleak = m.cpuleak

/-- The counters and the accumulator have been through the repair. -/
def Repaired (m m' : Manager) : Prop :=
  m'.ec.cpu = (fixRtLeak m.cpuleak m.ec.cpu).2 ∧ m'.cpuleak = (fixRtLeak m.cpuleak m.ec.cpu).1

theorem AgentFrame.cpuleak (h : AgentFrame m m') : m'.cpuleak = m.cpuleak := by
  obtain ⟨_, _, _, rfl⟩ := h
  rfl

/-- A report never writes the accumulator after the repair. -/
theorem cpuleak_of_handled (ht : req.reqType = cpuReq)
    (hb : m.ec.back? req.containerId = some sc)
    (hs : (sc.stamped env req).syncQuota req.rsrcAmnt m.ec.cpu = .handled sc₁ cpu₁) :
    ((handleCpuUsageReport env req).run m).state.cpuleak = (fixRtLeak m.cpuleak cpu₁).1 := by
  refine (wp_state_iff (I := fun m' : Manager => m'.cpuleak = (fixRtLeak m.cpuleak cpu₁).1)).mp ?_
  refine wp_handleCpuUsageReport ht hb (fun sc' hs' => ?_) (fun sc' cpu' hs' _ => ?_)
    (fun sc' cpu' rz hs' _ => ?_)
  · rw [hs] at hs'
    cases hs'
  · rw [hs] at hs'
    cases hs'
    rfl
  · rw [hs] at hs'
    cases hs'
    exact wp_applyResize_of (fun _ m' hm => hm.cpuleak) (fun m' hm => hm.cpuleak)
      (fun m' hm => hm.cpuleak)

theorem syncQuota_of_mismatch (hmismatch : sc.quotaMismatch req.rsrcAmnt = true)
    (hnot : ¬ sc.Adopts req.rsrcAmnt) {cpu : Global.Cpu} :
    ∃ sc', (sc.stamped env req).syncQuota req.rsrcAmnt cpu = .dropped sc' := by
  have hmismatch' : (sc.stamped env req).quotaMismatch req.rsrcAmnt = true := by
    rw [SubContainer.quotaMismatch_stamped]
    exact hmismatch
  have hseen : ¬ (sc.stamped env req).quotaMismatchCounter > 2 := by
    rw [SubContainer.quotaMismatchCounter_stamped]
    exact fun h => hnot ⟨hmismatch, h⟩
  unfold SubContainer.syncQuota
  rw [if_pos hmismatch']
  exact ⟨_, if_neg hseen⟩

/-- **What such a report does to the counters**: the repair if it agrees with the record, and
nothing if not. -/
theorem state_of_keepsQuotas (h : m.KeepsQuotas env req) :
    if m.Matches req then Repaired m ((handleCpuUsageReport env req).run m).state
    else Untouched m ((handleCpuUsageReport env req).run m).state := by
  obtain ⟨ht, hkeeps⟩ := h
  unfold Matches
  cases hb : m.ec.back? req.containerId with
  | none =>
    -- a report about nobody is over before the repair
    refine (wp_state_iff (I := Untouched m)).mp ?_
    exact wp_handleCpuUsageReport_of_absent ht hb fun _ => ⟨rfl, rfl⟩
  | some sc =>
    obtain ⟨hnot, hresize⟩ := hkeeps sc hb
    rw [Option.any_some]
    cases hmismatch : sc.quotaMismatch req.rsrcAmnt with
    | false =>
      have hs : (sc.stamped env req).syncQuota req.rsrcAmnt m.ec.cpu =
          .handled (sc.stamped env req) m.ec.cpu :=
        SubContainer.syncQuota_stamped_of_agree hmismatch
      refine ⟨?_, cpuleak_of_handled ht hb hs⟩
      rw [(leaves_of_kept ht hb hs (hresize hmismatch)).cpu_eq, cpu_accepted]
    | true =>
      -- and so is one that is dropped
      obtain ⟨sc', hdropped⟩ : ∃ sc',
          (sc.stamped env req).syncQuota req.rsrcAmnt m.ec.cpu = .dropped sc' :=
        syncQuota_of_mismatch hmismatch hnot
      refine (wp_state_iff (I := Untouched m)).mp ?_
      refine wp_handleCpuUsageReport ht hb (fun sc' _ => ⟨cpu_modifyBack, rfl⟩)
        (fun sc' cpu' hs' _ => ?_) (fun sc' cpu' rz hs' _ => ?_)
      · rw [hdropped] at hs'
        cases hs'
      · rw [hdropped] at hs'
        cases hs'

end Manager

/-! ## The ledger -/

/-- The manager, how many reports have reached the repair, and what it has added to the pool. -/
structure Ledger where
  manager : Manager
  repairs : ℕ
  credited : ℕ

namespace Ledger

open Manager

/-- A ledger that is opened now. -/
def opened (m : Manager) : Ledger := ⟨m, 0, 0⟩

/-- The entry of one report. -/
def enter (l : Ledger) (req : Msg) (m' : Manager) : Ledger :=
  if l.manager.Matches req then
    ⟨m', l.repairs + 1, l.credited + creditOf l.manager.cpuleak l.manager.ec.cpu⟩
  else { l with manager := m' }

/-- CPU reports that resize nothing, one after another. -/
def reports : System Ledger (Env × Msg) where
  enabled l e := l.manager.KeepsQuotas e.1 e.2
  next e l := ((handleCpuUsageReport e.1 e.2).run l.manager).resume.map (l.enter e.2)

instance (l : Ledger) (e : Env × Msg) : Decidable (reports.enabled l e) :=
  inferInstanceAs (Decidable (l.manager.KeepsQuotas e.1 e.2))

variable {m : Manager} {l l' : Ledger}

/-- The accumulator while `t` is owed and `t` is large: empty, or, for a `t` that counts as
negative, whatever keeps a payment from coming close to all of `t`. -/
structure Backlog (t : ℕ) (leak : Int) : Prop where
  empty : t < 2 ^ 63 → leak = 0
  apart : t < 2 ^ 63 + 1000 → (0 ≤ leak ∧ leak < 1000) ∨ leak < -2 ^ 63 + 2000

theorem Backlog.none (t : ℕ) : Backlog t 0 :=
  ⟨fun _ => rfl, fun _ => .inl ⟨le_rfl, by decide⟩⟩

/-- Below the threshold the next count is a backlog again. -/
theorem Backlog.count {t : ℕ} {leak : Int} (h : Backlog t leak) (hbig : 1000 ≤ t)
    (ht : t < 2 ^ 64) (hleak : -2 ^ 63 ≤ leak) (hlow : (leak + t).bmod (2 ^ 64) < 1000) :
    Backlog t ((leak + t).bmod (2 ^ 64)) := by
  obtain ⟨hempty, hapart⟩ := h
  rw [Int.bmod_def] at hlow ⊢
  constructor
  · intro hsmall
    have h0 := hempty hsmall
    omega
  · intro hnear
    -- the two ranges are half the words apart, and a count leads from one to the other
    rcases hapart hnear with ⟨h0, hlt⟩ | hneg
    · omega
    · omega

/-- A count is never more than is owed, and what it leaves is nothing or large again. -/
theorem Backlog.pay {t : ℕ} {leak : Int} (h : Backlog t leak) (hbig : 1000 ≤ t)
    (ht : t < 2 ^ 64) (hleak : -2 ^ 63 ≤ leak) :
    (leak + t).bmod (2 ^ 64) = t ∨ (leak + t).bmod (2 ^ 64) + 1000 ≤ t := by
  obtain ⟨hempty, hapart⟩ := h
  rw [Int.bmod_def]
  rcases Nat.lt_or_ge t (2 ^ 63) with hsmall | hwide
  · have h0 := hempty hsmall
    omega
  · rcases Nat.lt_or_ge t (2 ^ 63 + 1000) with hnear | hfar
    · rcases hapart hnear with ⟨h0, hlt⟩ | hneg
      · omega
      · omega
    · omega

/-- Where the ledger can be. `s` is the shortfall it was opened with. -/
inductive LeakInv (m : Manager) (s : ℕ) (l : Ledger) : Prop
  /-- Nothing has been credited; the accumulator has counted the shortfall once a report. -/
  | counting (hs : s < 1000) (hcpu : l.manager.ec.cpu = m.ec.cpu) (hcredited : l.credited = 0)
      (hleak : l.manager.cpuleak.toInt = l.repairs * s) (hlow : l.repairs * s < 1000)
  /-- More than the shortfall has been credited. -/
  | overpaid (hs : s < 1000) (hrepairs : 1000 ≤ l.repairs * s) (hcredited : s < l.credited)
  /-- A part of a large shortfall has been credited, and what is missing is large too. -/
  | owing (hsum : l.manager.ec.cpu.allocRt.toNat + l.manager.ec.cpu.unallocatedRt.toNat ≤
        l.manager.ec.cpu.totalCpu.toNat)
      (hbig : 1000 ≤ l.manager.ec.cpu.shortfall)
      (hcredited : l.credited + l.manager.ec.cpu.shortfall = s)
      (hleak : Backlog l.manager.ec.cpu.shortfall l.manager.cpuleak.toInt)
  /-- The shortfall has been credited, and nothing is missing. -/
  | repaired (hs : 1000 ≤ s) (hcredited : l.credited = s) (hleak : l.manager.cpuleak.toInt = 0)
      (hwhole : l.manager.ec.cpu.allocRt.toNat + l.manager.ec.cpu.unallocatedRt.toNat =
        l.manager.ec.cpu.totalCpu.toNat)

theorem LeakInv.of_untouched {s : ℕ} {m' : Manager} (h : LeakInv m s l)
    (hm : Untouched l.manager m') : LeakInv m s { l with manager := m' } := by
  obtain ⟨hcpu', hleak'⟩ := hm
  cases h with
  | counting hs hcpu hcredited hleak hlow =>
    exact .counting hs (hcpu'.trans hcpu) hcredited (by rw [hleak']; exact hleak) hlow
  | overpaid hs hrepairs hcredited => exact .overpaid hs hrepairs hcredited
  | owing hsum hbig hcredited hleak =>
    refine .owing ?_ ?_ ?_ ?_
    · rw [hcpu']
      exact hsum
    · rw [hcpu']
      exact hbig
    · rw [hcpu']
      exact hcredited
    · rw [hcpu', hleak']
      exact hleak
  | repaired hs hcredited hleak hwhole =>
    exact .repaired hs hcredited (by rw [hleak']; exact hleak) (by rw [hcpu']; exact hwhole)

/-- One more count of a small shortfall, below the threshold or at it. -/
theorem LeakInv.of_counting {s : ℕ} {m' : Manager}
    (hsum : m.ec.cpu.allocRt.toNat + m.ec.cpu.unallocatedRt.toNat ≤ m.ec.cpu.totalCpu.toNat)
    (hshort : m.ec.cpu.shortfall = s) (hs : s < 1000)
    (hcpu : l.manager.ec.cpu = m.ec.cpu) (hcredited : l.credited = 0)
    (hleak : l.manager.cpuleak.toInt = l.repairs * s) (hlow : l.repairs * s < 1000)
    (hm : Repaired l.manager m') :
    LeakInv m s
      ⟨m', l.repairs + 1, l.credited + creditOf l.manager.cpuleak l.manager.ec.cpu⟩ := by
  obtain ⟨hcpu', hleak'⟩ := hm
  rw [hcpu] at *
  have hnext : (l.repairs + 1) * s = l.repairs * s + s := Nat.succ_mul _ _
  have hcount : (leakOf l.manager.cpuleak m.ec.cpu).toInt = ((l.repairs + 1) * s : ℕ) := by
    rw [leakOf_toInt hsum (by rw [hleak]; positivity)
      (by rw [hleak, hshort]; push_cast at *; omega), hleak, hshort, hnext]
    push_cast
    rfl
  by_cases hge : 1000 ≤ (l.repairs + 1) * s
  · have hreached : 1000 ≤ (leakOf l.manager.cpuleak m.ec.cpu).toInt := by
      rw [hcount]
      exact_mod_cast hge
    obtain ⟨-, hcredit⟩ := fixRtLeak_of_ge hreached
    rw [hcount] at hcredit
    -- it has been counted several times over, and every count is credited
    refine .overpaid hs hge ?_
    show s < l.credited + creditOf l.manager.cpuleak m.ec.cpu
    omega
  · have hbelow : (leakOf l.manager.cpuleak m.ec.cpu).toInt < 1000 := by
      rw [hcount]
      exact_mod_cast Nat.lt_of_not_le hge
    obtain ⟨hfix, hcredit⟩ := fixRtLeak_of_lt hbelow
    refine .counting hs ?_ ?_ ?_ ?_
    · rw [hcpu', hfix]
    · show l.credited + creditOf l.manager.cpuleak m.ec.cpu = 0
      omega
    · rw [hleak', hfix]
      exact_mod_cast hcount
    · exact Nat.lt_of_not_le hge

/-- What the repair adds to the pool is no longer missing. -/
theorem shortfall_credited {cpuleak : Int64} {c : Global.Cpu}
    (hsum : c.allocRt.toNat + c.unallocatedRt.toNat ≤ c.totalCpu.toNat)
    (hge : 1000 ≤ (leakOf cpuleak c).toInt) (hle : creditOf cpuleak c ≤ c.shortfall) :
    (fixRtLeak cpuleak c).2.allocRt.toNat + (fixRtLeak cpuleak c).2.unallocatedRt.toNat ≤
        (fixRtLeak cpuleak c).2.totalCpu.toNat ∧
      creditOf cpuleak c + (fixRtLeak cpuleak c).2.shortfall = c.shortfall := by
  obtain ⟨hfix, hcredit⟩ := fixRtLeak_of_ge hge
  have hT := c.totalCpu.toNat_lt
  have hword := toUInt64_toNat (a := leakOf cpuleak c) (by omega)
  have hpool : (c.unallocatedRt + (leakOf cpuleak c).toUInt64).toNat =
      c.unallocatedRt.toNat + creditOf cpuleak c := by
    unfold Global.Cpu.shortfall at hle
    rw [add_toNat_of_lt (by omega)]
    omega
  rw [hfix]
  unfold Global.Cpu.shortfall at hle ⊢
  show c.allocRt.toNat + (c.unallocatedRt + (leakOf cpuleak c).toUInt64).toNat ≤
      c.totalCpu.toNat ∧
    creditOf cpuleak c + (c.totalCpu.toNat -
      (c.allocRt.toNat + (c.unallocatedRt + (leakOf cpuleak c).toUInt64).toNat)) =
      c.totalCpu.toNat - (c.allocRt.toNat + c.unallocatedRt.toNat)
  rw [hpool]
  omega

/-- A large shortfall is credited at once, or, from `2^63` on, in parts. -/
theorem LeakInv.of_owing {s : ℕ} {m' : Manager}
    (hsum : l.manager.ec.cpu.allocRt.toNat + l.manager.ec.cpu.unallocatedRt.toNat ≤
      l.manager.ec.cpu.totalCpu.toNat)
    (hbig : 1000 ≤ l.manager.ec.cpu.shortfall)
    (hcredited : l.credited + l.manager.ec.cpu.shortfall = s)
    (hleak : Backlog l.manager.ec.cpu.shortfall l.manager.cpuleak.toInt)
    (hm : Repaired l.manager m') :
    LeakInv m s
      ⟨m', l.repairs + 1, l.credited + creditOf l.manager.cpuleak l.manager.ec.cpu⟩ := by
  obtain ⟨hcpu', hleak'⟩ := hm
  have hcount : (leakOf l.manager.cpuleak l.manager.ec.cpu).toInt =
      (l.manager.cpuleak.toInt + l.manager.ec.cpu.shortfall).bmod (2 ^ 64) := leakOf_eq_bmod hsum
  have hlow := l.manager.cpuleak.le_toInt
  have hword : l.manager.ec.cpu.shortfall < 2 ^ 64 :=
    Nat.lt_of_le_of_lt (Nat.sub_le _ _) l.manager.ec.cpu.totalCpu.toNat_lt
  by_cases hge : 1000 ≤ (leakOf l.manager.cpuleak l.manager.ec.cpu).toInt
  · obtain ⟨hfix, hcredit⟩ := fixRtLeak_of_ge hge
    have hpay := hleak.pay hbig hword hlow
    rw [← hcount, ← hcredit] at hpay
    obtain ⟨hsum', hrest⟩ := shortfall_credited hsum hge (by omega)
    have hempty : m'.cpuleak.toInt = 0 := by
      rw [hleak', hfix]
      rfl
    rw [← hcpu'] at hsum' hrest
    rcases hpay with hall | hpart
    · refine .repaired (by omega) ?_ hempty ?_
      · show l.credited + creditOf l.manager.cpuleak l.manager.ec.cpu = s
        omega
      · show m'.ec.cpu.allocRt.toNat + m'.ec.cpu.unallocatedRt.toNat = m'.ec.cpu.totalCpu.toNat
        unfold Global.Cpu.shortfall at *
        omega
    · refine .owing hsum' ?_ ?_ ?_
      · show 1000 ≤ m'.ec.cpu.shortfall
        omega
      · show l.credited + creditOf l.manager.cpuleak l.manager.ec.cpu + m'.ec.cpu.shortfall = s
        omega
      · show Backlog m'.ec.cpu.shortfall m'.cpuleak.toInt
        rw [hempty]
        exact .none _
  · obtain ⟨hfix, hcredit⟩ := fixRtLeak_of_lt (Int.not_le.mp hge)
    have hsame : m'.ec.cpu = l.manager.ec.cpu := by rw [hcpu', hfix]
    refine .owing ?_ ?_ ?_ ?_
    · rw [hsame]
      exact hsum
    · rw [hsame]
      exact hbig
    · rw [hsame, hcredit]
      exact hcredited
    · rw [hsame, hleak', hfix, hcount]
      exact hleak.count hbig hword hlow (hcount ▸ Int.not_le.mp hge)

/-- Once nothing is missing, the repair adds nothing. -/
theorem LeakInv.of_repaired {s : ℕ} {m' : Manager} (hs : 1000 ≤ s) (hcredited : l.credited = s)
    (hleak : l.manager.cpuleak.toInt = 0)
    (hwhole : l.manager.ec.cpu.allocRt.toNat + l.manager.ec.cpu.unallocatedRt.toNat =
      l.manager.ec.cpu.totalCpu.toNat) (hm : Repaired l.manager m') :
    LeakInv m s
      ⟨m', l.repairs + 1, l.credited + creditOf l.manager.cpuleak l.manager.ec.cpu⟩ := by
  obtain ⟨hcpu', hleak'⟩ := hm
  have hnone : l.manager.ec.cpu.shortfall = 0 := by
    unfold Global.Cpu.shortfall
    omega
  have hcount := leakOf_toInt hwhole.le (by rw [hleak]) (by rw [hleak, hnone]; decide)
  rw [hleak, hnone] at hcount
  have hbelow : (leakOf l.manager.cpuleak l.manager.ec.cpu).toInt < 1000 := by
    rw [hcount]
    decide
  obtain ⟨hfix, hcredit⟩ := fixRtLeak_of_lt hbelow
  refine .repaired hs ?_ ?_ ?_
  · show l.credited + creditOf l.manager.cpuleak l.manager.ec.cpu = s
    rw [hcredit, hcredited]
    rfl
  · rw [hleak', hfix]
    exact hcount
  · rw [hcpu', hfix]
    exact hwhole

/-- The step lemma. -/
theorem LeakInv.next {s : ℕ} {e : Env × Msg}
    (hsum : m.ec.cpu.allocRt.toNat + m.ec.cpu.unallocatedRt.toNat ≤ m.ec.cpu.totalCpu.toNat)
    (hshort : m.ec.cpu.shortfall = s) (h : LeakInv m s l)
    (hen : reports.enabled l e) (hnext : reports.next e l = some l') : LeakInv m s l' := by
  obtain ⟨m', hresume, rfl⟩ := Option.map_eq_some_iff.mp hnext
  have hstate := Outcome.state_of_resume hresume
  have hstep := state_of_keepsQuotas hen
  rw [hstate] at hstep
  unfold enter
  split at hstep
  · rename_i hmatch
    rw [if_pos hmatch]
    cases h with
    | counting hs hcpu hcredited hleak hlow =>
      exact .of_counting hsum hshort hs hcpu hcredited hleak hlow hstep
    | overpaid hs hrepairs hcredited =>
      -- nothing takes the excess back
      refine .overpaid hs ?_ (Nat.lt_of_lt_of_le hcredited (Nat.le_add_right _ _))
      exact hrepairs.trans (Nat.mul_le_mul_right _ (Nat.le_succ _))
    | owing hsum' hbig hcredited hleak => exact .of_owing hsum' hbig hcredited hleak hstep
    | repaired hs hcredited hleak hwhole => exact .of_repaired hs hcredited hleak hwhole hstep
  · rename_i hmatch
    rw [if_neg hmatch]
    exact h.of_untouched hstep

/-- The repair has credited no more than was missing, and the counters do not exceed the total. -/
structure PaidUp (m : Manager) (l : Ledger) : Prop where
  credited : l.credited ≤ m.ec.cpu.shortfall
  within : l.manager.ec.cpu.allocRt.toNat + l.manager.ec.cpu.unallocatedRt.toNat ≤
    l.manager.ec.cpu.totalCpu.toNat

/-- Nothing was missing, or a microsecond or more, or too few reports have come to count up to
one. -/
def Tolerable (s repairs : ℕ) : Prop := s = 0 ∨ 1000 ≤ s ∨ repairs * s < 1000

instance {s repairs : ℕ} : Decidable (Tolerable s repairs) :=
  inferInstanceAs (Decidable (_ ∨ _ ∨ _))

theorem LeakInv.paidUp_iff {s : ℕ}
    (hsum : m.ec.cpu.allocRt.toNat + m.ec.cpu.unallocatedRt.toNat ≤ m.ec.cpu.totalCpu.toNat)
    (hshort : m.ec.cpu.shortfall = s) (h : LeakInv m s l) :
    PaidUp m l ↔ Tolerable s l.repairs := by
  cases h with
  | counting hs hcpu hcredited hleak hlow =>
    refine ⟨fun _ => .inr (.inr hlow), fun _ => ⟨by omega, ?_⟩⟩
    rw [hcpu]
    exact hsum
  | overpaid hlt hrepairs hcredited =>
    constructor
    · intro hpaid
      have := hpaid.credited
      omega
    · rintro (h0 | hge | hlow)
      · rw [h0, Nat.mul_zero] at hrepairs
        omega
      · omega
      · omega
  | owing hsum' hbig hcredited hleak =>
    exact ⟨fun _ => .inr (.inl (by omega)), fun _ => ⟨by omega, hsum'⟩⟩
  | repaired hbig hcredited hleak hwhole =>
    exact ⟨fun _ => .inr (.inl hbig), fun _ => ⟨by omega, hwhole.le⟩⟩

/-- A ledger has been opened with a small shortfall or a large one. -/
theorem LeakInv.opened (hleak : m.cpuleak = 0)
    (hsum : m.ec.cpu.allocRt.toNat + m.ec.cpu.unallocatedRt.toNat ≤ m.ec.cpu.totalCpu.toNat) :
    LeakInv m m.ec.cpu.shortfall (opened m) := by
  have hempty : m.cpuleak.toInt = 0 := by
    rw [hleak]
    rfl
  rcases Nat.lt_or_ge m.ec.cpu.shortfall 1000 with hs | hbig
  · refine .counting hs rfl rfl ?_ ?_
    · show m.cpuleak.toInt = ((0 : ℕ) : Int) * m.ec.cpu.shortfall
      rw [hempty, Nat.cast_zero, Int.zero_mul]
    · show 0 * m.ec.cpu.shortfall < 1000
      omega
  · refine .owing hsum hbig (Nat.zero_add _) ?_
    show Backlog m.ec.cpu.shortfall m.cpuleak.toInt
    rw [hempty]
    exact .none _

/-- **The repair never credits more than leaked** exactly when the leak is nothing, or at least a
microsecond, or has been counted fewer times than it takes to reach a microsecond. -/
theorem leak_repair_iff (hleak : m.cpuleak = 0)
    (hsum : m.ec.cpu.allocRt.toNat + m.ec.cpu.unallocatedRt.toNat ≤ m.ec.cpu.totalCpu.toNat)
    (hrun : reports.Run (opened m) l) :
    PaidUp m l ↔ Tolerable m.ec.cpu.shortfall l.repairs := by
  have hinv : LeakInv m m.ec.cpu.shortfall l :=
    System.invariant (.opened hleak hsum)
      (fun e t t' ht hen hnext => ht.next hsum rfl hen hnext) hrun
  exact hinv.paidUp_iff hsum rfl

/-- A container has 60 of 100 million, and `missing` of the rest has been lost. -/
def leaky (missing : UInt64) : Manager :=
  let m := (gcm.replay [.appSpec ⟨1000, 100⟩, deliver 0 (msgOf 1 initReq 60000000 0)]
    (.new oneAgent)).getD (.new oneAgent)
  { m with ec := { m.ec with cpu := m.ec.cpu.setUnallocatedRt (40000000 - missing) } }

/-- The container reports the quota it has. -/
def steadyReport : Env × Msg := (creditWorld, msgOf 1 cpuReq 60000000 0)

/-- 1,200 nanoseconds are missing. The first of three reports brings them back, and the others
find nothing to repair. -/
theorem leak_repair_of_large_leak :
    ∃ l, reports.Run (opened (leaky 1200)) l ∧ l.repairs = 3 ∧ l.credited = 1200 ∧
      PaidUp (leaky 1200) l := by
  have hreplay : ((reports.replay [steadyReport, steadyReport, steadyReport]
      (opened (leaky 1200))).any fun l => decide (l.repairs = 3 ∧ l.credited = 1200)) = true := by
    decide +kernel
  obtain ⟨l, hrun, htest⟩ := System.exists_run_of_replay hreplay
  obtain ⟨hrepairs, hcredited⟩ := of_decide_eq_true htest
  refine ⟨l, hrun, hrepairs, hcredited, ?_⟩
  exact (leak_repair_iff (by decide +kernel) (by decide +kernel) hrun).mpr
    (.inr (.inl (by decide +kernel)))

/-- 600 nanoseconds are missing, and two reports credit 1,200. -/
theorem leak_repair_overpays :
    ¬ ∀ (m : Manager) (l : Ledger), m.ec.cpu.overrun = 0 → m.cpuleak = 0 →
      m.ec.cpu.allocRt.toNat + m.ec.cpu.unallocatedRt.toNat ≤ m.ec.cpu.totalCpu.toNat →
      reports.Run (opened m) l → PaidUp m l := by
  intro hclaim
  have hreplay : ((reports.replay [steadyReport, steadyReport] (opened (leaky 600))).any fun l =>
      decide ((leaky 600).ec.cpu.shortfall < l.credited ∧
        l.manager.ec.cpu.totalCpu.toNat <
          l.manager.ec.cpu.allocRt.toNat + l.manager.ec.cpu.unallocatedRt.toNat)) = true := by
    decide +kernel
  obtain ⟨l, hrun, htest⟩ := System.exists_run_of_replay hreplay
  obtain ⟨hover, _⟩ := of_decide_eq_true htest
  have hpaid := hclaim (leaky 600) l (by decide +kernel) (by decide +kernel) (by decide +kernel)
    hrun
  exact absurd hpaid.credited (Nat.not_le.mpr hover)

end Ledger

end EcGcm
