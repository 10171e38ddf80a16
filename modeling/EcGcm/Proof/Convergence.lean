import EcGcm.Proof.Grants

/-!
# The fair-share controller converges

Two branches steer a quota towards the fair share: overrun recovery from above, the top-up from
below. Both take a truncated part of the distance, capped by a pool that other containers change
between two reports, and both jump once they are near. That the truncated part is never zero is
where the two bounds on the share come in. From above, a step of less than half a slice is replaced
by the whole distance. From below, more than half a slice is missing, and the square of that is at
least the share.

Nothing is assumed about the pool and the overrun between reports: the states a sequence of
reports arrives in are unrelated, except that each still has the quota the last one recorded.
-/

set_option autoImplicit false

namespace EcGcm

open Handler Word

/-- `q'` lies between `q` and the target, and is not `q`. -/
def Approaches (target q q' : ℕ) : Prop :=
  (q < q' ∧ q' ≤ target) ∨ (target ≤ q' ∧ q' < q)

theorem Approaches.dist_lt {target q q' : ℕ} (h : Approaches target q q') :
    Nat.dist target q' < Nat.dist target q := by
  unfold Nat.dist
  rcases h with ⟨hlt, hle⟩ | ⟨hle, hlt⟩ <;> omega

/-- What comes closer at every step until it is there is there after at most as many steps as the
distance was. -/
theorem exists_reached {target : ℕ} {q : ℕ → ℕ} {n : ℕ}
    (hstep : ∀ i < n, q i ≠ target → Approaches target (q i) (q (i + 1)))
    (hn : Nat.dist target (q 0) ≤ n) : ∃ i ≤ n, q i = target := by
  induction n generalizing q with
  | zero => exact ⟨0, le_rfl, (Nat.eq_of_dist_eq_zero (Nat.le_zero.mp hn)).symm⟩
  | succ n ih =>
    by_cases h0 : q 0 = target
    · exact ⟨0, Nat.zero_le _, h0⟩
    · -- one step is spent, and the distance is one less
      have hlt := (hstep 0 n.succ_pos h0).dist_lt
      have hrest : ∀ i < n, q (i + 1) ≠ target → Approaches target (q (i + 1)) (q (i + 1 + 1)) := by
        intro i hi hne
        exact hstep (i + 1) (by omega) hne
      obtain ⟨i, hi, hq⟩ := ih (q := fun i => q (i + 1)) hrest (by omega)
      exact ⟨i + 1, by omega, hq⟩

namespace Reading

variable {r : Reading} {rz : Resize}

/-! ## One step -/

theorem recoverOverrun_approaches (hR : r.rounding = .exact) (hslice : r.slice = 30000000)
    (hS : r.slice ≤ r.fairCpuShare) (hO : 0 < r.overrun) (hF : r.fairCpuShare < r.rxQuota)
    (h : r.recoverOverrun = some rz) :
    Approaches r.fairCpuShare.toNat r.rxQuota.toNat rz.newQuota.toNat := by
  have hlt := UInt64.lt_iff_toNat_lt.mp hF
  -- what is shed is more than nothing, and at most the excess over the share
  have hpos := toSub_pos hslice hO hF
  have hle := toSub_le_of_recoverable hR hslice hF (.inl hS)
  simp only [recoverOverrun, Option.some.injEq] at h
  subst h
  have hq : (r.rxQuota - r.toSub).toNat = r.rxQuota.toNat - r.toSub.toNat :=
    UInt64.toNat_sub_of_le _ _ (UInt64.le_iff_toNat_le.mpr (by omega))
  refine .inr ⟨?_, ?_⟩
  · rw [hq]
    omega
  · rw [hq]
    omega

/-- The part of a large gap is not rounded to zero, in doubles either. -/
theorem underShare_pos (hslice : r.slice = 30000000) (hF : r.rxQuota < r.fairCpuShare)
    (hsquare : r.fairCpuShare.toNat ≤ 15000000 ^ 2)
    (hlarge : r.amntShareLacking > r.slice / 2) : 0 < r.underShare.toNat := by
  have hlt := UInt64.lt_iff_toNat_lt.mp hF
  have hlack : r.amntShareLacking.toNat = r.gap := amntShareLacking_toNat hF
  have hgap : 15000001 ≤ r.gap := by
    rw [← hlack]
    rw [hslice] at hlarge
    exact UInt64.lt_iff_toNat_lt.mp hlarge
  have hle : r.gap ≤ r.fairCpuShare.toNat := Nat.sub_le _ _
  have hFpos : (0 : ℚ) < r.fairCpuShare.toNat := by exact_mod_cast (by omega)
  have hFbound : (r.fairCpuShare.toNat : ℚ) ≤ 225000000000000 := by
    exact_mod_cast hsquare.trans (by norm_num)
  have hgapQ : (15000001 : ℚ) ≤ r.gap := by exact_mod_cast hgap
  -- below `2 ^ 53` the conversions and the difference are exact
  have hunder : r.percentUnder = r.rounding.div r.gap r.fairCpuShare.toNat := by
    have hsub : (r.fairCpuShare.toNat : ℚ) - r.rxQuota.toNat = r.gap := by
      unfold gap
      rw [Nat.cast_sub hlt.le]
    have hdiff : r.rounding.sub r.fairCpuShare.toNat r.rxQuota.toNat = r.gap := by
      unfold Rounding.sub
      rw [hsub]
      exact r.rounding.fl_natCast (by omega)
    unfold percentUnder
    rw [r.rounding.ofNat_eq (by omega), r.rounding.ofNat_eq (by omega), hdiff]
  have hone : (1 : ℚ) ≤ r.rounding.div r.gap r.fairCpuShare.toNat * r.gap := by
    have hdiv : (r.gap : ℚ) / r.fairCpuShare.toNat * (1 - 1 / 2 ^ 53) ≤
        r.rounding.div r.gap r.fairCpuShare.toNat :=
      r.rounding.mul_le_fl (div_nonneg (by linarith) hFpos.le)
    -- the square of the gap is divided by the share
    have hsquares : (15000001 : ℚ) * 15000001 ≤ r.gap * r.gap :=
      mul_le_mul hgapQ hgapQ (by norm_num) (by linarith)
    calc (1 : ℚ) ≤ r.gap * r.gap * (1 - 1 / 2 ^ 53) / r.fairCpuShare.toNat := by
          rw [le_div_iff₀ hFpos]
          linarith
      _ = r.gap / r.fairCpuShare.toNat * (1 - 1 / 2 ^ 53) * r.gap := by ring
      _ ≤ r.rounding.div r.gap r.fairCpuShare.toNat * r.gap :=
          mul_le_mul_of_nonneg_right hdiv (by linarith)
  have hpart : r.rounding.mul r.percentUnder (r.rounding.ofNat r.amntShareLacking.toNat) ≤
      r.rounding.ofNat r.amntShareLacking.toNat :=
    r.rounding.mul_le_right percentUnder_le_one (r.rounding.ofNat_nonneg _)
      (r.rounding.fl_ofNat _)
  rw [hlack, r.rounding.ofNat_eq (n := r.gap) (by omega)] at hpart
  have hgap64 : (r.gap : ℚ) < 2 ^ 64 := by exact_mod_cast (by omega)
  refine le_truncToUInt64 ?_ ?_
  · rw [hlack, r.rounding.ofNat_eq (n := r.gap) (by omega), hunder]
    push_cast
    exact r.rounding.le_fl r.rounding.fl_one hone
  · rw [hlack, r.rounding.ofNat_eq (n := r.gap) (by omega)]
    exact hpart.trans_lt hgap64

theorem toAdd_pos (hslice : r.slice = 30000000) (hF : r.rxQuota < r.fairCpuShare)
    (hsquare : r.fairCpuShare.toNat ≤ 15000000 ^ 2) (hU : 0 < r.unallocatedRt) :
    0 < r.toAdd.toNat := by
  have hlt := UInt64.lt_iff_toNat_lt.mp hF
  have hlack := amntShareLacking_toNat hF
  have hU' : 0 < r.unallocatedRt.toNat := UInt64.lt_iff_toNat_lt.mp hU
  unfold toAdd
  split
  · rename_i hlarge
    have := underShare_pos hslice hF hsquare hlarge
    rw [toNat_min]
    omega
  · omega

theorem toBorrow_pos (hslice : r.slice = 30000000) (hF : r.rxQuota < r.fairCpuShare)
    (hsquare : r.fairCpuShare.toNat ≤ 15000000 ^ 2) : 0 < r.toBorrow.toNat := by
  have hlt := UInt64.lt_iff_toNat_lt.mp hF
  have hlack := amntShareLacking_toNat hF
  unfold toBorrow
  split
  · rename_i hlarge
    exact underShare_pos hslice hF hsquare hlarge
  · omega

/-- Both rules of the top-up add something and stop at the share. -/
theorem topUpFairShare_approaches (hslice : r.slice = 30000000)
    (hF : r.rxQuota < r.fairCpuShare) (hsquare : r.fairCpuShare.toNat ≤ 15000000 ^ 2)
    (h : r.topUpFairShare = some rz) :
    Approaches r.fairCpuShare.toNat r.rxQuota.toNat rz.newQuota.toNat := by
  have hlt := UInt64.lt_iff_toNat_lt.mp hF
  have hbound := r.fairCpuShare.toNat_lt
  have hlack := amntShareLacking_toNat hF
  have hgap : r.rounding.ofNat r.amntShareLacking.toNat ≤ r.amntShareLacking.toNat :=
    (r.rounding.ofNat_eq (by omega)).le
  have hup : ∀ d : UInt64, 0 < d.toNat → d.toNat ≤ r.fairCpuShare.toNat - r.rxQuota.toNat →
      Approaches r.fairCpuShare.toNat r.rxQuota.toNat (r.rxQuota + d).toNat := by
    intro d hpos hle
    rw [add_toNat_of_lt (by omega)]
    exact .inl ⟨by omega, by omega⟩
  unfold topUpFairShare at h
  split at h
  · -- the pool has something, and what it caps is not capped to nothing
    rename_i hU
    cases h
    exact hup _ (toAdd_pos hslice hF hsquare hU) (toAdd_le hF hgap)
  · -- the pool is empty, and the amount is borrowed
    cases h
    exact hup _ (toBorrow_pos hslice hF hsquare) (toBorrow_le hF hgap)

/-- Each steering branch decides on a quota, and it is nearer to the share. -/
theorem exists_resize_approaches (hR : r.rounding = .exact) (hslice : r.slice = 30000000)
    (hS : r.slice ≤ r.fairCpuShare) (hsquare : r.fairCpuShare.toNat ≤ 15000000 ^ 2)
    (hbranch : r.branch = .overrun ∨ r.branch = .fairShare) :
    ∃ rz, r.resize = some rz ∧
      Approaches r.fairCpuShare.toNat r.rxQuota.toNat rz.newQuota.toNat := by
  rcases hbranch with hover | hfair
  · obtain ⟨hO, hF⟩ := branch_overrun_guard hover
    have hresize : r.resize = r.recoverOverrun := by unfold resize; rw [hover]
    exact ⟨_, hresize, recoverOverrun_approaches hR hslice hS hO hF rfl⟩
  · have hresize : r.resize = r.topUpFairShare := by unfold resize; rw [hfair]
    have hsome : ∃ rz, r.topUpFairShare = some rz := by
      unfold topUpFairShare
      split
      · exact ⟨_, rfl⟩
      · exact ⟨_, rfl⟩
    obtain ⟨rz, hrz⟩ := hsome
    exact ⟨rz, hresize.trans hrz,
      topUpFairShare_approaches hslice (branch_fairShare hfair) hsquare hrz⟩

end Reading

namespace Manager

open ElasticContainer

variable {m : Manager} {env : Env} {req : Msg} {sc : SubContainer} {id : ContainerId}
  {share : UInt64}

/-! ## One report -/

/-- A report about `id` that echoes the recorded quota, takes one of the two steering branches,
and whose push succeeds; percentages are exact. -/
structure Steers (id : ContainerId) (share : UInt64) (m : Manager) (env : Env) (req : Msg)
    (sc : SubContainer) : Prop where
  reqType : req.reqType = cpuReq
  container : req.containerId = id
  back : m.ec.back? id = some sc
  echo : req.rsrcAmnt = sc.quota
  slice : m.ec.cpu.sliceSize = 30000000
  fairShare : m.ec.fairCpuShare = share
  branch : (m.chainReading env req sc (sc.stamped env req) m.ec.cpu).branch = .overrun ∨
    (m.chainReading env req sc (sc.stamped env req) m.ec.cpu).branch = .fairShare
  pushes : m.PushSucceeds env sc
  rounding : env.rounding = .exact

/-- The quota recorded for the newest instance of `id`. -/
def recordedQuota (m : Manager) (id : ContainerId) : Option UInt64 :=
  (m.ec.back? id).map SubContainer.quota

theorem Leaves.recordedQuota {cpu : Global.Cpu} {q : UInt64} (h : m.Leaves id cpu q) :
    m.recordedQuota id = some q := by
  obtain ⟨_, sc', hb, hq⟩ := h
  unfold Manager.recordedQuota
  rw [hb, Option.map_some, hq]

/-- A steering report is handled to the end, and records a quota nearer to the share. -/
theorem Steers.approaches (h : Steers id share m env req sc) (hS : 30000000 ≤ share.toNat)
    (hsquare : share.toNat ≤ 15000000 ^ 2) :
    ((handleCpuUsageReport env req).run m).Returned ∧
    ∃ q, ((handleCpuUsageReport env req).run m).state.recordedQuota id = some q ∧
      Approaches share.toNat sc.quota.toNat q.toNat := by
  have hb : m.ec.back? req.containerId = some sc := by rw [h.container]; exact h.back
  have hs : (sc.stamped env req).syncQuota req.rsrcAmnt m.ec.cpu =
      .handled (sc.stamped env req) m.ec.cpu := SubContainer.syncQuota_of_echo h.echo
  obtain ⟨hslice, _, hshare, hrx⟩ := m.chainReading_fields env req sc (sc.stamped env req)
  rw [h.slice] at hslice
  rw [h.fairShare] at hshare
  rw [h.echo] at hrx
  obtain ⟨rz, hrz, happroach⟩ := Reading.exists_resize_approaches h.rounding hslice
    (by rw [hslice, hshare, UInt64.le_iff_toNat_le]; exact hS) (by rw [hshare]; exact hsquare)
    h.branch
  rw [hshare, hrx] at happroach
  obtain ⟨hins, hagent, hzero⟩ := h.pushes
  obtain ⟨agent, hagent⟩ := Option.isSome_iff_exists.mp hagent
  have hleaves := leaves_of_pushed h.reqType hb hs hrz h.pushes
  rw [h.container] at hleaves
  refine ⟨?_, rz.newQuota, hleaves.recordedQuota, happroach⟩
  obtain ⟨a, m', hrun, _⟩ :=
    wp_total.mp (wp_report_pushed h.reqType hb hins hagent hzero hs hrz)
  exact ⟨a, m', hrun⟩

/-! ## A sequence of reports -/

/-- **The controller converges.** A container is reported on `n` times, each time in a state of its
own, until it has the fair share. Every report brings it closer without crossing the share, and it
has the share after at most as many reports as it was nanoseconds away. -/
theorem fair_share_converges (hS : 30000000 ≤ share.toNat) (hsquare : share.toNat ≤ 15000000 ^ 2)
    {n : ℕ} {m : ℕ → Manager} {env : ℕ → Env} {req : ℕ → Msg} {sc : ℕ → SubContainer}
    (hreport : ∀ i < n, (sc i).quota ≠ share → Steers id share (m i) (env i) (req i) (sc i))
    (hrecord : ∀ i < n, (sc i).quota ≠ share →
      ((handleCpuUsageReport (env i) (req i)).run (m i)).state.recordedQuota id =
        some (sc (i + 1)).quota) :
    (∀ i < n, (sc i).quota ≠ share →
      ((handleCpuUsageReport (env i) (req i)).run (m i)).Returned ∧
      Approaches share.toNat (sc i).quota.toNat (sc (i + 1)).quota.toNat ∧
      Nat.dist share.toNat (sc (i + 1)).quota.toNat < Nat.dist share.toNat (sc i).quota.toNat) ∧
    (Nat.dist share.toNat (sc 0).quota.toNat ≤ n → ∃ i ≤ n, (sc i).quota = share) := by
  have hstep : ∀ i < n, (sc i).quota ≠ share →
      ((handleCpuUsageReport (env i) (req i)).run (m i)).Returned ∧
      Approaches share.toNat (sc i).quota.toNat (sc (i + 1)).quota.toNat := by
    intro i hi hne
    obtain ⟨hret, q, hq, happroach⟩ := (hreport i hi hne).approaches hS hsquare
    cases (hrecord i hi hne).symm.trans hq
    exact ⟨hret, happroach⟩
  refine ⟨fun i hi hne => ?_, fun hn => ?_⟩
  · obtain ⟨hret, happroach⟩ := hstep i hi hne
    exact ⟨hret, happroach, happroach.dist_lt⟩
  · have hnat : ∀ i < n, (sc i).quota.toNat ≠ share.toNat →
        Approaches share.toNat (sc i).quota.toNat (sc (i + 1)).quota.toNat := by
      intro i hi hne
      exact (hstep i hi fun heq => hne (congrArg UInt64.toNat heq)).2
    obtain ⟨i, hi, hq⟩ := exists_reached (q := fun i => (sc i).quota.toNat) hnat hn
    exact ⟨i, hi, UInt64.toNat_inj.mp hq⟩

/-! Two reports for a container below the fair share, and two for one above it. -/

/-- What a concrete run has to provide for a report that steers to `share`. -/
def steersTest (id : ContainerId) (share : UInt64) (branch : Branch) (m : Manager) (env : Env)
    (req : Msg) (sc : SubContainer) : Bool :=
  req.reqType = cpuReq ∧ req.containerId = id ∧ req.rsrcAmnt = sc.quota ∧
  m.ec.cpu.sliceSize = 30000000 ∧ m.ec.fairCpuShare = share ∧
  (m.chainReading env req sc (sc.stamped env req) m.ec.cpu).branch = branch ∧
  m.PushSucceeds env sc

theorem steers_of_test {branch : Branch} (hb : m.ec.back? id = some sc)
    (hbranch : branch = .overrun ∨ branch = .fairShare) (hexact : env.rounding = .exact)
    (h : steersTest id share branch m env req sc = true) : Steers id share m env req sc := by
  obtain ⟨ht, hid, hecho, hslice, hshare, hbr, hpush⟩ := of_decide_eq_true h
  exact ⟨ht, hid, hb, hecho, hslice, hshare, hbr ▸ hbranch, hpush, hexact⟩

/-- The state after a report. -/
def reported (env : Env) (req : Msg) (m : Manager) : Manager :=
  ((handleCpuUsageReport env req).run m).state

/-- Two reports in a row take `branch`, and the second one ends at `share`. -/
def steersTwice (id : ContainerId) (share : UInt64) (branch : Branch) (env : Env)
    (req₀ req₁ : Msg) (m : Manager) : Bool :=
  (m.ec.back? id).any fun sc₀ =>
    ((reported env req₀ m).ec.back? id).any fun sc₁ =>
      ((reported env req₁ (reported env req₀ m)).ec.back? id).any fun sc₂ =>
        steersTest id share branch m env req₀ sc₀ &&
        steersTest id share branch (reported env req₀ m) env req₁ sc₁ &&
        decide (sc₂.quota = share)

/-- A sequence that stays where it is after two steps. -/
def stages {α : Type} (a b c : α) : ℕ → α
  | 0 => a
  | 1 => b
  | _ => c

theorem exists_stages {branch : Branch} {req₀ req₁ : Msg}
    (h : steersTwice id share branch env req₀ req₁ m = true)
    (hbranch : branch = .overrun ∨ branch = .fairShare) (hexact : env.rounding = .exact) :
    ∃ sc₀ sc₁ sc₂ : SubContainer, sc₀.quota = req₀.rsrcAmnt ∧ sc₁.quota = req₁.rsrcAmnt ∧
      ∀ i, (stages sc₀ sc₁ sc₂ i).quota ≠ share →
        Steers id share (stages m (reported env req₀ m) m i) env (stages req₀ req₁ req₁ i)
          (stages sc₀ sc₁ sc₂ i) ∧
        (reported env (stages req₀ req₁ req₁ i) (stages m (reported env req₀ m) m i)).recordedQuota
          id = some (stages sc₀ sc₁ sc₂ (i + 1)).quota := by
  obtain ⟨sc₀, hb₀, h⟩ := (Option.any_eq_true ..).mp h
  obtain ⟨sc₁, hb₁, h⟩ := (Option.any_eq_true ..).mp h
  obtain ⟨sc₂, hb₂, h⟩ := (Option.any_eq_true ..).mp h
  obtain ⟨h, hend⟩ := (Bool.and_eq_true ..).mp h
  obtain ⟨h₀, h₁⟩ := (Bool.and_eq_true ..).mp h
  have hsteers₀ := steers_of_test hb₀ hbranch hexact h₀
  have hsteers₁ := steers_of_test hb₁ hbranch hexact h₁
  refine ⟨sc₀, sc₁, sc₂, hsteers₀.echo.symm, hsteers₁.echo.symm, fun i hne => ?_⟩
  match i, hne with
  | 0, _ => exact ⟨hsteers₀, congrArg (Option.map _) hb₁⟩
  | 1, _ => exact ⟨hsteers₁, congrArg (Option.map _) hb₂⟩
  | i + 2, hne => exact absurd (of_decide_eq_true hend) hne

/-- From 20 to 50 million, by a part of the gap and then the rest of it; from 150 to 100 million,
by a part of the excess and then the rest of it. -/
theorem fair_share_converges_of_two_reports :
    (∃ (m : Manager) (sc : ℕ → SubContainer), gcm.Run (.new oneAgent) m ∧
      (sc 0).quota = 20000000 ∧ (sc 1).quota = 38000000 ∧
      (∀ i < 30000000, (sc i).quota ≠ 50000000 →
        Approaches 50000000 (sc i).quota.toNat (sc (i + 1)).quota.toNat) ∧
      ∃ i ≤ 30000000, (sc i).quota = 50000000) ∧
    ∃ (m : Manager) (sc : ℕ → SubContainer), gcm.Run (.new oneAgent) m ∧
      (sc 0).quota = 150000000 ∧ (sc 1).quota = 125000000 ∧
      (∀ i < 50000000, (sc i).quota ≠ 100000000 →
        Approaches 100000000 (sc i).quota.toNat (sc (i + 1)).quota.toNat) ∧
      ∃ i ≤ 50000000, (sc i).quota = 100000000 := by
  constructor
  · have hreplay : ((gcm.replay
        [.appSpec ⟨1000, 100⟩, deliver 0 (msgOf 1 initReq 20000000 0),
          deliver 0 (msgOf 2 initReq 50000000 0)]
        (.new oneAgent)).any (steersTwice ⟨1, node⟩ 50000000 .fairShare creditWorld
          (msgOf 1 cpuReq 20000000 10) (msgOf 1 cpuReq 38000000 20))) = true := by
      decide +kernel
    obtain ⟨m, hrun, htwice⟩ := System.exists_run_of_replay hreplay
    obtain ⟨sc₀, sc₁, sc₂, h₀, h₁, hstages⟩ := exists_stages htwice (.inr rfl) rfl
    have hconverges := fair_share_converges (n := 30000000) (by decide) (by decide)
      (fun i _ hne => (hstages i hne).1) (fun i _ hne => (hstages i hne).2)
    refine ⟨m, stages sc₀ sc₁ sc₂, hrun, h₀, h₁, fun i hi hne => (hconverges.1 i hi hne).2.1,
      hconverges.2 ?_⟩
    show Nat.dist _ sc₀.quota.toNat ≤ _
    rw [h₀]
    decide
  · have hreplay : ((gcm.replay
        [.appSpec ⟨4000, 100⟩, deliver 0 (msgOf 1 initReq 150000000 0),
          deliver 0 (msgOf 2 initReq 250000000 0), deliver 0 (msgOf 3 initReq 1000 0),
          deliver 0 (msgOf 4 initReq 1000 0)]
        (.new oneAgent)).any (steersTwice ⟨1, node⟩ 100000000 .overrun creditWorld
          (msgOf 1 cpuReq 150000000 0) (msgOf 1 cpuReq 125000000 0))) = true := by
      decide +kernel
    obtain ⟨m, hrun, htwice⟩ := System.exists_run_of_replay hreplay
    obtain ⟨sc₀, sc₁, sc₂, h₀, h₁, hstages⟩ := exists_stages htwice (.inl rfl) rfl
    have hconverges := fair_share_converges (n := 50000000) (by decide) (by decide)
      (fun i _ hne => (hstages i hne).1) (fun i _ hne => (hstages i hne).2)
    refine ⟨m, stages sc₀ sc₁ sc₂, hrun, h₀, h₁, fun i hi hne => (hconverges.1 i hi hne).2.1,
      hconverges.2 ?_⟩
    show Nat.dist _ sc₀.quota.toNat ≤ _
    rw [h₀]
    decide

end Manager

end EcGcm
