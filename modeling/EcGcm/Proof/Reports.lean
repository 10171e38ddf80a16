import EcGcm.Proof.Agents
import EcGcm.Proof.Resize

/-!
# What handling a report can do

`handle_cpu_usage_report`, taken apart once. A report about a registered container is either
dropped, which touches that container only, or accepted: then the leak repair and the statistics
have run, the chain reads the counters, and at most one resize follows. The two rules below are
all that later proofs know about the handler.

Both the dropped and the accepted case name the state they lead to, so that a claim about the
branch a report takes can be stated before the handler has run (`Manager.chainReading`).
-/

set_option autoImplicit false

namespace EcGcm

/-- The container as the mismatch test sees it: the clock and the sequence number are noted. -/
def SubContainer.stamped (sc : SubContainer) (env : Env) (req : Msg) : SubContainer :=
  (sc.updateLastSeenTs env.now).syncSeqNum req.cpustatSeqNum

/-- The container once the report's samples are in its windows. -/
def SubContainer.sampled (sc : SubContainer) (env : Env) (req : Msg) : SubContainer :=
  (sc.insertStats env.rounding req.runtimeRemaining req.request).2.2

namespace SubContainer

variable {sc sc' : SubContainer} {env : Env} {req : Msg} {rx : UInt64} {cpu cpu' : Global.Cpu}

@[simp] theorem quota_stamped : (sc.stamped env req).quota = sc.quota := by
  unfold stamped syncSeqNum
  dsimp only
  split <;> rfl

/-- Whether the reported quota is the recorded one does not depend on the time of the report. -/
@[simp] theorem quotaMismatch_stamped :
    (sc.stamped env req).quotaMismatch rx = sc.quotaMismatch rx := by
  unfold quotaMismatch
  rw [quota_stamped]

@[simp] theorem quota_sampled : (sc.sampled env req).quota = sc.quota := rfl

theorem syncQuota_of_agree (h : sc.quotaMismatch rx = false) :
    sc.syncQuota rx cpu = .handled sc cpu := by
  unfold syncQuota
  rw [h]
  rfl

/-- A report that agrees with the record is accepted as it is. -/
theorem syncQuota_stamped_of_agree (h : sc.quotaMismatch rx = false) :
    (sc.stamped env req).syncQuota rx cpu = .handled (sc.stamped env req) cpu :=
  syncQuota_of_agree (quotaMismatch_stamped.trans h)

theorem syncQuota_of_echo (h : req.rsrcAmnt = sc.quota) :
    (sc.stamped env req).syncQuota req.rsrcAmnt cpu = .handled (sc.stamped env req) cpu := by
  refine syncQuota_stamped_of_agree ?_
  simp only [quotaMismatch, h, ne_eq, not_true_eq_false, decide_false]

end SubContainer

namespace Manager

open Handler

/-- The state the chain starts in, once a report has been accepted with container `sc` and
counters `cpu`. -/
def accepted (m : Manager) (env : Env) (req : Msg) (sc : SubContainer) (cpu : Global.Cpu) :
    Manager :=
  { m with
    cpuleak := (fixRtLeak m.cpuleak cpu).1
    ec :=
      ({ m.ec with cpu := (fixRtLeak m.cpuleak cpu).2 } : ElasticContainer).modifyBack
        req.containerId fun _ => sc.sampled env req }

/-- What the chain reads there. `sc₀` is the container before the report, `sc` after the
mismatch test. -/
def chainReading (m : Manager) (env : Env) (req : Msg) (sc₀ sc : SubContainer)
    (cpu : Global.Cpu) : Reading :=
  let (rtMean, thrMean, _) := sc.insertStats env.rounding req.runtimeRemaining req.request
  Reading.of env.rounding (m.accepted env req sc cpu).ec req (sc₀.checkIfIdle env.now) rtMean
    thrMean

/-- The last statement of the handler. -/
def bumpSequenceNumber (m : Manager) : Manager :=
  { m with syscallSequenceNumber := m.syscallSequenceNumber + 1 }

variable {m : Manager} {env : Env} {req : Msg} {sc : SubContainer} {id : ContainerId}

theorem cpu_accepted {cpu : Global.Cpu} :
    (m.accepted env req sc cpu).ec.cpu = (fixRtLeak m.cpuleak cpu).2 :=
  ElasticContainer.cpu_modifyBack

/-- The rule for a report about a registered container. -/
theorem wp_handleCpuUsageReport {Q : AllocRet × Msg → Manager → Prop}
    {E : Halt → Manager → Prop} (ht : req.reqType = cpuReq)
    (hb : m.ec.back? req.containerId = some sc)
    (hdropped : ∀ sc', (sc.stamped env req).syncQuota req.rsrcAmnt m.ec.cpu = .dropped sc' →
      Q (.allocSuccess, { req with request := 1 })
        { m with ec := m.ec.modifyBack req.containerId fun _ => sc' })
    (hkept : ∀ sc₁ cpu₁,
      (sc.stamped env req).syncQuota req.rsrcAmnt m.ec.cpu = .handled sc₁ cpu₁ →
      (m.chainReading env req sc sc₁ cpu₁).resize = none →
      Q (.allocSuccess, { req with request := 1 }) (m.accepted env req sc₁ cpu₁).bumpSequenceNumber)
    (hresized : ∀ sc₁ cpu₁ rz,
      (sc.stamped env req).syncQuota req.rsrcAmnt m.ec.cpu = .handled sc₁ cpu₁ →
      (m.chainReading env req sc sc₁ cpu₁).resize = some rz →
      wp (applyResize env req.containerId (sc₁.sampled env req)
          m.syscallSequenceNumber.toUInt64.toUInt32 rz)
        (fun _ m' => Q (.allocSuccess, { req with request := 1 }) m'.bumpSequenceNumber) E
        (m.accepted env req sc₁ cpu₁)) :
    wp (handleCpuUsageReport env req) Q E m := by
  have hstamped : (sc.updateLastSeenTs env.now).syncSeqNum req.cpustatSeqNum =
      sc.stamped env req := rfl
  unfold handleCpuUsageReport
  rw [wp_ite, if_neg (by simp [ht]), wp_bind, wp_ecGetScForUpdate hb, wp_bind, wp_get]
  dsimp only
  rw [hstamped]
  cases hsync : (sc.stamped env req).syncQuota req.rsrcAmnt m.ec.cpu with
  | dropped sc' => exact hdropped sc' hsync
  | handled sc₁ cpu₁ =>
    -- everything up to the chain is a sequence of writes; it ends in `accepted`
    simp only [wp_bind, wp_modify, modifyCpu, Manager.modifyBack, modifyEc, wp_get]
    split
    · rename_i hrz
      exact hkept sc₁ cpu₁ hsync hrz
    · rename_i rz hrz
      simp only [wp_bind]
      exact hresized sc₁ cpu₁ rz hsync hrz

/-- A report about a container that is not there changes nothing. -/
theorem wp_handleCpuUsageReport_of_absent {Q : AllocRet × Msg → Manager → Prop}
    {E : Halt → Manager → Prop} (ht : req.reqType = cpuReq)
    (hb : m.ec.back? req.containerId = none) (hE : ∀ e, E e m) :
    wp (handleCpuUsageReport env req) Q E m := by
  unfold handleCpuUsageReport
  rw [wp_ite, if_neg (by simp [ht]), wp_bind]
  refine wp_ecGetScForUpdate_of (fun sc hsc => ?_) fun _ => hE
  rw [hb] at hsc
  cases hsc

/-- The rule for a resize: the push may block, end the process, fail or succeed; only in the last
case is anything but the agent side changed. -/
theorem wp_applyResize {Q : PUnit → Manager → Prop} {E : Halt → Manager → Prop}
    {seqNumber : UInt32} {rz : Resize}
    (hhang : sc.inserted = false → E .hang m)
    (hexit : ∀ m', AgentFrame m m' → sc.inserted = true → m.ec.agent? sc.cId = none → E .exit m')
    (hfailed : ∀ m' agent, AgentFrame m m' → sc.inserted = true →
      m.ec.agent? sc.cId = some agent → env.updateContainerQuota sc.cId ≠ 0 → Q ⟨⟩ m')
    (hpushed : ∀ m' agent, AgentFrame m m' → sc.inserted = true →
      m.ec.agent? sc.cId = some agent → env.updateContainerQuota sc.cId = 0 →
      Q ⟨⟩ { m' with ec :=
        { m'.ec.modifyBack id fun sc => sc.resized rz.newQuota with
          cpu := rz.transfer.apply m'.ec.cpu } }) :
    wp (applyResize env id sc seqNumber rz) Q E m := by
  unfold applyResize
  rw [wp_bind]
  refine wp_setScQuotaSyscall hhang hexit fun m' agent hm hins hagent => ?_
  rw [wp_ite]
  split
  · rename_i hne
    exact hfailed m' agent hm hins hagent hne
  · rename_i hzero
    have hcpu : (m'.ec.modifyBack id fun sc => sc.resized rz.newQuota).cpu = m'.ec.cpu :=
      ElasticContainer.cpu_modifyBack
    have h := hpushed m' agent hm hins hagent (not_not.mp hzero)
    rw [← hcpu] at h
    exact h

/-- The same rule when it does not matter why a push came to nothing. -/
theorem wp_applyResize_of {Q : PUnit → Manager → Prop} {E : Halt → Manager → Prop}
    {seqNumber : UInt32} {rz : Resize} (hhalt : ∀ e m', AgentFrame m m' → E e m')
    (hfailed : ∀ m', AgentFrame m m' → Q ⟨⟩ m')
    (hpushed : ∀ m', AgentFrame m m' →
      Q ⟨⟩ { m' with ec :=
        { m'.ec.modifyBack id fun sc => sc.resized rz.newQuota with
          cpu := rz.transfer.apply m'.ec.cpu } }) :
    wp (applyResize env id sc seqNumber rz) Q E m :=
  wp_applyResize (fun _ => hhalt _ _ (.refl m)) (fun m' hm _ _ => hhalt _ m' hm)
    (fun m' _ hm _ _ _ => hfailed m' hm) (fun m' _ hm _ _ _ => hpushed m' hm)

/-- A resize that is pushed successfully, with the request it leaves on the wire. -/
theorem wp_applyResize_of_agent {Q : PUnit → Manager → Prop} {E : Halt → Manager → Prop}
    {seqNumber : UInt32} {rz : Resize} {agent : AgentClient} (hins : sc.inserted = true)
    (hagent : m.ec.agent? sc.cId = some agent) (hzero : env.updateContainerQuota sc.cId = 0)
    (hpushed : Q ⟨⟩ { m with
      quotaRequests := m.quotaRequests ++
        [⟨agent, sc.cId.cgroupId, rz.newQuota, changeOf rz.newQuota sc.quota, seqNumber⟩]
      ec := { m.ec.modifyBack id fun sc => sc.resized rz.newQuota with
        cpu := rz.transfer.apply m.ec.cpu } }) :
    wp (applyResize env id sc seqNumber rz) Q E m := by
  have hcpu : (m.ec.modifyBack id fun sc => sc.resized rz.newQuota).cpu = m.ec.cpu :=
    ElasticContainer.cpu_modifyBack
  rw [← hcpu] at hpushed
  unfold applyResize
  rw [wp_bind, wp_of_run (setScQuotaSyscall_of_agent hins hagent), wp_ite,
    if_neg (not_not.mpr hzero)]
  exact hpushed

end Manager

end EcGcm
