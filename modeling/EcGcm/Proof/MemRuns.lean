import EcGcm.Proof.MemBooks

/-!
# The memory books over whole runs

One `ReportAppSpec`, then any sequence of connections, pod specs, start-up threads, memory
requests, periodic passes and deletions, each run to completion.

A new container is admitted in three steps here (the connection, the pod spec that brings the
docker id, the start-up thread that reads its limit), and other steps may come between them; until
the last of them its recorded limit is zero. Nothing is asked of ids and sockets but that a request
comes over the socket of the container it names.
-/

set_option autoImplicit false

namespace EcGcm

open Word Handler

namespace Manager

open ElasticContainer

variable {m m' : Manager} {env : Env} {id : ContainerId} {sc : SubContainer} {slack : ℕ}
  {req : Msg} {clifd : Int}

/-! ## Steps that leave the books alone -/

theorem totalLimit_setDockerId {ec : ElasticContainer} {dockerId : String} :
    (ec.modifyBack id fun sc => sc.setDockerId dockerId).totalLimit = ec.totalLimit :=
  sumOver_modifyBack_of_eq fun _ => rfl

theorem memInv_setDockerId {dockerId : String} (h : m.ec.MemInv slack) :
    ({ m with ec := m.ec.modifyBack id fun sc => sc.setDockerId dockerId } : Manager).ec.MemInv
      slack :=
  h.of_eq mem_modifyBack totalLimit_setDockerId

theorem memInv_podSpec {pod : ExportPodSpec} (h : m.ec.MemInv slack) :
    wp (reportPodSpec pod) (fun _ m' => m'.ec.MemInv slack) (fun _ m' => m'.ec.MemInv slack) m := by
  refine wp_reportPodSpec h h (fun _ => h) fun scId m' hm => memInv_setDockerId ?_
  rw [hm]
  exact h

/-- A new instance has no limit yet. -/
theorem memInv_admission {ip : UInt32} (h : m.ec.MemInv slack) :
    wp (handleAddCgroupToEc env req ip clifd) (fun _ m' => m'.ec.MemInv slack)
      (fun _ m' => m'.ec.MemInv slack) m := by
  unfold handleAddCgroupToEc
  rw [wp_bind]
  refine wp_determineQuotaForNewPod_of fun r cpu => ?_
  simp only [wp_bind, modifyEc, wp_modify]
  set sc := SubContainer.new req.cgroupId ip clifd r.2 req.request env.now with hsc
  set ec := (({ m.ec with cpu := cpu } : ElasticContainer).insertSc sc).updateFairCpuShare with hec
  have hinv : ec.MemInv slack := by
    refine h.of_eq ?_ ?_
    · rw [hec, mem_updateFairCpuShare, mem_insertSc]
    · rw [hec, totalLimit, sumOver_updateFairCpuShare, sumOver_insertSc]
      rfl
  have hlink : wp (linkAgent sc.cId) (fun _ m' => m'.ec.MemInv slack)
      (fun _ m' => m'.ec.MemInv slack) { m with ec := ec } := by
    unfold linkAgent
    rw [wp_bind, wp_get]
    dsimp only
    cases m.agentsDb.lookup sc.cId.serverIp with
    | none => exact hinv
    | some agent =>
      have hadded : (ec.addToScAcMap sc.cId agent).MemInv slack := hinv.of_eq rfl rfl
      exact hadded.of_eq mem_modifyBack (sumOver_modifyBack_of_eq fun _ => rfl)
  refine wp_mono_ret hlink fun _ m₁ h₁ => ?_
  cases r.1 with
  | false => exact h₁
  | true =>
    have hframe : ∀ m₂, AgentFrame m₁ m₂ → m₂.ec.MemInv slack := by
      intro m₂ h₂
      refine h₁.of_eq h₂.mem ?_
      unfold totalLimit sumOver
      rw [h₂.subcontainers]
    rw [if_pos rfl, wp_bind]
    refine wp_backOf_of (fun sc' _ => ?_) fun _ => h₁
    rw [wp_bind]
    exact wp_setScQuotaSyscall (fun _ => h₁) (fun m₂ h₂ _ _ => hframe m₂ h₂)
      (fun m₂ _ h₂ _ _ => hframe m₂ h₂)

/-! ## A deletion refunds the limit of the instance it removes -/

theorem memInv_deletePod {dockerId : String} (h : m.ec.MemInv slack) :
    wp (Manager.deletePod dockerId) (fun _ m' => m'.ec.MemInv slack) (fun _ _ => True) m := by
  refine wp_deletePod h (fun _ => trivial) (fun _ _ _ _ _ _ _ => trivial)
    fun id front rest _ _ hq => ?_
  have hq' : ({ m.ec with scAcMap := m.ec.scAcMap.erase id } :
      ElasticContainer).subcontainers.lookup id = some (front :: rest) := hq
  have hsum := sumOver_delete (g := fun sc => sc.memLimitInPages.toNat) hq'
  refine h.credit (d := front.memLimitInPages) ?_ ?_
  · show (Global.Mem.incrUnallocatedMemoryInPages _ _).decrAllocatedMemoryInPages _ = _
    rw [mem_updateFairCpuShare, mem_delete]
    rfl
  · unfold totalLimit
    refine Eq.trans ?_ hsum
    congr 1
    exact sumOver_updateFairCpuShare

/-! ## Passes and start-up -/

theorem memInv_periodicReclaim (h : m.ec.MemInv slack) (hq : m.ec.Queued)
    (husage : m.UsageOk env fun _ => false) :
    wp (Manager.periodicReclaim env) (fun _ m' => m'.ec.MemInv slack) (fun _ _ => True) m := by
  have hbal := h.balance
  have halloc := h.alloc
  have hpool := h.pool
  have hsmall := h.small
  unfold Manager.periodicReclaim
  rw [wp_bind, wp_get, wp_bind]
  refine wp_mono_ret (wp_reclaimFrom_limits hq husage (by omega)) fun freed t hpass => ?_
  have hlimits := hpass.limits
  rw [wp_ite]
  split
  · rw [wp_ecUpdateReclaimMemoryInPages]
    exact h.credit (by rw [← hpass.mem]) hlimits
  · rename_i hzero
    rw [gt_iff_lt, UInt64.lt_iff_toNat_lt] at hzero
    have hfreed : (0 : UInt64).toNat = 0 := rfl
    exact h.of_eq hpass.mem (by omega)

/-- The limit the start-up thread reads for a container with a docker id. -/
def newPodPages (m : Manager) (env : Env) (id : ContainerId) : UInt64 :=
  byteToPage (if m.ec.agent? id = none then 0 else (env.getContMemLimit id).getD 0)

/-- The pool has the pages at once, or has some, and has enough after a pass over the others. -/
def Fits (m : Manager) (env : Env) (clifd : Int) (pages : UInt64) : Prop :=
  (pages.toNat : Int) ≤ m.ec.mem.unallocatedMemoryInPages.toInt ∨
    (0 < m.ec.mem.unallocatedMemoryInPages.toInt ∧
      wp (handleReclaimMemory env clifd) (fun freed _ =>
        (pages.toNat : Int) ≤ m.ec.mem.unallocatedMemoryInPages.toInt + freed.toNat)
        (fun _ _ => True) m)

instance (m : Manager) (env : Env) (clifd : Int) (pages : UInt64) :
    Decidable (m.Fits env clifd pages) := inferInstanceAs (Decidable (_ ∨ (_ ∧ _)))

theorem le_pool_iff {g : Global.Mem} {pages : UInt64} (h : 0 ≤ g.unallocatedMemoryInPages.toInt) :
    pages ≤ g.unallocatedMemoryInPages.toUInt64 ↔
      (pages.toNat : Int) ≤ g.unallocatedMemoryInPages.toInt := by
  have hword := toUInt64_toNat h
  rw [UInt64.le_iff_toNat_le]
  omega

/-- `m'` is a state with balanced books in which the pool has just paid `pages`. -/
def Charged (slack : ℕ) (id : ContainerId) (sc : SubContainer) (pages : UInt64) (m' : Manager) :
    Prop :=
  ∃ t : Manager, t.ec.MemInv slack ∧ t.ec.back? id = some sc ∧
    (pages.toNat : Int) ≤ t.ec.mem.unallocatedMemoryInPages.toInt ∧
    m' = { t with ec := { t.ec with mem := charged pages t.ec.mem } }

theorem wp_chargeNewPod {pages : UInt64} (h : m.ec.MemInv slack) (hq : m.ec.Queued)
    (hb : m.ec.back? id = some sc) (hfd : sc.fd = clifd)
    (husage : m.UsageOk env fun sc => sc.fd = clifd) (hfits : m.Fits env clifd pages) :
    wp (chargeNewPod env id clifd pages) (fun _ => Charged slack id sc pages) (fun _ _ => True)
      m := by
  have hbal := h.balance
  have halloc := h.alloc
  have hpool := h.pool
  have hsmall := h.small
  unfold chargeNewPod
  rw [wp_bind, wp_get, wp_ite]
  split
  · rename_i hle
    rw [wp_ecUpdateAllocMemoryInPages]
    exact ⟨m, h, hb, (le_pool_iff hpool).mp hle, rfl⟩
  · rename_i hgt
    rw [le_pool_iff hpool] at hgt
    obtain ⟨hpos, hafter⟩ := hfits.resolve_left hgt
    rw [wp_ite, if_neg, wp_bind]
    · have hpass : wp (handleReclaimMemory env clifd) (PassInv m env fun sc => sc.fd = clifd)
          (fun _ _ => True) m :=
        wp_handleReclaimMemory (wp_reclaimFrom_limits hq husage (by omega))
      refine wp_mono_ret (wp_and hpass hafter) fun freed t ht => ?_
      obtain ⟨hpass, henough⟩ := ht
      have hlimits := hpass.limits
      rw [wp_bind, wp_ecUpdateReclaimMemoryInPages, wp_bind, wp_get]
      have hcredit :
          ({ t.ec with mem := credited freed t.ec.mem } : ElasticContainer).MemInv slack :=
        h.credit (by rw [← hpass.mem]) hlimits
      have hmoved := credited_moved (g := m.ec.mem) (d := freed) (by omega) (by omega)
      rw [← hpass.mem] at hmoved
      have hle : (pages.toNat : Int) ≤
          (credited freed t.ec.mem).unallocatedMemoryInPages.toInt := by
        rw [hmoved.pool, hpass.mem]
        exact henough
      have hle' := (le_pool_iff hcredit.pool).mpr hle
      dsimp only at hle' ⊢
      rw [if_pos hle', wp_ecUpdateAllocMemoryInPages]
      exact ⟨{ t with ec := { t.ec with mem := credited freed t.ec.mem } }, hcredit,
        hpass.kept _ _ hb (decide_eq_true hfd), hle, rfl⟩
    · intro hzero
      have hword := toUInt64_toNat hpool
      rw [hzero, UInt64.toNat_zero] at hword
      omega

/-- The reading of the limit: with an agent, nothing else happens. -/
theorem wp_scGetMemoryLimitInBytesCadvisor {dockerId : String} {Q : UInt64 → Manager → Prop}
    {E : Halt → Manager → Prop} (hdocker : dockerId ≠ "")
    (hnone : ∀ m', AgentFrame m m' → m.ec.agent? id = none → Q 0 m')
    (hlost : m.ec.agent? id ≠ none → env.getContMemLimit id = none → E .throw m)
    (hsome : ∀ limit, m.ec.agent? id ≠ none → env.getContMemLimit id = some limit → Q limit m) :
    wp (scGetMemoryLimitInBytesCadvisor env id dockerId) Q E m := by
  unfold scGetMemoryLimitInBytesCadvisor
  rw [wp_bind]
  cases hagent : m.ec.agent? id with
  | none =>
    refine wp_getCorresAgentClient fun m' hm => ?_
    rw [hagent]
    exact hnone m' hm hagent
  | some agent =>
    rw [wp_of_run (getCorresAgentClient_of_agent hagent)]
    dsimp only
    rw [wp_ite, if_neg hdocker]
    have hlinked : m.ec.agent? id ≠ none := by
      rw [hagent]
      exact Option.some_ne_none agent
    cases hlimit : env.getContMemLimit id with
    | none => exact hlost hlinked hlimit
    | some limit => exact hsome limit hlinked hlimit

/-- The start-up thread of a container whose limit has not been recorded yet and fits. -/
def StartsUp (m : Manager) (env : Env) (id : ContainerId) (clifd : Int) : Prop :=
  ∃ sc ∈ m.ec.back? id, sc.memLimitInPages = 0 ∧ sc.fd = clifd ∧
    (m.UsageOk env fun sc => sc.fd = clifd) ∧
    (sc.dockerId ≠ "" → m.Fits env clifd (m.newPodPages env id))

instance (m : Manager) (env : Env) (id : ContainerId) (clifd : Int) :
    Decidable (m.StartsUp env id clifd) :=
  inferInstanceAs (Decidable (∃ sc ∈ _, _ ∧ _ ∧ _ ∧ _))

/-- Once the pool has paid, the limit is recorded. -/
theorem Charged.record {pages : UInt64} (h : Charged slack id sc pages m)
    (hzero : sc.memLimitInPages = 0) :
    (m.ec.modifyBack id fun sc => sc.setMemLimitInPages pages).MemInv slack := by
  obtain ⟨t, hinv, hb, hle, rfl⟩ := h
  have hpages : pages.toNat + 0 = sc.memLimitInPages.toNat + pages.toNat := by
    rw [hzero, UInt64.toNat_zero]
    omega
  exact hinv.charge hb hle hpages

theorem memInv_memLimit (h : m.ec.MemInv slack) (hq : m.ec.Queued)
    (hstart : m.StartsUp env id clifd) :
    wp (determineMemLimitForNewPod env id clifd) (fun _ m' => m'.ec.MemInv slack) (fun _ _ => True)
      m := by
  obtain ⟨sc, hb, hzero, hfd, husage, hfits⟩ := hstart
  unfold determineMemLimitForNewPod
  rw [wp_bind, wp_backOf hb, wp_ite]
  split
  · trivial
  · rename_i hdocker
    rw [wp_bind, hq.cId_of_back hb]
    have hpages := hfits hdocker
    unfold newPodPages at hpages
    refine wp_scGetMemoryLimitInBytesCadvisor hdocker (fun m' hm hnone => ?_)
      (fun _ _ => trivial) (fun limit hsome hlimit => ?_)
    · -- no agent: nothing is read, and nothing has to be paid
      have hframe : PassInv m env (fun sc => sc.fd = clifd) 0 m :=
        ⟨hq, rfl, Nat.add_zero _, husage, fun _ _ hb _ => hb⟩
      have hframe' := hframe.of_frame hm
      have hinv : m'.ec.MemInv slack := h.of_eq hframe'.mem hframe'.limits
      have hfits' : m'.Fits env clifd (byteToPage 0) := .inl hinv.pool
      rw [wp_bind]
      exact wp_mono_ret (wp_chargeNewPod hinv hframe'.queued ((hm.back? id).trans hb) hfd
        hframe'.usage hfits') fun _ t ht => ht.record hzero
    · rw [if_neg hsome, hlimit] at hpages
      rw [wp_bind]
      exact wp_mono_ret (wp_chargeNewPod h hq hb hfd husage hpages) fun _ t ht => ht.record hzero

/-- A request over the socket of its container that carries the recorded limit. -/
def HonestRequest (m : Manager) (env : Env) (req : Msg) (clifd : Int) : Prop :=
  ∃ sc ∈ m.ec.back? req.containerId, sc.fd = clifd ∧ req.rsrcAmnt = sc.memLimitInPages ∧
    m.UsageOk env fun sc => sc.fd = clifd

instance (m : Manager) (env : Env) (req : Msg) (clifd : Int) :
    Decidable (m.HonestRequest env req clifd) :=
  inferInstanceAs (Decidable (∃ sc ∈ _, _ ∧ _ ∧ _))

/-- **An honest request leaves the books as they were**, and grants between a page and a slice. -/
theorem HonestRequest.handle (hreq : m.HonestRequest env req clifd) (h : m.ec.MemInv slack)
    (hq : m.ec.Queued) (ht : req.reqType = memReq) :
    wp (handleMemReq env req clifd) (fun r m' => MemReply req r ∧ m'.ec.MemInv slack)
      (fun _ _ => True) m := by
  obtain ⟨sc, hb, hfd, hamount, husage⟩ := hreq
  have hrequests : m.Requests req clifd sc 0 := by
    refine ⟨hb, hfd, ?_⟩
    rw [hamount]
    rfl
  refine wp_mono_ret (wp_handleMemReq_books h hq ht hrequests husage) fun r m' hr => ?_
  obtain ⟨hreply, s, hs, hinv⟩ := hr
  obtain rfl : s = 0 := by omega
  exact ⟨hreply, hinv⟩

end Manager

open Manager

/-! ## Runs -/

/-- The events of a run, and what is asked of requests, start-up threads and passes. Whatever moves
pages comes to its end; a pod spec may be waiting for its container. -/
def MemEvent (m : Manager) : Event → Prop
  | .podSpec _ => True
  | .matchDockerId _ _ => True
  | .deletePod dockerId => m.Completes (.deletePod dockerId)
  | .message env req hostIp clifd =>
    req.reqType = initReq ∨ (req.reqType = memReq ∧ m.HonestRequest env req clifd ∧
      m.Completes (.message env req hostIp clifd))
  | .memLimit env id clifd => m.StartsUp env id clifd ∧ m.Completes (.memLimit env id clifd)
  | .periodicReclaim env => (m.UsageOk env fun _ => false) ∧ m.Completes (.periodicReclaim env)
  | _ => False

instance (m : Manager) : (e : Event) → Decidable (MemEvent m e)
  | .podSpec _ => .isTrue trivial
  | .matchDockerId _ _ => .isTrue trivial
  | .deletePod dockerId => inferInstanceAs (Decidable (m.Completes (.deletePod dockerId)))
  | .message env req hostIp clifd =>
    inferInstanceAs (Decidable (req.reqType = initReq ∨ (req.reqType = memReq ∧
      m.HonestRequest env req clifd ∧ m.Completes (.message env req hostIp clifd))))
  | .memLimit env id clifd =>
    inferInstanceAs (Decidable (m.StartsUp env id clifd ∧ m.Completes (.memLimit env id clifd)))
  | .periodicReclaim env =>
    inferInstanceAs (Decidable ((m.UsageOk env fun _ => false) ∧
      m.Completes (.periodicReclaim env)))
  | .appSpec _ => .isFalse id
  | .idleSweep _ => .isFalse id

def memRuns : System Manager Event := gcm.only MemEvent

instance (m : Manager) (e : Event) : Decidable (memRuns.enabled m e) :=
  inferInstanceAs (Decidable (True ∧ MemEvent m e))

variable {m m' : Manager} {e : Event}

theorem memInv_next (h : m.ec.MemInv 0) (hq : m.ec.Queued) (he : MemEvent m e)
    (hnext : gcm.next e m = some m') : m'.ec.MemInv 0 := by
  have hinv : ∀ {x : M PUnit}, wp x (fun _ t => t.ec.MemInv 0) (fun _ t => t.ec.MemInv 0) m →
      (x.run m).resume = some m' → m'.ec.MemInv 0 :=
    fun hx => resume_of_wp (I := fun t : Manager => t.ec.MemInv 0) hx
  have hend : wp e.handle (fun _ t => t.ec.MemInv 0) (fun _ _ => True) m → m.Completes e →
      m'.ec.MemInv 0 := by
    intro hx hret
    obtain ⟨_, h'⟩ := resume_of_wp_result hx hret hnext
    exact h'
  cases e with
  | appSpec spec => exact he.elim
  | idleSweep env => exact he.elim
  | podSpec pod => exact hinv ((wp_bind ..).mpr (memInv_podSpec h)) hnext
  | matchDockerId scId dockerId => exact hinv (wp_matcher h (memInv_setDockerId h)) hnext
  | deletePod dockerId => exact hend ((wp_bind ..).mpr (memInv_deletePod h)) he
  | memLimit env id clifd => exact hend (wp_inThread.mpr (memInv_memLimit h hq he.1)) he.2
  | periodicReclaim env => exact hend (wp_inThread.mpr (memInv_periodicReclaim h hq he.1)) he.2
  | message env req hostIp clifd =>
    rcases he with ht | ⟨ht, hreq, hret⟩
    · refine hinv (wp_inThread.mpr ((wp_bind ..).mpr ?_)) hnext
      rw [handleReq_of_init ht]
      exact memInv_admission h
    · refine hend (wp_inThread.mpr ((wp_bind ..).mpr ?_)) hret
      rw [handleReq_of_mem ht]
      exact wp_mono_ret (hreq.handle h hq ht) fun _ _ hr => hr.2

/-- Fresh books are balanced; the limit of an application is a number of bytes, divided by the
page size. -/
theorem memInv_started (db : UnorderedMap Ip4Addr AgentClient) (spec : ExportAppSpec) :
    (Manager.started db spec).ec.MemInv 0 := by
  have hpages : (spec.memLimit * 1024 * 1024 / 4096).toNat < 2 ^ 52 := by
    have hpage : (4096 : UInt64).toNat = 4096 := rfl
    have hbytes := (spec.memLimit * 1024 * 1024).toNat_lt
    rw [UInt64.toNat_div, hpage]
    omega
  have hword := toInt_toInt64_of_lt (d := spec.memLimit * 1024 * 1024 / 4096) (by omega)
  unfold Manager.started
  generalize hp : spec.memLimit * 1024 * 1024 / 4096 = pages at *
  rw [run_reportAppSpec, hp]
  have hrun : ((Manager.new db).withAppLimits (spec.cpuLimit * 100000) pages).ec.mem =
      ((Global.Mem.new.setMemoryLimitInPages pages).setUnallocatedMemoryInPages
        pages.toInt64).setAllocatedMemoryInPages 0 := rfl
  have hsum : ((Manager.new db).withAppLimits (spec.cpuLimit * 100000) pages).ec.totalLimit = 0 :=
    rfl
  refine ⟨⟨?_, ?_, ?_⟩, ?_, ?_⟩
  all_goals dsimp only [Outcome.state]
  all_goals rw [hrun]
  · show pages.toInt64.toInt + (0 : Int64).toInt = pages.toNat
    rw [hword, Int64.toInt_zero]
    omega
  · rw [hsum]
    exact Int64.toInt_zero
  · show 0 ≤ pages.toInt64.toInt
    omega
  · exact hpages
  · rfl

theorem memInv_of_run {db : UnorderedMap Ip4Addr AgentClient} {spec : ExportAppSpec}
    (hrun : memRuns.Run (Manager.started db spec) m) : m.ec.MemInv 0 ∧ m.ec.Queued := by
  refine System.invariant (I := fun m => m.ec.MemInv 0 ∧ m.ec.Queued)
    ⟨memInv_started db spec, ?_⟩ ?_ hrun
  · intro id q hq
    cases hq
  · rintro e t t' ⟨ht, hq⟩ ⟨_, he⟩ hnext
    exact ⟨memInv_next ht hq he hnext, queued_next hq hnext⟩

/-- **The memory books balance over whole runs**, and every grant is between a page and a
slice. -/
theorem mem_books_of_run {db : UnorderedMap Ip4Addr AgentClient} {spec : ExportAppSpec}
    (hrun : memRuns.Run (Manager.started db spec) m) :
    m.ec.MemBooks 0 ∧ ∀ env req clifd r m', req.reqType = memReq → m.HonestRequest env req clifd →
      (handleMemReq env req clifd).run m = .ret r m' → MemReply req r := by
  obtain ⟨hinv, hq⟩ := memInv_of_run hrun
  refine ⟨hinv.toMemBooks, fun env req clifd r m' ht hreq hret => ?_⟩
  have hreply := hreq.handle hinv hq ht
  rw [wp_of_run hret] at hreply
  exact hreply.1

/-! ## A concrete run

Two containers share an application of 30208 pages. A request of the first one empties the pool;
the next one is served from a pass over the second. -/

def sharedApp : ExportAppSpec := ⟨1000, 118⟩

/-- Connection, pod spec and start-up thread of a container with a limit of `pages`. -/
def admission (cgroupId : UInt32) (dockerId : String) (clifd : Int) (pages : UInt64) : List Event :=
  [connect cgroupId clifd, .podSpec (specOf cgroupId dockerId),
   .memLimit (.uniform 0 0 0 0 (pages * 4096)) ⟨cgroupId, node⟩ clifd]

def reclaimRun : List Event :=
  admission 1 "a" 8 10000 ++ admission 2 "b" 9 20000 ++
    [.message (.uniform 0 0 0 0 0) (msgOf 1 memReq 10000 0) node.addr 8,
     .message (.uniform 0 0 0 0 0) (msgOf 1 memReq 10208 0) node.addr 8]

/-- After the run 7200 pages have left the second container and 5000 of them are with the
first. -/
theorem mem_books_after_reclaim :
    ∃ m, memRuns.Run (Manager.started oneAgent sharedApp) m ∧ m.ec.MemBooks 0 ∧
      m.ec.mem.unallocatedMemoryInPages = 2200 := by
  have hreplay : ((memRuns.replay reclaimRun (Manager.started oneAgent sharedApp)).any fun m =>
      m.ec.mem.unallocatedMemoryInPages = 2200) = true := by
    decide +kernel
  obtain ⟨m, hrun, hpool⟩ := System.exists_run_of_replay hreplay
  exact ⟨m, hrun, (mem_books_of_run hrun).1, of_decide_eq_true hpool⟩

end EcGcm
