import EcGcm.Proof.MemRuns

/-!
# Memory requests in flight

A request carries the limit its container had when it was sent, and `handle_mem_req` records that
amount and the grant as the new limit. What the container lost to a pass in the meantime comes back
to it that way without the pool having paid for it.

The parties are the containers, which send at any time, the wire, which delivers in any order, and
the manager, which handles one delivery at a time and runs its periodic passes in between: the next
one starts when the handler has returned. As long as every delivered request carries at most the
limit on record, the recorded limits stay within the allocated total; `limits_exceed_allocated` is
a run in which one request does not.
-/

set_option autoImplicit false

namespace EcGcm

open Word Handler Manager

/-- The manager and the requests that have been sent to it, each with the socket it comes over. -/
structure Wire where
  manager : Manager
  inFlight : List (Msg × Int)

namespace Wire

inductive Event
  | send (id : ContainerId)
  | deliver (env : Env) (i : ℕ)
  | reclaim (env : Env)

/-- What a container puts into a request: its limit. -/
def request (sc : SubContainer) : Msg where
  clientIp := sc.cId.serverIp
  cgroupId := sc.cId.cgroupId
  reqType := memReq
  rsrcAmnt := sc.memLimitInPages
  request := 1
  runtimeRemaining := 0
  cpustatSeqNum := 0

/-- Readings are whole pages within the limit, and resizes succeed. -/
def Honest (m : Manager) (env : Env) (keep : SubContainer → Bool) : Prop :=
  m.UsageOk env keep ∧ ∀ id ∈ m.ec.subcontainers.keys, env.resizeMemoryLimitPages id = some 0

instance (m : Manager) (env : Env) (keep : SubContainer → Bool) : Decidable (Honest m env keep) :=
  inferInstanceAs (Decidable (_ ∧ ∀ id ∈ _, _))

def enabled (s : Wire) : Event → Prop
  | .send id => (s.manager.ec.back? id).isSome
  | .deliver env i => ∃ p ∈ s.inFlight[i]?, Honest s.manager env fun sc => sc.fd = p.2
  | .reclaim env => Honest s.manager env fun _ => false

instance (s : Wire) : (e : Event) → Decidable (s.enabled e)
  | .send id => inferInstanceAs (Decidable ((s.manager.ec.back? id).isSome = true))
  | .deliver _ _ => inferInstanceAs (Decidable (∃ p ∈ _, _))
  | .reclaim env => inferInstanceAs (Decidable (Honest s.manager env fun _ => false))

def next : Event → Wire → Option Wire
  | .send id, s => (s.manager.ec.back? id).map fun sc =>
    { s with inFlight := s.inFlight ++ [(request sc, sc.fd)] }
  | .deliver env i, s => s.inFlight[i]?.bind fun p =>
    ((handleMemReq env p.1 p.2).run s.manager).finish.map fun m =>
      { manager := m, inFlight := s.inFlight.eraseIdx i }
  | .reclaim env, s => ((Manager.periodicReclaim env).run s.manager).finish.map fun m =>
    { s with manager := m }

/-- Containers, wire and manager. -/
def system : System Wire Event := ⟨enabled, next⟩

instance (s : Wire) (e : Event) : Decidable (system.enabled s e) :=
  inferInstanceAs (Decidable (s.enabled e))

/-- The delivered request carries no more than the limit on record. -/
def NotStale (s : Wire) : Event → Prop
  | .deliver _ i => ∀ p ∈ s.inFlight[i]?, ∀ sc ∈ s.manager.ec.back? p.1.containerId,
    p.1.rsrcAmnt ≤ sc.memLimitInPages
  | _ => True

instance (s : Wire) : (e : Event) → Decidable (s.NotStale e)
  | .send _ => .isTrue trivial
  | .deliver _ _ => inferInstanceAs (Decidable (∀ p ∈ _, ∀ sc ∈ _, _))
  | .reclaim _ => .isTrue trivial

instance (s : Wire) (e : Event) : Decidable ((system.only NotStale).enabled s e) :=
  inferInstanceAs (Decidable (s.enabled e ∧ s.NotStale e))

/-- The limits on record are covered by the allocated total, and with the pool by the
application's limit. -/
def Covered (m : Manager) : Prop :=
  (m.ec.totalLimit : Int) ≤ m.ec.mem.allocatedMemoryInPages.toInt ∧
    (m.ec.totalLimit : Int) + m.ec.mem.unallocatedMemoryInPages.toInt ≤
      m.ec.mem.memoryLimitInPages.toNat

instance (m : Manager) : Decidable (Covered m) := inferInstanceAs (Decidable (_ ∧ _))

/-! ## The invariant -/

/-- Every request in flight is a memory request of a registered container, on its socket. -/
def Addressed (m : Manager) (p : Msg × Int) : Prop :=
  p.1.reqType = memReq ∧ ∃ sc, m.ec.back? p.1.containerId = some sc ∧ sc.fd = p.2

structure Inv (s : Wire) : Prop where
  books : ∃ slack, s.manager.ec.MemInv slack
  queued : s.manager.ec.Queued
  addressed : ∀ p ∈ s.inFlight, Addressed s.manager p

variable {s s' : Wire} {m m' : Manager} {p : Msg × Int}

theorem Inv.covered (h : s.Inv) : Covered s.manager := by
  obtain ⟨slack, hinv⟩ := h.books
  have := hinv.balance
  have := hinv.alloc
  constructor <;> omega

/-- Handlers that change nobody's identity lose nobody's address. -/
theorem Addressed.of_quiet (h : Addressed m p) (hm : Quiet m m') : Addressed m' p := by
  obtain ⟨ht, sc, hb, hfd⟩ := h
  obtain ⟨sc', hb', hid⟩ := hm.back hb
  refine ⟨ht, sc', hb', ?_⟩
  have hsame : sc'.fd = sc.fd := congrArg (fun t => t.2.2.1) hid
  rw [hsame, hfd]

theorem Inv.send {id : ContainerId} {sc : SubContainer} (h : s.Inv)
    (hb : s.manager.ec.back? id = some sc) :
    Inv { s with inFlight := s.inFlight ++ [(request sc, sc.fd)] } := by
  refine ⟨h.books, h.queued, fun p hp => ?_⟩
  rcases List.mem_append.mp hp with hold | hnew
  · exact h.addressed p hold
  · obtain rfl := List.mem_singleton.mp hnew
    have hid : (request sc).containerId = id := h.queued.cId_of_back hb
    exact ⟨rfl, sc, by rw [hid]; exact hb, rfl⟩

/-- A delivery: the books lose what the request is short of the record. -/
theorem Inv.deliver {env : Env} {i : ℕ} (h : s.Inv) (hp : s.inFlight[i]? = some p)
    (husage : s.manager.UsageOk env fun sc => sc.fd = p.2)
    (hfresh : ∀ sc ∈ s.manager.ec.back? p.1.containerId, p.1.rsrcAmnt ≤ sc.memLimitInPages)
    (hnext : ((handleMemReq env p.1 p.2).run s.manager).finish = some m') :
    Inv { manager := m', inFlight := s.inFlight.eraseIdx i } := by
  obtain ⟨ht, sc, hb, hfd⟩ := h.addressed p (List.mem_of_getElem? hp)
  obtain ⟨slack, hinv⟩ := h.books
  have hle := UInt64.le_iff_toNat_le.mp (hfresh sc hb)
  have hreq : s.manager.Requests p.1 p.2 sc (sc.memLimitInPages.toNat - p.1.rsrcAmnt.toNat) :=
    ⟨hb, hfd, by omega⟩
  obtain ⟨_, _, extra, _, hinv'⟩ :=
    finish_of_wp (wp_handleMemReq_books hinv h.queued ht hreq husage) hnext
  have hbooks : ∃ slack', m'.ec.MemInv slack' := ⟨_, hinv'⟩
  have hquiet : Quiet s.manager m' := quiet_mem.handleMemReq.of_finish hnext
  refine ⟨hbooks, hquiet.queued h.queued, fun p' hp' => ?_⟩
  exact (h.addressed p' (List.mem_of_mem_eraseIdx hp')).of_quiet hquiet

theorem Inv.reclaim {env : Env} (h : s.Inv) (husage : s.manager.UsageOk env fun _ => false)
    (hnext : ((Manager.periodicReclaim env).run s.manager).finish = some m') :
    Inv { s with manager := m' } := by
  obtain ⟨slack, hinv⟩ := h.books
  obtain ⟨_, hbooks⟩ := finish_of_wp (memInv_periodicReclaim hinv h.queued husage) hnext
  have hquiet : Quiet s.manager m' := quiet_mem.periodicReclaim.of_finish hnext
  exact ⟨⟨slack, hbooks⟩, hquiet.queued h.queued, fun p hp => (h.addressed p hp).of_quiet hquiet⟩

theorem Inv.next {e : Event} (h : s.Inv) (hen : s.enabled e) (hfresh : s.NotStale e)
    (hnext : Wire.next e s = some s') : s'.Inv := by
  cases e with
  | send id =>
    obtain ⟨sc, hb, rfl⟩ := Option.map_eq_some_iff.mp hnext
    exact h.send hb
  | deliver env i =>
    obtain ⟨p, hp, hhonest⟩ := hen
    obtain ⟨p', hp', hmap⟩ := Option.bind_eq_some_iff.mp hnext
    cases hp.symm.trans hp'
    obtain ⟨m', hm, rfl⟩ := Option.map_eq_some_iff.mp hmap
    exact h.deliver hp hhonest.1 (hfresh p hp) hm
  | reclaim env =>
    obtain ⟨m', hm, rfl⟩ := Option.map_eq_some_iff.mp hnext
    exact h.reclaim hen.1 hm

/-- **Requests that are not stale keep the recorded limits covered**, in any order of sends,
deliveries and passes, from any state of a balanced run. -/
theorem limits_covered_of_run {db : UnorderedMap Ip4Addr AgentClient} {spec : ExportAppSpec}
    (hm : memRuns.Run (Manager.started db spec) m)
    (hrun : (system.only NotStale).Run ⟨m, []⟩ s) : Covered s.manager := by
  obtain ⟨hinv, hq⟩ := memInv_of_run hm
  have h0 : Inv ⟨m, []⟩ := ⟨⟨0, hinv⟩, hq, fun p hp => by cases hp⟩
  have h : s.Inv := by
    refine System.invariant h0 (fun e t t' ht hen hnext => ?_) hrun
    exact ht.next hen.1 hen.2 hnext
  exact h.covered

/-! ## Two runs

Containers 1 and 2 of `sharedApp` hold 10000 and 20000 pages, and 208 are left. -/

/-- Every environment of the two runs: nothing is used, resizes succeed. -/
def idleWorld : Env := .uniform 0 0 0 0 0

/-- Two requests of container 1 that both carry 10000 pages. The second one is served from a pass
over container 2. -/
theorem limits_covered_after_reclaim :
    ∃ m s, memRuns.Run (Manager.started oneAgent sharedApp) m ∧
      (system.only NotStale).Run ⟨m, []⟩ s ∧ Covered s.manager ∧
      s.manager.ec.totalLimit = 27800 := by
  have hreplay : ((memRuns.replay (admission 1 "a" 8 10000 ++ admission 2 "b" 9 20000)
      (Manager.started oneAgent sharedApp)).any fun m =>
        ((system.only NotStale).replay [.send ⟨1, node⟩, .send ⟨1, node⟩, .deliver idleWorld 0,
          .deliver idleWorld 0] ⟨m, []⟩).any fun s => s.manager.ec.totalLimit = 27800) = true := by
    decide +kernel
  obtain ⟨m, hm, hwire⟩ := System.exists_run_of_replay hreplay
  obtain ⟨s, hrun, htotal⟩ := System.exists_run_of_replay hwire
  exact ⟨m, s, hm, hrun, limits_covered_of_run hm hrun, of_decide_eq_true htotal⟩

/-- Container 2 sends; a pass for container 1 takes 7200 pages from it; its request arrives and
gives them back, while the pool has paid them to container 1. -/
theorem limits_exceed_allocated :
    ¬ ∀ (db : UnorderedMap Ip4Addr AgentClient) (spec : ExportAppSpec) (m : Manager) (s : Wire),
      memRuns.Run (Manager.started db spec) m → system.Run ⟨m, []⟩ s → Covered s.manager := by
  intro hclaim
  have hreplay : ((memRuns.replay (admission 1 "a" 8 10000 ++ admission 2 "b" 9 20000)
      (Manager.started oneAgent sharedApp)).any fun m =>
        (system.replay [.send ⟨2, node⟩, .send ⟨1, node⟩, .deliver idleWorld 1, .send ⟨1, node⟩,
          .deliver idleWorld 1, .deliver idleWorld 0] ⟨m, []⟩).any fun s =>
            ¬ Covered s.manager) = true := by
    decide +kernel
  obtain ⟨m, hm, hwire⟩ := System.exists_run_of_replay hreplay
  obtain ⟨s, hrun, hbroken⟩ := System.exists_run_of_replay hwire
  exact of_decide_eq_true hbroken (hclaim oneAgent sharedApp m s hm hrun)

end Wire

end EcGcm
