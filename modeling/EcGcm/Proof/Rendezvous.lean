import EcGcm.Lib.Monitor
import EcGcm.Proof.Registrations
import EcGcm.Proof.Registries
import EcGcm.Proof.Rejections

/-!
# Pod specs that wait for their containers

`DeployerExportServiceImpl::scIdToDockerIdMatcherThread` and the `notify_one` of
`Manager::handle_add_cgroup_to_ec`, at their condition variable `cv`. An accepted pod spec whose
container has no entry in `sc_ac_map` keeps its gRPC thread asleep; every connection from a node
with an agent wakes *one* of these threads.

Three things are proved about all interleavings of specs, connections, deletions, requests,
notifications and wake-ups.

* No spec is lost or matched twice, and no container carries a docker id that was not reported for
  it (`booked_of_run`). Seen from the manager each step is one of `gcm`'s, or none (`run_gcm`).
* With one spec waiting at a time nobody sleeps whose container has connected: the spec is matched
  as soon as its thread moves (`connected_spec_matched`).
* With two it can go wrong, for *any* two containers. The notification may wake the thread of the
  other one, which goes back to sleep, and nobody wakes the first (`notification_lost`).
-/

set_option autoImplicit false

namespace EcGcm

open Handler

/-- `matchingThreadArgs`. -/
structure MatchingThreadArgs where
  scId : ContainerId
  dockerId : String
  deriving DecidableEq, Repr

/-- The manager, and two ghost lists: the specs that have been accepted, and those matched. -/
structure Desk where
  m : Manager
  accepted : List MatchingThreadArgs
  matched : List MatchingThreadArgs
  deriving DecidableEq

namespace Desk

/-- What becomes of a spec: the thread answers, or begins to wait with `args`. -/
def settle (s : Desk) (args : MatchingThreadArgs) :
    Outcome Manager String → Option (Desk × Option MatchingThreadArgs)
  | .ret thanks m =>
    if thanks = success then some (⟨m, s.accepted ++ [args], s.matched ++ [args]⟩, none)
    else some ({ s with m := m }, none)
  | .halt .hang m => some (⟨m, s.accepted ++ [args], s.matched⟩, some args)
  | .halt .throw m => some ({ s with m := m }, none)
  | .halt .exit _ => none
  | .halt .undef _ => none

/-- `ReportPodSpec`, up to the wait. A spec that finds `dep_pod_lock` locked gets nowhere. -/
def reportPodSpec (pod : ExportPodSpec) (s : Desk) : Option (Desk × Option MatchingThreadArgs) :=
  if s.m.depPodLock then some (s, none)
  else
    s.settle ⟨pod.containerId?.getD .default, pod.dockerId⟩ ((Manager.reportPodSpec pod).run s.m)

/-- The rest of `scIdToDockerIdMatcherThread`, after the wait. -/
def matchDockerId (args : MatchingThreadArgs) (s : Desk) : Option Desk :=
  ((Manager.scIdToDockerIdMatcherThread args.scId args.dockerId).run s.m).resume.map fun m =>
    { s with m := m, matched := s.matched ++ [args] }

/-- An `_INIT_` from a node with an agent ends in `cv.notify_one()`. -/
def notifies (s : Desk) : Event → Bool
  | .message _ req hostIp _ =>
    req.reqType = initReq && (s.m.agentsDb.lookup (.fromNet hostIp)).isSome
  | _ => false

end Desk

namespace Rendezvous

/-- Around `cv`. -/
def protocol : Protocol Desk Event ExportPodSpec MatchingThreadArgs where
  program :=
    ⟨fun _ e => e.isMatching = false, fun e s => (gcm.next e s.m).map fun m => { s with m := m }⟩
  signals := Desk.notifies
  arrive := Desk.reportPodSpec
  ready args s := (s.m.ec.scAcMap.lookup args.scId).isSome
  proceed := Desk.matchDockerId

/-- The controller with its matching threads. -/
def system : System (Monitor Desk MatchingThreadArgs) (Monitor.Event Event ExportPodSpec) :=
  Monitor.system protocol

instance (s : Desk) (e : Event) : Decidable (protocol.program.enabled s e) :=
  inferInstanceAs (Decidable (e.isMatching = false))

instance (M : Monitor Desk MatchingThreadArgs) (ev : Monitor.Event Event ExportPodSpec) :
    Decidable (system.enabled M ev) :=
  inferInstanceAs (Decidable (Monitor.enabled protocol M ev))

/-- Nothing has happened yet. -/
def start (agentsDb : UnorderedMap Ip4Addr AgentClient) : Monitor Desk MatchingThreadArgs :=
  ⟨⟨.new agentsDb, [], []⟩, []⟩

end Rendezvous

/-! ## What a spec does -/

namespace Desk

open Manager

variable {s s' : Desk} {pod : ExportPodSpec} {args : MatchingThreadArgs}
  {o : Option MatchingThreadArgs}

/-- A matcher that need not wait sets the docker id on the newest instance. -/
theorem run_matcher_of_back {m : Manager} {id : ContainerId} {d : String} {sc : SubContainer}
    (hac : (m.ec.scAcMap.lookup id).isSome = true) (hb : m.ec.back? id = some sc) :
    (scIdToDockerIdMatcherThread id d).run m =
      .ret ⟨⟩ { m with ec := m.ec.modifyBack id fun sc => sc.setDockerId d } := by
  obtain ⟨a, ha⟩ := Option.isSome_iff_exists.mp hac
  unfold scIdToDockerIdMatcherThread
  rw [run_bind_of_ret run_get, ha]
  dsimp only
  rw [run_bind_of_ret (run_ecGetScForUpdate_of_back hb)]
  rfl

/-- One that finds no instance takes the process down. -/
theorem run_matcher_of_no_back {m : Manager} {id : ContainerId} {d : String}
    (hac : (m.ec.scAcMap.lookup id).isSome = true) (hb : m.ec.back? id = none) :
    ∃ e, (scIdToDockerIdMatcherThread id d).run m = .halt e m ∧ (e = .exit ∨ e = .undef) := by
  obtain ⟨a, ha⟩ := Option.isSome_iff_exists.mp hac
  have hget : ∃ e, (ecGetScForUpdate id).run m = .halt e m ∧ (e = .exit ∨ e = .undef) := by
    unfold ecGetScForUpdate
    rw [run_bind_of_ret run_get]
    cases hq : m.ec.subcontainers.lookup id with
    | none => exact ⟨.exit, rfl, .inl rfl⟩
    | some q =>
      unfold ElasticContainer.back? at hb
      rw [hq, Option.bind_some] at hb
      dsimp only
      rw [hb]
      exact ⟨.undef, rfl, .inr rfl⟩
  obtain ⟨e, hrun, he⟩ := hget
  refine ⟨e, ?_, he⟩
  unfold scIdToDockerIdMatcherThread
  rw [run_bind_of_ret run_get, ha]
  exact run_bind_of_halt hrun

/-- A spec whose docker id is free is left to the matcher. -/
theorem run_reportPodSpec_of_free {m : Manager} {id : ContainerId} (hlock : m.depPodLock = false)
    (hpod : pod.containerId? = some id)
    (hfree : (m.dockerToSubContainer.lookup pod.dockerId).isSome = false) :
    (Manager.reportPodSpec pod).run m =
      ((scIdToDockerIdMatcherThread id pod.dockerId).run (m.withPodSpec id pod.dockerId)).bind
        fun _ => (pure success : M String).run := by
  unfold Manager.reportPodSpec
  rw [run_bind_of_ret (insertPodSpec_of_free hlock hpod), hfree, if_neg Bool.false_ne_true,
    if_pos rfl, run_bind_of_ret (run_containerIdOf hpod)]
  rfl

/-- **What becomes of a spec**: it does not get `dep_pod_lock`; its address does not parse; its
docker id is taken; it waits; or it is matched at once. -/
theorem reportPodSpec_cases (h : s.reportPodSpec pod = some (s', o)) :
    (o = none ∧ (s' = s ∨ s' = { s with m := s.m.podLocked })) ∨
      ∃ id, pod.containerId? = some id ∧
      ((o = none ∧ s' = { s with m := s.m.withPodSpec id pod.dockerId }) ∨
       (s.m.ec.scAcMap.lookup id = none ∧ o = some ⟨id, pod.dockerId⟩ ∧
        s' = ⟨s.m.withPodSpec id pod.dockerId, s.accepted ++ [⟨id, pod.dockerId⟩], s.matched⟩) ∨
       (o = none ∧
        s' = ⟨{ s.m.withPodSpec id pod.dockerId with
            ec := s.m.ec.modifyBack id fun sc => sc.setDockerId pod.dockerId },
          s.accepted ++ [⟨id, pod.dockerId⟩], s.matched ++ [⟨id, pod.dockerId⟩]⟩)) := by
  unfold reportPodSpec at h
  by_cases hlocked : s.m.depPodLock = true
  · rw [if_pos hlocked] at h
    cases h
    exact .inl ⟨rfl, .inl rfl⟩
  have hlock : s.m.depPodLock = false := Bool.eq_false_iff.mpr hlocked
  rw [if_neg hlocked] at h
  cases hpod : pod.containerId? with
  | none =>
    have hrun : (Manager.reportPodSpec pod).run s.m = .halt .throw s.m.podLocked :=
      run_bind_of_halt (insertPodSpec_of_unparsable hlock hpod)
    rw [hrun] at h
    cases h
    exact .inl ⟨rfl, .inr rfl⟩
  | some id =>
    refine .inr ⟨id, rfl, ?_⟩
    rw [hpod, Option.getD_some] at h
    cases htaken : (s.m.dockerToSubContainer.lookup pod.dockerId).isSome with
    | true =>
      rw [reportPodSpec_of_taken hlock hpod htaken] at h
      cases h
      exact .inl ⟨rfl, rfl⟩
    | false =>
      rw [run_reportPodSpec_of_free hlock hpod htaken] at h
      cases hac : s.m.ec.scAcMap.lookup id with
      | none =>
        have hwait : (scIdToDockerIdMatcherThread id pod.dockerId).run
            (s.m.withPodSpec id pod.dockerId) = .halt .hang (s.m.withPodSpec id pod.dockerId) :=
          matcher_of_unconnected hac
        rw [hwait] at h
        cases h
        exact .inr (.inl ⟨rfl, rfl, rfl⟩)
      | some a =>
        have hac' : ((s.m.withPodSpec id pod.dockerId).ec.scAcMap.lookup id).isSome = true :=
          Option.isSome_iff_exists.mpr ⟨a, hac⟩
        cases hb : (s.m.withPodSpec id pod.dockerId).ec.back? id with
        | some sc =>
          rw [run_matcher_of_back hac' hb] at h
          cases h
          exact .inr (.inr ⟨rfl, rfl⟩)
        | none =>
          obtain ⟨e, hrun, he⟩ := run_matcher_of_no_back (d := pod.dockerId) hac' hb
          rw [hrun] at h
          rcases he with rfl | rfl
          · cases h
          · cases h

/-- A matching thread after its wait, when the process goes on. -/
theorem matchDockerId_of_ready (hready : (s.m.ec.scAcMap.lookup args.scId).isSome = true)
    (h : s.matchDockerId args = some s') :
    s' = ⟨{ s.m with ec := s.m.ec.modifyBack args.scId fun sc => sc.setDockerId args.dockerId },
      s.accepted, s.matched ++ [args]⟩ := by
  unfold matchDockerId at h
  cases hb : s.m.ec.back? args.scId with
  | some sc =>
    rw [run_matcher_of_back hready hb] at h
    cases h
    rfl
  | none =>
    obtain ⟨e, hrun, he⟩ := run_matcher_of_no_back (d := args.dockerId) hready hb
    rw [hrun] at h
    rcases he with rfl | rfl
    · cases h
    · cases h

end Desk

namespace Rendezvous

open Manager ElasticContainer Monitor

variable {D D' : Monitor Desk MatchingThreadArgs} {ev : Monitor.Event Event ExportPodSpec}
  {db : UnorderedMap Ip4Addr AgentClient}

/-! ## The controller seen through it -/

theorem settle_resume {s s' : Desk} {args : MatchingThreadArgs} {out : Outcome Manager String}
    {o : Option MatchingThreadArgs} (h : s.settle args out = some (s', o)) :
    out.resume = some s'.m := by
  cases out with
  | ret thanks m =>
    unfold Desk.settle at h
    dsimp only at h
    by_cases hthanks : thanks = success
    · rw [if_pos hthanks] at h
      cases h
      rfl
    · rw [if_neg hthanks] at h
      cases h
      rfl
  | halt e m =>
    cases e <;> cases h <;> rfl

theorem reportPodSpec_resume {s s' : Desk} {pod : ExportPodSpec} {o : Option MatchingThreadArgs}
    (h : s.reportPodSpec pod = some (s', o)) :
    ((Manager.reportPodSpec pod).run s.m).resume = some s'.m := by
  unfold Desk.reportPodSpec at h
  split at h
  · rename_i hlock
    cases h
    have hrun : (Manager.reportPodSpec pod).run s.m = .halt .hang s.m :=
      run_bind_of_halt (insertPodSpec_of_locked hlock)
    rw [hrun]
    rfl
  · exact settle_resume h

/-- Each step is a step of the controller, or leaves it where it was. -/
theorem step_gcm (hnext : Monitor.next protocol ev D = some D') :
    D'.shared.m = D.shared.m ∨ gcm.Step D.shared.m D'.shared.m := by
  cases ev with
  | act e chosen =>
    obtain ⟨s, hs, rfl⟩ := next_act.mp hnext
    obtain ⟨m, hm, rfl⟩ := Option.map_eq_some_iff.mp hs
    exact .inr ⟨e, trivial, hm⟩
  | arrive pod =>
    obtain ⟨⟨s, o⟩, hs, rfl⟩ := next_arrive.mp hnext
    exact .inr ⟨.podSpec pod, trivial, resume_discard.trans (reportPodSpec_resume hs)⟩
  | wake i =>
    obtain ⟨w, -, ⟨-, s, hs, rfl⟩ | ⟨-, rfl⟩⟩ := next_wake.mp hnext
    · obtain ⟨m, hm, rfl⟩ := Option.map_eq_some_iff.mp hs
      exact .inr ⟨.matchDockerId w.what.scId w.what.dockerId, trivial, hm⟩
    · exact .inl rfl
  | spurious i =>
    cases hnext
    exact .inl rfl

theorem run_gcm (hrun : system.Run D D') : gcm.Run D.shared.m D'.shared.m := by
  induction hrun with
  | refl => exact .refl
  | tail _ hlast ih =>
    obtain ⟨ev, -, hnext⟩ := hlast
    rcases step_gcm hnext with heq | hstep
    · rw [heq]
      exact ih
    · exact .tail ih hstep

/-! ## Every spec is matched once -/

/-- Every accepted spec has been matched or waits, and every docker id on an instance comes from a
spec that named its container. -/
structure Booked (D : Monitor Desk MatchingThreadArgs) : Prop where
  perm : D.shared.accepted.Perm (D.shared.matched ++ D.waiters.map Waiter.what)
  marks : D.shared.m.ec.Every fun id sc =>
    sc.dockerId = "" ∨ ⟨id, sc.dockerId⟩ ∈ D.shared.matched

theorem booked_start : Booked (start db) where
  perm := .nil
  marks id q hq := by cases hq

/-- A docker id is put where its spec says. -/
theorem marks_match {ec : ElasticContainer} {matched : List MatchingThreadArgs}
    {args : MatchingThreadArgs}
    (h : ec.Every fun id sc => sc.dockerId = "" ∨ ⟨id, sc.dockerId⟩ ∈ matched) :
    (ec.modifyBack args.scId fun sc => sc.setDockerId args.dockerId).Every fun id sc =>
      sc.dockerId = "" ∨ ⟨id, sc.dockerId⟩ ∈ matched ++ [args] := by
  have hmono : ec.Every fun id sc => sc.dockerId = "" ∨ ⟨id, sc.dockerId⟩ ∈ matched ++ [args] :=
    fun id q hq sc hsc => (h id q hq sc hsc).imp_right (List.mem_append_left _)
  refine hmono.modifyBack fun sc _ => .inr ?_
  exact List.mem_append_right _ (List.mem_singleton.mpr rfl)

theorem booked_next (h : Booked D) (hen : system.enabled D ev)
    (hnext : Monitor.next protocol ev D = some D') : Booked D' := by
  cases ev with
  | act e chosen =>
    have he : e.isMatching = false := hen.1
    obtain ⟨s, hs, rfl⟩ := next_act.mp hnext
    obtain ⟨m, hm, rfl⟩ := Option.map_eq_some_iff.mp hs
    constructor
    · dsimp only
      split
      · rw [notifyOne, map_what_modify Waiter.what_woken]
        exact h.perm
      · exact h.perm
    · refine every_next h.marks (fun id sc sc' hid hp => ?_) (fun _ hd => .inl hd)
        (fun _ _ hp => hp) he hm
      have hd : sc'.dockerId = sc.dockerId := congrArg (fun t => t.2.1) hid
      rw [hd]
      exact hp
  | arrive pod =>
    obtain ⟨⟨s, o⟩, hs, rfl⟩ := next_arrive.mp hnext
    have hs' : D.shared.reportPodSpec pod = some (s, o) := hs
    rcases Desk.reportPodSpec_cases hs' with ⟨rfl, rfl | rfl⟩ | ⟨id, -, ⟨rfl, rfl⟩ |
      ⟨-, rfl, rfl⟩ | ⟨rfl, rfl⟩⟩
    · exact ⟨by simpa using h.perm, h.marks⟩
    · exact ⟨by simpa using h.perm, h.marks⟩
    · exact ⟨by simpa using h.perm, h.marks⟩
    · refine ⟨?_, h.marks⟩
      -- the new waiter is the new spec
      show List.Perm (D.shared.accepted ++ [_])
        (D.shared.matched ++ (D.waiters ++ [Waiter.asleep _]).map Waiter.what)
      rw [List.map_append, ← List.append_assoc]
      exact h.perm.append_right _
    · refine ⟨?_, marks_match h.marks⟩
      show List.Perm (D.shared.accepted ++ [_])
        (D.shared.matched ++ [_] ++ (D.waiters ++ []).map Waiter.what)
      rw [List.append_nil]
      refine (h.perm.append_right _).trans ?_
      rw [List.append_assoc, List.append_assoc]
      exact List.perm_append_comm.append_left _
  | wake i =>
    obtain ⟨w, hw, ⟨hready, s, hs, rfl⟩ | ⟨-, rfl⟩⟩ := next_wake.mp hnext
    · obtain rfl := Desk.matchDockerId_of_ready hready hs
      refine ⟨?_, marks_match h.marks⟩
      obtain ⟨hlt, hget⟩ := List.getElem?_eq_some_iff.mp hw
      have hperm := (List.getElem_cons_eraseIdx_perm hlt).map Waiter.what
      rw [hget] at hperm
      show List.Perm D.shared.accepted
        (D.shared.matched ++ [w.what] ++ (D.waiters.eraseIdx i).map Waiter.what)
      rw [List.append_assoc]
      exact h.perm.trans (hperm.symm.append_left _)
    · refine ⟨?_, h.marks⟩
      show List.Perm _ (_ ++ (D.waiters.modify i Waiter.sentBack).map Waiter.what)
      rw [map_what_modify Waiter.what_sentBack]
      exact h.perm
  | spurious i =>
    cases hnext
    refine ⟨?_, h.marks⟩
    show List.Perm _ (_ ++ (D.waiters.modify i Waiter.woken).map Waiter.what)
    rw [map_what_modify Waiter.what_woken]
    exact h.perm

/-- **No spec is lost, none is matched twice, and no docker id comes from nowhere**, over every
interleaving of specs, connections, deletions, requests, notifications and wake-ups. -/
theorem booked_of_run (hrun : system.Run (start db) D) :
    gcm.Run (.new db) D.shared.m ∧ Booked D :=
  ⟨run_gcm hrun, System.invariant (I := Booked) booked_start
    (fun _ _ _ h hen hnext => booked_next h hen hnext) hrun⟩

theorem booked_two_specs :
    ∃ D, system.Run (start oneAgent) D ∧ D.shared.accepted.length = 2 ∧ D.waiters.length = 1 ∧
      D.shared.accepted.Perm (D.shared.matched ++ D.waiters.map Waiter.what) := by
  have hreplay : ((system.replay [.arrive (specOf 1 "a"), .arrive (specOf 2 "b"),
      .act (connect 2 7) 1, .wake 1] (start oneAgent)).any fun D =>
      decide (D.shared.accepted.length = 2 ∧ D.waiters.length = 1)) = true := by
    decide +kernel
  obtain ⟨D, hrun, htest⟩ := System.exists_run_of_replay hreplay
  obtain ⟨haccepted, hwaiters⟩ := of_decide_eq_true htest
  exact ⟨D, hrun, haccepted, hwaiters, (booked_of_run hrun).2.perm⟩

/-! ## One spec at a time -/

/-- The container of a spec is linked to an agent. -/
def Connected (args : MatchingThreadArgs) (s : Desk) : Prop :=
  (s.m.ec.agent? args.scId).isSome = true

theorem Connected.ready {args : MatchingThreadArgs} {s : Desk} (h : Connected args s) :
    (s.m.ec.scAcMap.lookup args.scId).isSome = true := by
  unfold Connected ElasticContainer.agent? at h
  cases hac : s.m.ec.scAcMap.lookup args.scId with
  | none =>
    rw [hac] at h
    cases h
  | some a => rfl

theorem connected_congr {args : MatchingThreadArgs} {s s' : Desk}
    (h : s'.m.ec.scAcMap = s.m.ec.scAcMap) : Connected args s' ↔ Connected args s := by
  unfold Connected
  rw [agent?_congr h]

/-- Matching threads do not connect anybody. -/
theorem considerate : Considerate protocol Connected where
  ready := Connected.ready
  arrive {pod s s' o} h args := by
    refine (connected_congr ?_).mp
    rcases Desk.reportPodSpec_cases h with ⟨-, rfl | rfl⟩ | ⟨id, -, ⟨-, rfl⟩ | ⟨-, -, rfl⟩ |
      ⟨-, rfl⟩⟩
    · rfl
    · rfl
    · rfl
    · rfl
    · exact scAcMap_modifyBack
  sleeps {pod s s' args} h hcon := by
    rcases Desk.reportPodSpec_cases h with ⟨ho, -⟩ | ⟨id, -, ⟨ho, -⟩ | ⟨hac, ho, rfl⟩ | ⟨ho, -⟩⟩
    · cases ho
    · cases ho
    · cases ho
      have hready := hcon.ready
      have hnone : (s.m.withPodSpec id pod.dockerId).ec.scAcMap.lookup id = none := hac
      dsimp only at hready
      rw [hnone] at hready
      cases hready
    · cases ho
  proceed {args s s'} h args' := by
    refine (connected_congr ?_).mp
    obtain ⟨m, hm, rfl⟩ := Option.map_eq_some_iff.mp h
    refine resume_of_wp (I := fun m => m.ec.scAcMap = s.m.ec.scAcMap) ?_ hm
    exact wp_matcher rfl scAcMap_modifyBack

/-- Whoever gets an agent gets it in an admission that notifies. -/
theorem announces : Announces protocol Connected := by
  intro e s s' args he hs hnot hcon
  obtain ⟨m, hm, rfl⟩ := Option.map_eq_some_iff.mp hs
  have hnot' : (s.m.ec.agent? args.scId).isSome ≠ true := hnot
  have hcon' : (m.ec.agent? args.scId).isSome = true := hcon
  rcases next_cases he hm with hquiet | ⟨env, req, hostIp, clifd, cpu, quota, rfl, ht, hquiet⟩ |
    ⟨d, id, front, rest, -, -, -, -, -, hmap⟩
  · rw [hquiet.agent] at hcon'
    exact absurd hcon' hnot'
  · rw [hquiet.agent] at hcon'
    unfold admitted at hcon'
    dsimp only at hcon'
    cases hdb : s.m.agentsDb.lookup (.fromNet hostIp) with
    | some agent =>
      show (decide (req.reqType = initReq) && (s.m.agentsDb.lookup (.fromNet hostIp)).isSome) = true
      rw [hdb, ht]
      rfl
    | none =>
      have hnone : s.m.agentsDb.lookup (SubContainer.new req.cgroupId hostIp clifd quota req.request
          env.now).cId.serverIp = none := hdb
      rw [hnone] at hcon'
      unfold register at hcon'
      rw [agent?_congr scAcMap_insertSc] at hcon'
      exact absurd hcon' hnot'
  · rw [agent?_congr hmap, agent?_halfDeleted] at hcon'
    split at hcon'
    · cases hcon'
    · exact absurd hcon' hnot'

/-- **One waiting spec is matched as soon as its thread moves**, once its container has connected:
in every run in which no spec comes in while another one waits. -/
theorem connected_spec_matched {i : ℕ} {w : Waiter MatchingThreadArgs}
    (hrun : (system.only Alone).Run (start db) D) (hw : D.waiters[i]? = some w)
    (hagent : (D.shared.m.ec.agent? w.what.scId).isSome = true) :
    system.enabled D (.wake i) ∧ ∃ D', system.next (.wake i) D = some D' ∧ D'.waiters = [] ∧
      D'.shared.matched = D.shared.matched ++ [w.what] ∧
      ∃ sc, D'.shared.m.ec.back? w.what.scId = some sc ∧ sc.dockerId = w.what.dockerId := by
  obtain ⟨hfed, hlen⟩ := considerate.fed_of_alone announces
    (M := start db) (fun _ hw => by cases hw) (Nat.zero_le 1) hrun
  have hawake : w.awake = true := by
    by_contra hsleep
    exact hfed w (List.mem_of_getElem? hw) (by simpa using hsleep) hagent
  have hgcm := run_gcm (System.run_of_only hrun)
  -- the container is registered, so the thread finds its newest instance
  obtain ⟨a, ha⟩ := Option.isSome_iff_exists.mp hagent
  obtain ⟨q, hq⟩ := linkedOnly_of_run hgcm _ a ha
  obtain ⟨sc, hb⟩ := (queued_of_run hgcm).back hq
  have hconnected : Connected w.what D.shared := hagent
  have hready : (D.shared.m.ec.scAcMap.lookup w.what.scId).isSome = true := hconnected.ready
  have hmatch : D.shared.matchDockerId w.what = some
      ⟨{ D.shared.m with
        ec := D.shared.m.ec.modifyBack w.what.scId fun sc => sc.setDockerId w.what.dockerId },
        D.shared.accepted, D.shared.matched ++ [w.what]⟩ := by
    unfold Desk.matchDockerId
    rw [Desk.run_matcher_of_back hready hb]
    rfl
  refine ⟨⟨w, hw, hawake⟩, _, next_wake.mpr ⟨w, hw, .inl ⟨hready, _, hmatch, rfl⟩⟩, ?_, rfl,
    _, back?_modifyBack hb, rfl⟩
  have hlt := (List.getElem?_eq_some_iff.mp hw).1
  refine List.eq_nil_of_length_eq_zero ?_
  show (D.waiters.eraseIdx i).length = 0
  rw [List.length_eraseIdx_of_lt hlt]
  omega

/-- One spec waits, and its container connects. -/
def oneSpec : List (Monitor.Event Event ExportPodSpec) :=
  [.arrive (specOf 1 "a"), .act (connect 1 7) 0]

theorem one_spec_matched :
    ∃ D D', (system.only Alone).Run (start oneAgent) D ∧ system.next (.wake 0) D = some D' ∧
      D'.waiters = [] ∧ D'.shared.matched = [⟨⟨1, node⟩, "a"⟩] := by
  have hreplay : (((system.only Alone).replay oneSpec (start oneAgent)).any fun D =>
      decide (D.waiters = [⟨⟨⟨1, node⟩, "a"⟩, true⟩] ∧ D.shared.matched = [] ∧
        (D.shared.m.ec.agent? ⟨1, node⟩).isSome = true)) = true := by
    decide +kernel
  obtain ⟨D, hrun, htest⟩ := System.exists_run_of_replay hreplay
  obtain ⟨hw, hmatched, hagent⟩ := of_decide_eq_true htest
  obtain ⟨-, D', hnext, hnil, hmatch, -⟩ := connected_spec_matched (i := 0)
    (w := ⟨⟨⟨1, node⟩, "a"⟩, true⟩) hrun (by rw [hw]; rfl) hagent
  exact ⟨D, D', hrun, hnext, hnil, by rw [hmatch, hmatched]; rfl⟩

/-! ## Two specs -/

/-- The container `a` of the node of `hostIp` connects. -/
theorem admission_of_fresh {m : Manager} {env : Env} {req : Msg} {hostIp : UInt32} {clifd : Int}
    (ht : req.reqType = initReq)
    (hdb : (m.agentsDb.lookup (.fromNet hostIp)).isSome = true)
    (hsub : m.ec.subcontainers.lookup ⟨req.cgroupId, .fromNet hostIp⟩ = none)
    (hac : m.ec.scAcMap.lookup ⟨req.cgroupId, .fromNet hostIp⟩ = none) :
    ∃ m', gcm.next (.message env req hostIp clifd) m = some m' ∧
      m.Linked ⟨req.cgroupId, .fromNet hostIp⟩ m' := by
  obtain ⟨agent, hagent⟩ := Option.isSome_iff_exists.mp hdb
  have hwp : wp (handleAddCgroupToEc env req hostIp clifd)
      (fun _ m' => m.Linked ⟨req.cgroupId, .fromNet hostIp⟩ m') (fun _ _ => False) m :=
    wp_handleAddCgroupToEc_of_agent hsub hac hagent
  obtain ⟨r, m', hret, hlink⟩ := wp_total.mp hwp
  refine ⟨m', ?_, hlink⟩
  have hnext : gcm.next (.message env req hostIp clifd) m =
      ((handleReq env req hostIp clifd).run m).uncaught.resume := resume_inThread_discard
  rw [hnext, handleReq_of_init ht, hret]
  rfl

/-- **With two specs waiting a notification can be lost.** Threads `i` and `j` sleep, for two
different containers, and nobody is awake. The container of `i` connects, from a node with an agent:
there is a run after which it is linked, the same threads sleep as before, and however the
controller goes on, `i` sleeps as long as nobody notifies or wakes up without reason. -/
theorem notification_lost {i j : ℕ} {a b : MatchingThreadArgs} {env : Env} {req : Msg}
    {hostIp : UInt32} {clifd : Int} (hi : D.waiters[i]? = some (Waiter.asleep a))
    (hj : D.waiters[j]? = some (Waiter.asleep b)) (hne : b.scId ≠ a.scId)
    (ht : req.reqType = initReq) (ha : a.scId = ⟨req.cgroupId, .fromNet hostIp⟩)
    (hdb : (D.shared.m.agentsDb.lookup (.fromNet hostIp)).isSome = true)
    (hsub : D.shared.m.ec.subcontainers.lookup a.scId = none)
    (hac : D.shared.m.ec.scAcMap.lookup a.scId = none)
    (hbc : D.shared.m.ec.scAcMap.lookup b.scId = none) :
    ∃ D', gcm.next (.message env req hostIp clifd) D.shared.m = some D'.shared.m ∧
      system.Run D D' ∧ (D'.shared.m.ec.agent? a.scId).isSome = true ∧ D'.waiters = D.waiters ∧
      ∀ D'', (system.only (Silent protocol)).Run D' D'' → Waiter.asleep a ∈ D''.waiters := by
  rw [ha] at hsub hac
  let e : Event := .message env req hostIp clifd
  have hadmission : ∃ m', gcm.next e D.shared.m = some m' ∧
    D.shared.m.Linked ⟨req.cgroupId, .fromNet hostIp⟩ m' := admission_of_fresh ht hdb hsub hac
  obtain ⟨m', hm, hlink⟩ := hadmission
  have hsig : protocol.signals D.shared e = true := by
    show (decide (req.reqType = initReq) && (D.shared.m.agentsDb.lookup (.fromNet hostIp)).isSome) =
      true
    rw [hdb, ht]
    rfl
  -- the connection, with the notification to `j`
  have hact : system.next (.act e j) D = some ⟨{ D.shared with m := m' },
      notifyOne j D.waiters⟩ := by
    refine next_act.mpr ⟨{ D.shared with m := m' }, ?_, ?_⟩
    · exact Option.map_eq_some_iff.mpr ⟨m', hm, rfl⟩
    · rw [hsig]
      rfl
  have hen : system.enabled D (.act e j) := ⟨rfl, fun _ _ => ⟨_, hj, rfl⟩⟩
  -- `j` finds nothing and goes back to sleep
  have hgot : (notifyOne j D.waiters)[j]? = some (Waiter.asleep b).woken := by
    unfold notifyOne
    rw [List.getElem?_modify_eq, hj]
    rfl
  have hnot : protocol.ready b { D.shared with m := m' } = false := by
    show (m'.ec.scAcMap.lookup b.scId).isSome = false
    rw [(hlink.other b.scId (ha ▸ hne)).agent, hbc]
    rfl
  have hback : (notifyOne j D.waiters).modify j Waiter.sentBack = D.waiters := by
    unfold notifyOne
    rw [List.modify_modify_eq]
    refine List.ext_getElem? fun k => ?_
    by_cases hjk : j = k
    · subst hjk
      rw [List.getElem?_modify_eq, hj]
      rfl
    · rw [List.getElem?_modify_ne _ _ hjk]
  have hwake : system.next (.wake j) ⟨{ D.shared with m := m' }, notifyOne j D.waiters⟩ =
      some ⟨{ D.shared with m := m' }, D.waiters⟩ := by
    refine next_wake.mpr ⟨_, hgot, .inr ⟨hnot, ?_⟩⟩
    dsimp only
    rw [hback]
  have hawake : system.enabled ⟨{ D.shared with m := m' }, notifyOne j D.waiters⟩ (.wake j) :=
    ⟨_, hgot, rfl⟩
  refine ⟨⟨{ D.shared with m := m' }, D.waiters⟩, hm, ?_, ?_, rfl, fun D'' hsilent => ?_⟩
  · exact .tail (.single ⟨_, hen, hact⟩) ⟨_, hawake, hwake⟩
  · obtain ⟨agent, hagent⟩ := hlink.agent
    show (m'.ec.agent? a.scId).isSome = true
    unfold ElasticContainer.agent?
    rw [ha, hagent]
    rfl
  · have hsleeps : Waiter.asleep a ∈
        (⟨{ D.shared with m := m' }, D.waiters⟩ : Monitor Desk MatchingThreadArgs).waiters :=
      List.mem_of_getElem? hi
    exact asleep_of_silent hsleeps rfl hsilent

theorem notification_lost_between_two_pods :
    ∃ D D', system.Run (start oneAgent) D ∧ system.Run D D' ∧
      (D'.shared.m.ec.agent? ⟨1, node⟩).isSome = true ∧
      D'.waiters = [Waiter.asleep ⟨⟨1, node⟩, "a"⟩, Waiter.asleep ⟨⟨2, node⟩, "b"⟩] ∧
      ∀ D'', (system.only (Silent protocol)).Run D' D'' →
        Waiter.asleep ⟨⟨1, node⟩, "a"⟩ ∈ D''.waiters := by
  have hreplay : ((system.replay [.arrive (specOf 1 "a"), .arrive (specOf 2 "b")]
      (start oneAgent)).any fun D =>
      decide (D.waiters = [Waiter.asleep ⟨⟨1, node⟩, "a"⟩, Waiter.asleep ⟨⟨2, node⟩, "b"⟩] ∧
        (D.shared.m.agentsDb.lookup node).isSome = true ∧
        D.shared.m.ec.subcontainers.lookup ⟨1, node⟩ = none ∧
        D.shared.m.ec.scAcMap.lookup ⟨1, node⟩ = none ∧
        D.shared.m.ec.scAcMap.lookup ⟨2, node⟩ = none)) = true := by
    decide +kernel
  obtain ⟨D, hrun, htest⟩ := System.exists_run_of_replay hreplay
  obtain ⟨hw, hdb, hsub, hac, hbc⟩ := of_decide_eq_true htest
  have hfirst : D.waiters[0]? = some (Waiter.asleep ⟨⟨1, node⟩, "a"⟩) := by rw [hw]; rfl
  have hsecond : D.waiters[1]? = some (Waiter.asleep ⟨⟨2, node⟩, "b"⟩) := by rw [hw]; rfl
  have hconnects : (⟨1, node⟩ : ContainerId) =
    ⟨(msgOf 1 initReq 1000 0).cgroupId, .fromNet node.addr⟩ := rfl
  obtain ⟨D', -, hrun', hagent, hw', hsilent⟩ :
      ∃ D' : Monitor Desk MatchingThreadArgs,
        gcm.next (.message (.uniform 0 0 0 0 0) (msgOf 1 initReq 1000 0) node.addr 7) D.shared.m =
          some D'.shared.m ∧ system.Run D D' ∧
        (D'.shared.m.ec.agent? ⟨1, node⟩).isSome = true ∧ D'.waiters = D.waiters ∧
        ∀ D'', (system.only (Silent protocol)).Run D' D'' →
          Waiter.asleep ⟨⟨1, node⟩, "a"⟩ ∈ D''.waiters :=
    notification_lost hfirst hsecond (by decide) rfl hconnects hdb hsub hac hbc
  exact ⟨D, D', hrun, hrun', hagent, hw'.trans hw, hsilent⟩

end Rendezvous

end EcGcm
