import EcGcm.Proof.CpuBooks

/-!
# The CPU books over whole runs

One `ReportAppSpec`, then any sequence of admissions, pod specs, deletions, idle sweeps and
reports. A deletion is a step of such a run when it comes to its end; one that has to wait for
`dep_pod_lock` has not refunded anything yet. The step lemmas of `Proof/CpuBooks.lean` meet here.
-/

set_option autoImplicit false

namespace EcGcm

open Word Handler Manager

/-- The events of such a run, and what is asked of deletions, sweeps and reports. -/
def CpuEvent (m : Manager) : Event → Prop
  | .podSpec _ => True
  | .matchDockerId _ _ => True
  | .deletePod dockerId => m.Completes (.deletePod dockerId)
  | .message env req _ _ =>
    req.reqType = initReq ∨ (req.reqType = cpuReq ∧ m.HonestReport env req)
  | .idleSweep env => m.IdleAboveMin env
  | _ => False

instance (m : Manager) : (e : Event) → Decidable (CpuEvent m e)
  | .podSpec _ => .isTrue trivial
  | .matchDockerId _ _ => .isTrue trivial
  | .deletePod dockerId => inferInstanceAs (Decidable (m.Completes (.deletePod dockerId)))
  | .message env req _ _ =>
    inferInstanceAs (Decidable (req.reqType = initReq ∨
      (req.reqType = cpuReq ∧ m.HonestReport env req)))
  | .idleSweep env => inferInstanceAs (Decidable (m.IdleAboveMin env))
  | .appSpec _ => .isFalse id
  | .memLimit _ _ _ => .isFalse id
  | .periodicReclaim _ => .isFalse id

/-- The runs, as long as `T + O` stays below `2^63`. -/
def cpuRuns : System Manager Event := (gcm.only CpuEvent).within fun m => m.ec.InRange

instance (m : Manager) (e : Event) : Decidable (cpuRuns.enabled m e) :=
  inferInstanceAs (Decidable ((True ∧ CpuEvent m e) ∧ ∀ m' ∈ gcm.next e m, m'.ec.InRange))

/-- Reports are handled while the leak accumulator has room for them. -/
def LeakSafe (m : Manager) : Event → Prop
  | .message _ req _ _ => req.reqType = cpuReq → m.LeakInRange
  | _ => True

instance (m : Manager) : (e : Event) → Decidable (LeakSafe m e)
  | .message _ req _ _ => inferInstanceAs (Decidable (req.reqType = cpuReq → m.LeakInRange))
  | .podSpec _ => .isTrue trivial
  | .matchDockerId _ _ => .isTrue trivial
  | .deletePod _ => .isTrue trivial
  | .idleSweep _ => .isTrue trivial
  | .appSpec _ => .isTrue trivial
  | .memLimit _ _ _ => .isTrue trivial
  | .periodicReclaim _ => .isTrue trivial

instance (m : Manager) (e : Event) : Decidable ((cpuRuns.only LeakSafe).enabled m e) :=
  inferInstanceAs (Decidable (cpuRuns.enabled m e ∧ LeakSafe m e))

variable {m m' : Manager} {e : Event}

theorem Manager.CpuInv.next (h : m.CpuInv) (hr : m.ec.InRange) (he : CpuEvent m e)
    (hl : LeakSafe m e) (hnext : gcm.next e m = some m') : m'.CpuInv := by
  have hinv : ∀ {x : M PUnit}, wp x (fun _ => CpuInv) (fun _ => CpuInv) m →
      (x.run m).resume = some m' → m'.CpuInv := fun hx => resume_of_wp hx
  cases e with
  | appSpec spec => exact he.elim
  | memLimit env id clifd => exact he.elim
  | periodicReclaim env => exact he.elim
  | podSpec pod => exact hinv ((wp_bind ..).mpr h.podSpec) hnext
  | matchDockerId scId dockerId => exact hinv h.matchDockerId hnext
  | deletePod dockerId =>
    have hdelete : wp (Event.deletePod dockerId).handle (fun _ => CpuInv) (fun _ _ => True) m :=
      (wp_bind ..).mpr (h.deletePod hr)
    obtain ⟨_, h'⟩ := resume_of_wp_result hdelete he hnext
    exact h'
  | idleSweep env => exact hinv (h.idleSweep hr he) hnext
  | message env req hostIp clifd =>
    refine hinv (wp_inThread.mpr ((wp_bind ..).mpr ?_)) hnext
    rcases he with ht | ⟨ht, hreport⟩
    · rw [handleReq_of_init ht]
      exact h.admission hr
    · rw [handleReq_of_cpu ht]
      exact h.report hr (hl ht) hreport ht

/-- Fresh books are balanced. -/
theorem Manager.CpuInv.started (db : UnorderedMap Ip4Addr AgentClient) (spec : ExportAppSpec) :
    (Manager.started db spec).CpuInv where
  inv :=
    { alloc := rfl
      balance := Nat.add_comm _ _
      unclipped := rfl
      slice := rfl
      share := Nat.zero_le _ }
  cpuleak := by
    show (0 : Int64) ≤ 0
    decide

/-- **The CPU books balance over whole runs.** -/
theorem cpu_books_of_run {db : UnorderedMap Ip4Addr AgentClient} {spec : ExportAppSpec}
    (hstart : (Manager.started db spec).ec.InRange)
    (hrun : (cpuRuns.only LeakSafe).Run (Manager.started db spec) m) :
    m.CpuBooks ∧ (m.LeakInRange → leakOf m.cpuleak m.ec.cpu < maxCpuLossInNs) := by
  have hinv : m.CpuInv ∧ m.ec.InRange := by
    refine System.invariant (I := fun m => m.CpuInv ∧ m.ec.InRange)
      ⟨Manager.CpuInv.started db spec, hstart⟩ ?_ hrun
    rintro e t t' ⟨ht, hr⟩ ⟨⟨⟨_, he⟩, hwithin⟩, hl⟩ hnext
    exact ⟨ht.next hr he hl hnext, hwithin t' hnext⟩
  exact ⟨⟨hinv.1.inv.toCpuBooks, hinv.1.cpuleak⟩, fun hl => hinv.1.leakOf_lt hinv.2 hl⟩

/-! ## A concrete run

One node, one agent. A container takes the whole pool, a second one is admitted on credit and
then borrows up to its fair share, which leaves an overrun of about `2e18`. -/

def hugeApp : ExportAppSpec := ⟨40000000000000, 1000⟩

def borrowRun : List Event :=
  [deliver 0 (msgOf 1 initReq 4000000000000000000 0),
   deliver 0 (msgOf 2 initReq 30000000 0),
   deliver 0 (msgOf 2 cpuReq 30000000 1)]

/-- The books after the run: allocated, pool, overrun. -/
theorem cpu_books_after_borrow :
    ∃ m, (Manager.started oneAgent hugeApp).ec.InRange ∧
      (cpuRuns.only LeakSafe).Run (Manager.started oneAgent hugeApp) m ∧
      m.CpuBooks ∧ 0 < m.ec.cpu.overrun := by
  have hstart : (Manager.started oneAgent hugeApp).ec.InRange := by decide +kernel
  have hreplay : (((cpuRuns.only LeakSafe).replay borrowRun
      (Manager.started oneAgent hugeApp)).any fun m => 0 < m.ec.cpu.overrun) = true := by
    decide +kernel
  obtain ⟨m, hrun, hover⟩ := System.exists_run_of_replay hreplay
  exact ⟨m, hstart, hrun, (cpu_books_of_run hstart hrun).1, of_decide_eq_true hover⟩

/-- Five more reports, whose pushes fail, wrap the accumulator; the fifth one repairs a leak
that is not there. -/
theorem cpu_books_break_after_wrap :
    ¬ ∀ (db : UnorderedMap Ip4Addr AgentClient) (spec : ExportAppSpec) (m : Manager),
      (Manager.started db spec).ec.InRange → cpuRuns.Run (Manager.started db spec) m →
      m.CpuBooks := by
  intro hclaim
  have hstart : (Manager.started oneAgent hugeApp).ec.InRange := by decide +kernel
  have hreplay : ((cpuRuns.replay
      (borrowRun ++ List.replicate 5 (deliver 1 (msgOf 1 cpuReq 4000000000000000000 0)))
      (Manager.started oneAgent hugeApp)).any fun m =>
        m.ec.cpu.allocRt.toNat + m.ec.cpu.unallocatedRt.toNat ≠
          m.ec.cpu.totalCpu.toNat + m.ec.cpu.overrun.toNat) = true := by
    decide +kernel
  obtain ⟨m, hrun, hbroken⟩ := System.exists_run_of_replay hreplay
  exact of_decide_eq_true hbroken (hclaim oneAgent hugeApp m hstart hrun).books.balance

end EcGcm
