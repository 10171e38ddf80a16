import EcGcm.Proof.ResizeThreads

/-!
# Quotas that are written over

Of the threads of `EcGcm/Proof/ResizeThreads.lean`, each pays for the change from the quota it has
read, or has itself adopted since, to the one it writes. If another one has written in between,
nobody has paid for the difference.

* `drift_of_run` keeps count, in every interleaving: `alloc_rt - Σ quota` changes by the sum, over
  all writes, of the quota that is written over less the quota that the thread has seen.
* `allocated_of_run`: `alloc_rt = Σ quota` is kept as long as no two threads are at the same
  container. A thread is at a container from when it has read the quota until it has written one or
  has been refused.
* `overwritten_quota`: a container wakes up while it is being swept, and that is lost.

All three ask for more than that no counter wraps or clips: a resize has to be paid for from the
quota that the thread has seen (`Pays`). A report is up to 999 ns off the record and still agrees
with it, and its resize is then paid for from what was reported.
-/

set_option autoImplicit false

namespace EcGcm

open Word Handler Manager ElasticContainer

/-- The transfer is the change of the quota. -/
def Resize.PaysFrom (quota : UInt64) (rz : Resize) : Prop :=
  (rz.newQuota.toNat : ℤ) = quota.toNat + rz.transfer.after.toAlloc

instance (quota : UInt64) (rz : Resize) : Decidable (rz.PaysFrom quota) :=
  inferInstanceAs (Decidable (_ = _))

namespace ResizeThread

variable {t t' : ResizeThread} {m m' : Manager}

/-- What `alloc_rt` is above the recorded quotas. -/
def books (m : Manager) : ℤ := m.ec.cpu.allocRt.toNat - m.ec.totalQuota

/-- What accesses are to do to the books, if each quota is what the thread takes it to be. -/
def pending : UInt64 → List Access → ℤ
  | _, [] => 0
  | seen, a :: rest => a.toBooks seen + pending (a.seenAfter seen) rest

def owes (t : ResizeThread) : ℤ :=
  match t.point with
  | .todo seen accesses _ => pending seen accesses
  | _ => 0

/-- What is about to be pushed pays from what the thread has seen; for an adoption, which pays by
construction, that the two quotas are not so far apart that their difference is negative. -/
def Pays (t : ResizeThread) (m : Manager) : Prop :=
  match t.point with
  | .todo seen [] (.push (some rz)) => rz.PaysFrom seen
  | .diff r _ => ((m.quota? t.id).getD 0).toNat < 2 ^ 63 ∧ r.rxQuota.toNat < 2 ^ 63
  | _ => True

instance : (t : ResizeThread) → (m : Manager) → Decidable (t.Pays m)
  | ⟨_, _, _, .todo _ [] (.push (some _))⟩, _ => inferInstanceAs (Decidable (Resize.PaysFrom _ _))
  | ⟨_, _, _, .diff _ _⟩, _ => @instDecidableAnd _ _ (Nat.decLt _ _) (Nat.decLt _ _)
  | ⟨_, _, _, .test _⟩, _ => .isTrue trivial
  | ⟨_, _, _, .mismatch _⟩, _ => .isTrue trivial
  | ⟨_, _, _, .compare _⟩, _ => .isTrue trivial
  | ⟨_, _, _, .sweep⟩, _ => .isTrue trivial
  | ⟨_, _, _, .todo _ (_ :: _) _⟩, _ => .isTrue trivial
  | ⟨_, _, _, .todo _ [] (.push none)⟩, _ => .isTrue trivial
  | ⟨_, _, _, .todo _ [] (.repair _ _)⟩, _ => .isTrue trivial

/-- What the next step puts the books off by: a quota is written over one that the thread has not
seen. -/
def drift (t : ResizeThread) (m : Manager) : ℤ :=
  match t.point with
  | .todo seen (a :: _) _ =>
    if a.quota?.isSome then ((m.quota? t.id).getD 0).toNat - seen.toNat else 0
  | _ => 0

theorem pending_accesses {seen : UInt64} {rz : Resize} (h : rz.PaysFrom seen) :
    pending seen rz.accesses = 0 := by
  unfold Resize.PaysFrom at h
  have hbefore := rz.transfer.before_toAlloc
  unfold Resize.accesses
  dsimp only
  split
  · rename_i amnt htransfer
    rw [htransfer] at h hbefore
    simp only [htransfer, pending, Access.toBooks, Access.toAlloc, Access.seenAfter,
      Access.quota?, ScUpdate.quota?, Option.getD_none, Option.getD_some]
    omega
  · simp only [pending, Access.toBooks, Access.toAlloc, Access.seenAfter,
      Access.quota?, ScUpdate.quota?, Option.getD_none, Option.getD_some]
    omega

theorem pending_adoption {less : Bool} {quota rx : UInt64} (hquota : quota.toNat < 2 ^ 63)
    (hrx : rx.toNat < 2 ^ 63) : pending quota (adoption less quota rx) = 0 := by
  have hdown := amount_sub hquota hrx
  have hup := amount_sub hrx hquota
  unfold adoption
  split
  · simp only [pending, Access.toBooks, Access.toAlloc, Access.seenAfter, Access.quota?,
      ScUpdate.quota?, Option.getD_none, Option.getD_some, CpuUpdate.toAlloc]
    omega
  · simp only [pending, Access.toBooks, Access.toAlloc, Access.seenAfter, Access.quota?,
      ScUpdate.quota?, Option.getD_none, Option.getD_some, CpuUpdate.toAlloc]
    omega

/-- **What a step does to the books.** -/
theorem Exact.books_step (h : t.Exact m) (hpays : t.Pays m) (hstep : t.step m = some (t', m')) :
    books m' + t'.owes = books m + t.owes + t.drift m := by
  obtain ⟨point', rfl, hsteps⟩ := step_cases hstep
  obtain ⟨id, env, seqNumber, point⟩ := t
  unfold books
  dsimp only at hsteps
  cases hsteps with
  | agreed hq => exact (add_zero _).symm
  | mismatched => exact (add_zero _).symm
  | dropped hsame =>
    rw [hsame.cpu, hsame.totalQuota]
    exact (add_zero _).symm
  | stuck hsame =>
    rw [hsame.cpu, hsame.totalQuota]
    exact (add_zero _).symm
  | compared hq => exact (add_zero _).symm
  | @differed r seen q hq =>
    have hsmall : ((m.quota? id).getD 0).toNat < 2 ^ 63 := hpays.1
    rw [hq, Option.getD_some] at hsmall
    have hzero : pending q (adoption (decide (r.rxQuota < seen)) q r.rxQuota) = 0 :=
      pending_adoption hsmall hpays.2
    simp only [owes, drift, hzero, add_zero]
  | swept rz hq => exact (add_zero _).symm
  | @counted seen u rest cont =>
    have hexact := CpuUpdate.Exact.allocRt h
    have hsum : ({ m.ec with cpu := u.apply m.ec.cpu } : ElasticContainer).totalQuota =
      m.ec.totalQuota := rfl
    rw [hsum]
    simp only [owes, drift, pending, Access.toBooks, Access.toAlloc, Access.seenAfter,
      Access.quota?, Option.getD_none, Option.isSome_none, Bool.false_eq_true, if_false]
    omega
  | @wrote seen q w rest cont _ hq hw =>
    have htotal := hw.totalQuota
    rw [hw.cpu]
    cases hquota : w.quota? with
    | none =>
      rw [hquota, Option.getD_none] at htotal
      simp only [owes, drift, pending, Access.toBooks, Access.toAlloc, Access.seenAfter,
        Access.quota?, hquota, Option.getD_none, Option.isSome_none, Bool.false_eq_true, if_false]
      omega
    | some q' =>
      rw [hquota, Option.getD_some] at htotal
      simp only [owes, drift, pending, Access.toBooks, Access.toAlloc, Access.seenAfter,
        Access.quota?, hquota, hq, Option.getD_some, Option.isSome_some, if_true]
      omega
  | repaired hpoint hcont hsame =>
    rw [hsame.cpu, hsame.totalQuota]
    exact (add_zero _).symm
  | credited =>
    simp only [owes, drift, pending, Access.toBooks, Access.toAlloc, CpuUpdate.toAlloc,
      Access.seenAfter, Access.quota?, Option.getD_none]
    omega
  | refused hsame =>
    rw [hsame.cpu, hsame.totalQuota]
    exact (add_zero _).symm
  | pushed hsame =>
    rw [hsame.cpu, hsame.totalQuota]
    simp only [owes, drift]
    rw [pending_accesses hpays]
    exact (add_zero _).symm

theorem owes_of_isStart (h : t.isStart = true) : t.owes = 0 := by
  obtain ⟨id, env, seqNumber, point⟩ := t
  cases point with
  | todo seen accesses cont => cases h
  | test r => rfl
  | mismatch r => cases h
  | compare r => cases h
  | diff r seen => cases h
  | sweep => rfl

theorem owes_of_isDone (h : t.isDone = true) : t.owes = 0 := by
  obtain ⟨seen, hpoint⟩ := point_of_isDone h
  unfold owes
  rw [hpoint]
  rfl

/-- **In every interleaving the books are off by what is written over unseen.** -/
theorem drift_of_run {m : Manager} {threads : List ResizeThread}
    {p : Pool Manager ResizeThread} {d : ℤ} (hstart : ∀ t ∈ threads, t.isStart = true)
    (hrun : ((Pool.drifting step drift).only
      (Pool.MovingIn fun t m => t.Exact m ∧ t.Pays m)).Run (⟨m, threads⟩, 0) (p, d))
    (hdone : ∀ t ∈ p.threads, t.isDone = true) : books p.shared = books m + d := by
  have hkept := Pool.carried_trivial.balance_of_drifting_run
    (fun _ _ _ _ h _ hstep => Exact.books_step h.1 h.2 hstep) (fun _ _ => trivial) hrun
  rw [Pool.balance_of_owes_nothing fun t ht => owes_of_isDone (hdone t ht),
    Pool.balance_of_owes_nothing fun t ht => owes_of_isStart (hstart t ht), sub_zero] at hkept
  exact hkept

/-- The sweep writes, and then the report, which has seen the quota before that. -/
theorem drift_after_overlap :
    ∃ p, ((Pool.drifting step drift).only
        (Pool.MovingIn fun t m => t.Exact m ∧ t.Pays m)).Run
        (⟨twoContainers, sweepAndReport⟩, 0) (p, -70000000) ∧
      (∀ t ∈ p.threads, t.isDone = true) ∧ books p.shared = books twoContainers + -70000000 := by
  have hreplay : ((((Pool.drifting step drift).only
      (Pool.MovingIn fun t m => t.Exact m ∧ t.Pays m)).replay
      ([0, 1] ++ List.replicate 6 0 ++ List.replicate 12 1)
      (⟨twoContainers, sweepAndReport⟩, 0)).any fun q =>
        q.2 = -70000000 ∧ ∀ t ∈ q.1.threads, t.isDone = true) = true := by
    decide +kernel
  obtain ⟨⟨p, d⟩, hrun, hp⟩ := System.exists_run_of_replay hreplay
  obtain ⟨rfl, hdone⟩ := of_decide_eq_true hp
  exact ⟨p, hrun, hdone, drift_of_run (by decide) hrun hdone⟩

/-! ## One container, one thread -/

/-- What a thread takes a quota to be, while it means to write it. -/
def snapshot (t : ResizeThread) : Option (ContainerId × Option UInt64) :=
  match t.point with
  | .diff _ seen => some (t.id, some seen)
  | .todo seen accesses cont =>
    if cont.resize?.isSome ∨ accesses.any (·.quota?.isSome) then some (t.id, some seen) else none
  | _ => none

/-- A thread in the middle of its accesses goes by what it has seen at its container. -/
theorem of_snapshot {id k : ContainerId} {env : Env} {seqNumber : UInt32} {seen : UInt64}
    {accesses : List Access} {cont : Cont} {x : Option UInt64}
    (h : snapshot ⟨id, env, seqNumber, .todo seen accesses cont⟩ = some (k, x)) :
    id = k ∧ some seen = x := by
  simp only [snapshot, Option.ite_none_right_eq_some, Option.some.injEq, Prod.mk.injEq] at h
  exact h.2

/-- Nobody writes a quota without having read it or written it before. -/
theorem snapshots : Pool.Snapshots step (fun _ _ => True) snapshot fun id m => m.quota? id where
  toCarried := Pool.carried_trivial
  taken := by
    intro t m t' m' k x _ hstep hx hold
    obtain ⟨point', rfl, hsteps⟩ := step_cases hstep
    obtain ⟨id, env, seqNumber, point⟩ := t
    dsimp only at hsteps
    cases hsteps with
    | agreed hq =>
      obtain ⟨rfl, rfl⟩ := of_snapshot hx
      exact hq
    | mismatched => cases hx
    | dropped hsame => cases hx
    | stuck hsame => cases hx
    | compared hq =>
      cases hx
      exact hq
    | differed hq =>
      obtain ⟨rfl, rfl⟩ := of_snapshot hx
      exact hq
    | swept rz hq =>
      obtain ⟨rfl, rfl⟩ := of_snapshot hx
      exact hq
    | @counted seen u rest cont =>
      refine hold ?_
      simp only [snapshot, List.any_cons, Access.quota?, Option.isSome_none, Bool.false_or]
      exact hx
    | @wrote seen q w rest cont _ hq hw =>
      cases hquota : w.quota? with
      | none =>
        -- the quota is as it was
        rw [hquota] at hw hx
        have hsame : m'.quota? k = m.quota? k := by
          by_cases hk : k = id
          · rw [hk]
            exact hw.field?.trans hq.symm
          · exact hw.others k hk
        refine hsame.trans (hold ?_)
        simp only [snapshot, List.any_cons, Access.quota?, hquota, Option.isSome_none,
          Bool.false_or]
        exact hx
      | some q' =>
        rw [hquota, Option.getD_some] at hw hx
        obtain ⟨rfl, rfl⟩ := of_snapshot hx
        exact hw.field?
    | @repaired seen point rz cont _ hpoint hcont hsame =>
      refine (hsame.field? k).trans (hold ?_)
      simp only [snapshot, hcont] at hx
      exact hx
    | @credited seen rz =>
      refine hold ?_
      simp only [snapshot, List.any_cons, List.any_nil, Access.quota?, Option.isSome_none,
        Bool.or_false] at hx
      exact hx
    | refused hsame => cases hx
    | pushed hsame =>
      obtain ⟨rfl, rfl⟩ := of_snapshot hx
      exact (hsame.field? id).trans (hold rfl)
  written := by
    intro t m t' m' k _ hstep hne
    obtain ⟨point', rfl, hsteps⟩ := step_cases hstep
    obtain ⟨id, env, seqNumber, point⟩ := t
    dsimp only at hsteps
    cases hsteps with
    | agreed hq => exact absurd rfl hne
    | mismatched => exact absurd rfl hne
    | dropped hsame => exact absurd (hsame.field? k) hne
    | stuck hsame => exact absurd (hsame.field? k) hne
    | compared hq => exact absurd rfl hne
    | differed hq => exact absurd rfl hne
    | swept rz hq => exact absurd rfl hne
    | counted => exact absurd rfl hne
    | @wrote seen q w rest cont _ hq hw =>
      obtain rfl : k = id := not_not.mp fun h => hne (hw.others k h)
      refine ⟨some seen, if_pos (.inr ?_)⟩
      rw [List.any_cons]
      cases hquota : w.quota? with
      | none =>
        rw [hquota] at hw
        exact absurd (hw.field?.trans hq.symm) hne
      | some q' =>
        rw [Access.quota?, hquota]
        rfl
    | repaired hpoint hcont hsame => exact absurd (hsame.field? k) hne
    | credited => exact absurd rfl hne
    | refused hsame => exact absurd (hsame.field? k) hne
    | pushed hsame => exact absurd (hsame.field? k) hne

/-- A thread whose snapshot is current puts nothing off. -/
theorem drift_of_fresh
    (hfresh : Pool.Fresh snapshot (fun id (m : Manager) => m.quota? id) t m) : t.drift m = 0 := by
  obtain ⟨id, env, seqNumber, point⟩ := t
  cases point with
  | test r => rfl
  | mismatch r => rfl
  | compare r => rfl
  | diff r seen => rfl
  | sweep => rfl
  | todo seen accesses cont =>
    cases accesses with
    | nil => rfl
    | cons a rest =>
      simp only [drift]
      split
      · rename_i hwrites
        have hsnapshot : snapshot ⟨id, env, seqNumber, .todo seen (a :: rest) cont⟩ =
            some (id, some seen) := by
          refine if_pos (.inr ?_)
          rw [List.any_cons, hwrites]
          rfl
        have hq : m.quota? id = some seen := hfresh id (some seen) hsnapshot
        rw [hq, Option.getD_some, sub_self]
      · rfl

/-- **As long as no two threads are at the same container, the allocated total is the sum of the
quotas** when all are done. -/
theorem allocated_of_run {m : Manager} {threads : List ResizeThread}
    {p : Pool Manager ResizeThread} (hstart : ∀ t ∈ threads, t.isStart = true)
    (halloc : m.ec.cpu.allocRt.toNat = m.ec.totalQuota)
    (hrun : (interleaved.only (Pool.Careful snapshot fun t m => t.Exact m ∧ t.Pays m)).Run
      ⟨m, threads⟩ p)
    (hdone : ∀ t ∈ p.threads, t.isDone = true) :
    p.shared.ec.cpu.allocRt.toNat = p.shared.ec.totalQuota := by
  have hcurrent : Pool.Current snapshot (fun id (m : Manager) => m.quota? id) ⟨m, threads⟩ := by
    intro t ht k x hx
    have hnone := hstart t ht
    obtain ⟨id, env, seqNumber, point⟩ := t
    cases point with
    | todo seen accesses cont => cases hnone
    | test r => cases hx
    | mismatch r => cases hnone
    | compare r => cases hnone
    | diff r seen => cases hnone
    | sweep => cases hx
  have hkept := snapshots.balance_of_run
    (fun _ _ _ _ h _ hstep => Exact.books_step h.1 h.2 hstep)
    (fun _ _ _ _ hfresh => drift_of_fresh hfresh) (fun _ _ => trivial) hcurrent hrun
  rw [Pool.balance_of_owes_nothing fun t ht => owes_of_isDone (hdone t ht),
    Pool.balance_of_owes_nothing fun t ht => owes_of_isStart (hstart t ht)] at hkept
  unfold books at hkept
  dsimp only at hkept
  omega

/-- A report that makes its container adopt the reported quota, and asks for more; meanwhile the
other container is swept. -/
theorem allocated_after_adoption :
    ∃ p, (interleaved.only (Pool.Careful snapshot fun t m => t.Exact m ∧ t.Pays m)).Run
        ⟨twoContainers, [atContainer 1 (.test (throttledAt 40000000)), atContainer 2 .sweep]⟩ p ∧
      (∀ t ∈ p.threads, t.isDone = true) ∧
      p.shared.ec.cpu.allocRt.toNat = p.shared.ec.totalQuota := by
  have hreplay : (((interleaved.only (Pool.Careful snapshot fun t m => t.Exact m ∧ t.Pays m)).replay
      ((List.replicate 7 [0, 1]).flatten ++ List.replicate 14 0)
      ⟨twoContainers, [atContainer 1 (.test (throttledAt 40000000)), atContainer 2 .sweep]⟩).any
      fun p => ∀ t ∈ p.threads, t.isDone = true) = true := by
    decide +kernel
  obtain ⟨p, hrun, hp⟩ := System.exists_run_of_replay hreplay
  have hdone := of_decide_eq_true hp
  exact ⟨p, hrun, hdone, allocated_of_run (by decide) (by decide +kernel) hrun hdone⟩

/-- Without `Pool.Exclusive` it is not: the report of a container that is being swept. -/
theorem overwritten_quota :
    ¬ ∀ (m : Manager) (threads : List ResizeThread) (p : Pool Manager ResizeThread),
      (∀ t ∈ threads, t.isStart = true) → m.ec.cpu.allocRt.toNat = m.ec.totalQuota →
      (interleaved.only (Pool.Moving fun t m => t.Exact m ∧ t.Pays m)).Run ⟨m, threads⟩ p →
      (∀ t ∈ p.threads, t.isDone = true) →
      p.shared.ec.cpu.allocRt.toNat = p.shared.ec.totalQuota := by
  intro hclaim
  have hreplay : (((interleaved.only (Pool.Moving fun t m => t.Exact m ∧ t.Pays m)).replay
      ([0, 1] ++ List.replicate 6 0 ++ List.replicate 12 1) ⟨twoContainers, sweepAndReport⟩).any
      fun p =>
        (∀ t ∈ p.threads, t.isDone = true) ∧
          p.shared.ec.cpu.allocRt.toNat ≠ p.shared.ec.totalQuota) = true := by
    decide +kernel
  obtain ⟨p, hrun, hp⟩ := System.exists_run_of_replay hreplay
  obtain ⟨hdone, hne⟩ := of_decide_eq_true hp
  exact hne (hclaim _ _ p (by decide) (by decide +kernel) hrun hdone)

end ResizeThread

end EcGcm
