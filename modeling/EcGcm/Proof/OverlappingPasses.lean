import EcGcm.Lib.Snapshots
import EcGcm.Proof.Fields
import EcGcm.Proof.ReclaimTasks

/-!
# Reclaim passes that overlap

`memlock` keeps the passes of two memory requests apart. It does not keep them apart from the
periodic pass of `run`, or from that of a container that starts up: three passes may be under way at
once, and with each start-up one more. Within one pass no two tasks have the same container
(`reclaimTasks_independent`); in two passes they do.

Here there are any number of tasks (`ReclaimTask`), each of a pass of its own: with the world of
that pass, and with the socket that is spared. The periodic pass spares nobody, and has a number
that is no socket.

A task reports the pages between the limit it has *read* and its target, and sets the limit to the
target whatever it is by then.

* `reported_drift_of_run` keeps count: reports and limits together are off by what each write finds
  changed since the limit was read, by the page it rounds away, and by `2^52` pages when the target
  is above the limit that was read.
* `reported_of_run`: nothing is off when no two tasks are at the same container and usages are
  whole pages.
* `reported_twice`: any container that two passes shrink at the same time is reported twice.
-/

set_option autoImplicit false

namespace EcGcm

open Handler ElasticContainer Manager

/-- The pointer of a task and the limit it has read, once it has read it. -/
def ReclaimPoint.held? : ReclaimPoint → Option (ℕ × UInt64)
  | readUsage place memLimitBytes => some (place, memLimitBytes)
  | resize place memLimitBytes _ => some (place, memLimitBytes)
  | writeBack place memLimitBytes _ => some (place, memLimitBytes)
  | _ => none

/-- The pointer of a task. -/
def ReclaimPoint.place? : ReclaimPoint → Option ℕ
  | readLimit place => some place
  | point => point.held?.map Prod.fst

/-- A task of some pass. -/
structure PassTask where
  env : Env
  clientFd : Int
  task : ReclaimTask

namespace PassTask

def step (t : PassTask) (m : Manager) : Option (PassTask × Manager) :=
  (ReclaimTask.step t.env t.clientFd t.task m).map fun r => ({ t with task := r.1 }, r.2)

/-- Any number of passes, in any order of their steps. -/
abbrev passes : System (Pool Manager PassTask) ℕ := Pool.interleaving step

/-- A task that has not been launched. -/
def launched (env : Env) (clientFd : Int) (id : ContainerId) : PassTask :=
  ⟨env, clientFd, ⟨id, .launch⟩⟩

/-- The pages that a task has reported. -/
def reported (t : PassTask) : ℤ := t.task.pagesReclaimed.toNat

/-- The pages that all tasks have reported. -/
def total (p : Pool Manager PassTask) : ℤ := (p.threads.map reported).sum

/-! ## What a step can do -/

/-- The recorded limit of the newest instance. -/
def limit? (m : Manager) (id : ContainerId) : Option UInt64 := m.ec.field? (·.memLimitInPages) id

/-- What one step can do. -/
inductive Steps (id : ContainerId) (m : Manager) : ReclaimPoint → ReclaimPoint → Manager → Prop
  | spared : Steps id m .launch .spared m
  | launched {q : List SubContainer} (hq : m.ec.subcontainers.lookup id = some q) (hne : q ≠ []) :
    Steps id m .launch (.readLimit (q.length - 1)) m
  | limitRead {place : ℕ} {q : List SubContainer} {sc : SubContainer}
      (hq : m.ec.subcontainers.lookup id = some q) (hsc : q[place]? = some sc) :
    Steps id m (.readLimit place) (.readUsage place (pageToByte sc.memLimitInPages)) m
  | usageRead {place : ℕ} {memLimitBytes : UInt64} {point' : ReclaimPoint} {m' : Manager}
      (hframe : AgentFrame m m')
      (hpoint : point' = .done 0 ∨ point'.held? = some (place, memLimitBytes)) :
    Steps id m (.readUsage place memLimitBytes) point' m'
  | asked {place : ℕ} {memLimitBytes target : UInt64} {point' : ReclaimPoint} {m' : Manager}
      (hframe : AgentFrame m m')
      (hpoint : point' = .done 0 ∨ point'.held? = some (place, memLimitBytes)) :
    Steps id m (.resize place memLimitBytes target) point' m'
  | wrote {place : ℕ} {memLimitBytes target : UInt64} {q : List SubContainer}
      {sc sc' : SubContainer} (hq : m.ec.subcontainers.lookup id = some q)
      (hsc : q[place]? = some sc) (hb : m.ec.back? sc.cId = some sc') :
    Steps id m (.writeBack place memLimitBytes target)
      (.done (byteToPage (memLimitBytes - target)))
      { m with ec := m.ec.modifyBack sc.cId fun sc =>
        sc.setMemLimitInPages (byteToPage target) }

section Steps

variable {t t' : PassTask} {m m' : Manager} {id : ContainerId} {place : ℕ}
  {memLimitBytes target : UInt64} {env : Env} {E : Halt → Manager → Prop}

theorem wp_instanceAt_of {Q : SubContainer → Manager → Prop} (hE : ∀ e m', E e m')
    (hQ : ∀ q sc, m.ec.subcontainers.lookup id = some q → q[place]? = some sc → Q sc m) :
    wp (ReclaimTask.instanceAt id place) Q E m := by
  unfold ReclaimTask.instanceAt
  rw [wp_bind, wp_get]
  cases hat : (m.ec.subcontainers.lookup id).bind (·[place]?) with
  | none => exact hE _ _
  | some sc =>
    obtain ⟨q, hq, hsc⟩ := Option.bind_eq_some_iff.mp hat
    exact hQ q sc hq hsc

theorem wp_launch {clientFd : Int} (hE : ∀ e m', E e m') :
    wp (ReclaimTask.launch clientFd id) (Steps id m .launch) E m := by
  unfold ReclaimTask.launch
  rw [wp_bind, wp_get]
  cases hq : m.ec.subcontainers.lookup id with
  | none => exact hE _ _
  | some q =>
    dsimp only
    cases hlast : q.getLast? with
    | none => exact hE _ _
    | some sc =>
      dsimp only
      rw [wp_pure]
      split
      · exact .spared
      · refine .launched hq fun hnil => ?_
        rw [hnil] at hlast
        cases hlast

theorem wp_readUsage (hE : ∀ e m', E e m') :
    wp (ReclaimTask.readUsage env id place memLimitBytes)
      (Steps id m (.readUsage place memLimitBytes)) E m := by
  unfold ReclaimTask.readUsage
  rw [wp_bind]
  refine wp_instanceAt_of hE fun q sc hq hsc => ?_
  rw [wp_bind]
  refine wp_scGetMemoryUsageInBytesCadvisor (fun _ _ _ _ => hE _ _) fun m' hframe _ => ?_
  rw [wp_ite]
  split
  · exact .usageRead hframe (.inl rfl)
  · rw [wp_ite]
    split
    · exact .usageRead hframe (.inr rfl)
    · exact .usageRead hframe (.inl rfl)

theorem wp_resize (hE : ∀ e m', E e m') :
    wp (ReclaimTask.resize env id place memLimitBytes target)
      (Steps id m (.resize place memLimitBytes target)) E m := by
  unfold ReclaimTask.resize
  rw [wp_bind]
  refine wp_scResizeMemoryLimitInPages (fun _ _ _ _ => hE _ _) fun m' status hframe _ _ => ?_
  rw [wp_ite]
  split
  · exact .asked hframe (.inr rfl)
  · exact .asked hframe (.inl rfl)

theorem wp_writeBack (hE : ∀ e m', E e m') :
    wp (ReclaimTask.writeBack id place memLimitBytes target)
      (Steps id m (.writeBack place memLimitBytes target)) E m := by
  unfold ReclaimTask.writeBack scSetMemoryLimitInPages
  rw [wp_bind]
  refine wp_instanceAt_of hE fun q sc hq hsc => ?_
  rw [wp_bind, wp_bind]
  exact wp_ecGetScForUpdate_of (fun sc' hb => .wrote hq hsc hb) fun _ _ => hE _ _

theorem wp_next? (hE : ∀ e m', E e m') :
    ∀ x ∈ t.task.next? t.env t.clientFd, wp x (Steps t.task.id m t.task.point) E m := by
  obtain ⟨env, clientFd, id, point⟩ := t
  intro x hx
  cases point with
  | launch =>
    cases hx
    exact wp_launch hE
  | spared => cases hx
  | readLimit place =>
    cases hx
    exact (wp_bind ..).mpr (wp_instanceAt_of hE fun q sc hq hsc => .limitRead hq hsc)
  | readUsage place memLimitBytes =>
    cases hx
    exact wp_readUsage hE
  | resize place memLimitBytes target =>
    cases hx
    exact wp_resize hE
  | writeBack place memLimitBytes target =>
    cases hx
    exact wp_writeBack hE
  | done pages => cases hx

theorem step_cases (h : t.step m = some (t', m')) :
    ∃ point, t' = { t with task := { t.task with point := point } } ∧
      Steps t.task.id m t.task.point point m' ∧ Quiet m m' := by
  obtain ⟨⟨task', m₁⟩, hstep, heq⟩ := Option.map_eq_some_iff.mp h
  cases heq
  have hquiet : Quiet m m₁ := ReclaimTask.shared_of_step quiet_mem.toAllowsReclaim hstep
  obtain ⟨x, hx, point, hret, rfl⟩ := ReclaimTask.step_eq_some.mp hstep
  have hwp : wp x (Steps t.task.id m t.task.point) (fun _ _ => True) m :=
    wp_next? (fun _ _ => trivial) x hx
  exact ⟨point, rfl, (wp_of_run hret).mp hwp, hquiet⟩

end Steps

/-! ## What is reported, and what is left -/

variable {t t' u : PassTask} {m m' : Manager}

/-- The pointer of a task goes to the newest instance, and the limit it has read is one in bytes. -/
structure Pointed (t : PassTask) (m : Manager) : Prop where
  queued : m.ec.Queued
  place : ∀ place, t.task.point.place? = some place →
    ∃ q, m.ec.subcontainers.lookup t.task.id = some q ∧ q.length = place + 1
  aligned : ∀ held, t.task.point.held? = some held → held.2.toNat % 4096 = 0

theorem pageToByte_aligned (pages : UInt64) : (pageToByte pages).toNat % 4096 = 0 := by
  have hpage : (4096 : UInt64).toNat = 4096 := rfl
  rw [pageToByte, UInt64.toNat_mul, hpage]
  omega

/-- A quiet step does not change how many instances an id has. -/
theorem length_of_quiet {id : ContainerId} {q : List SubContainer} (h : Quiet m m')
    (hq : m.ec.subcontainers.lookup id = some q) :
    ∃ q', m'.ec.subcontainers.lookup id = some q' ∧ q'.length = q.length := by
  have hshape := congrFun h.shape id
  unfold shape at hshape
  rw [hq, Option.map_some] at hshape
  obtain ⟨q', hq', hmap⟩ := Option.map_eq_some_iff.mp hshape
  refine ⟨q', hq', ?_⟩
  have hlength := congrArg List.length hmap
  rwa [List.length_map, List.length_map] at hlength

theorem Pointed.quiet (h : Pointed t m) (hquiet : Quiet m m') : Pointed t m' where
  queued := h.queued.of_shape hquiet.shape
  place place hplace := by
    obtain ⟨q, hq, hlength⟩ := h.place place hplace
    obtain ⟨q', hq', heq⟩ := length_of_quiet hquiet hq
    exact ⟨q', hq', heq.trans hlength⟩
  aligned := h.aligned

/-- The instance a pointer goes to is the newest one, and has its id. -/
theorem Pointed.back {place : ℕ} {q : List SubContainer} {sc : SubContainer} (h : Pointed t m)
    (hplace : t.task.point.place? = some place)
    (hq : m.ec.subcontainers.lookup t.task.id = some q) (hsc : q[place]? = some sc) :
    m.ec.back? t.task.id = some sc ∧ sc.cId = t.task.id := by
  obtain ⟨q', hq', hlength⟩ := h.place place hplace
  rw [hq] at hq'
  cases hq'
  have hlast : q.getLast? = some sc := by
    rw [List.getLast?_eq_getElem?, hlength]
    exact hsc
  have hb : m.ec.back? t.task.id = some sc := by
    unfold back?
    rw [hq]
    exact hlast
  exact ⟨hb, h.queued.cId_of_back hb⟩

theorem place?_of_held {point : ReclaimPoint} {place : ℕ} {bytes : UInt64}
    (h : point.held? = some (place, bytes)) : point.place? = some place := by
  cases point with
  | launch => cases h
  | spared => cases h
  | readLimit place' => cases h
  | readUsage place' bytes' =>
    cases h
    rfl
  | resize place' bytes' target =>
    cases h
    rfl
  | writeBack place' bytes' target =>
    cases h
    rfl
  | done pages => cases h

/-- A task that ends, or keeps what it has. -/
theorem Pointed.of_held {env : Env} {clientFd : Int} {id : ContainerId}
    {point point' : ReclaimPoint} {place : ℕ} {bytes : UInt64}
    (h : Pointed ⟨env, clientFd, ⟨id, point⟩⟩ m) (hold : point.held? = some (place, bytes))
    (hpoint : point' = .done 0 ∨ point'.held? = some (place, bytes)) :
    Pointed ⟨env, clientFd, ⟨id, point'⟩⟩ m := by
  rcases hpoint with rfl | hheld
  · exact ⟨h.queued, nofun, nofun⟩
  · refine ⟨h.queued, fun place' hplace => ?_, fun held hsame => ?_⟩
    · refine h.place place' ((place?_of_held hold).trans ?_)
      exact (place?_of_held hheld).symm.trans hplace
    · exact h.aligned held (hold.trans (hheld.symm.trans hsame))

theorem pointed_carried : Pool.Carried step Pointed where
  own {t m t' m'} h hstep := by
    obtain ⟨point', rfl, hsteps, hquiet⟩ := step_cases hstep
    obtain ⟨env, clientFd, id, point⟩ := t
    have hkept := h.quiet hquiet
    dsimp only at hsteps hkept
    cases hsteps with
    | spared => exact ⟨hkept.queued, nofun, nofun⟩
    | @launched q hq hne =>
      refine ⟨hkept.queued, fun place hplace => ?_, nofun⟩
      cases hplace
      have hpos := List.length_pos_of_ne_nil hne
      exact ⟨q, hq, by omega⟩
    | limitRead hq hsc =>
      refine ⟨hkept.queued, hkept.place, fun held hheld => ?_⟩
      cases hheld
      exact pageToByte_aligned _
    | usageRead hframe hpoint => exact hkept.of_held rfl hpoint
    | asked hframe hpoint => exact hkept.of_held rfl hpoint
    | wrote hq hsc hb => exact ⟨hkept.queued, nofun, nofun⟩
  others {t m t' m' u} _ hstep hu := by
    obtain ⟨point', rfl, hsteps, hquiet⟩ := step_cases hstep
    exact hu.quiet hquiet

/-- What the next step puts limits and reports off by. A write goes by the limit that was read,
rounds a target that is not whole pages down twice, and takes a target above the limit for one that
leaves `2^64` bytes more. -/
def drift (t : PassTask) (m : Manager) : ℤ :=
  match t.task.point with
  | .writeBack _ memLimitBytes target =>
    (byteToPage memLimitBytes).toNat - ((limit? m t.task.id).getD 0).toNat -
      (if target.toNat % 4096 = 0 then 0 else 1) + (if memLimitBytes < target then 2 ^ 52 else 0)
  | _ => 0

/-- The target and what is reported, against the limit they are worked out from. -/
theorem pages_of_split {memLimitBytes target : UInt64} (h : memLimitBytes.toNat % 4096 = 0) :
    ((byteToPage target).toNat : ℤ) + (byteToPage (memLimitBytes - target)).toNat =
      (byteToPage memLimitBytes).toNat - (if target.toNat % 4096 = 0 then 0 else 1) +
        (if memLimitBytes < target then 2 ^ 52 else 0) := by
  have hpage : (4096 : UInt64).toNat = 4096 := rfl
  have hbytes := memLimitBytes.toNat_lt
  have htarget := target.toNat_lt
  simp only [byteToPage, UInt64.toNat_div, UInt64.toNat_sub, hpage, UInt64.lt_iff_toNat_lt]
  split <;> split <;> omega

theorem totalLimit_of_frame (h : AgentFrame m m') : m'.ec.totalLimit = m.ec.totalLimit :=
  (sameField_of_subcontainers (g := (·.memLimitInPages)) h.subcontainers).sum

/-- **What a step does to limits and reports.** -/
theorem Pointed.limits_step (h : Pointed t m) (hstep : t.step m = some (t', m')) :
    (m'.ec.totalLimit : ℤ) + t'.reported = m.ec.totalLimit + t.reported + t.drift m := by
  obtain ⟨point', rfl, hsteps, hquiet⟩ := step_cases hstep
  obtain ⟨env, clientFd, id, point⟩ := t
  unfold reported drift
  dsimp only at hsteps ⊢
  cases hsteps with
  | spared => rfl
  | launched hq hne => rfl
  | limitRead hq hsc => rfl
  | @usageRead place bytes point' _ hframe hpoint =>
    have hpages : (⟨id, point'⟩ : ReclaimTask).pagesReclaimed = 0 := by
      rcases hpoint with rfl | hheld
      · rfl
      · cases point' <;> first | rfl | cases hheld
    rw [hpages, totalLimit_of_frame hframe]
    rfl
  | @asked place bytes target point' _ hframe hpoint =>
    have hpages : (⟨id, point'⟩ : ReclaimTask).pagesReclaimed = 0 := by
      rcases hpoint with rfl | hheld
      · rfl
      · cases point' <;> first | rfl | cases hheld
    rw [hpages, totalLimit_of_frame hframe]
    rfl
  | @wrote place bytes target q sc sc' hq hsc hb =>
    obtain ⟨hback, hid⟩ := h.back rfl hq hsc
    dsimp only at hback hid
    subst hid
    have hw := wroteField_modifyBack (g := (·.memLimitInPages))
      (f := fun sc => sc.setMemLimitInPages (byteToPage target)) hback
    have hlimit : limit? m sc.cId = some sc.memLimitInPages := field?_of_back? hback
    have hsum : (m.ec.modifyBack sc.cId fun sc =>
        sc.setMemLimitInPages (byteToPage target)).totalLimit + sc.memLimitInPages.toNat =
      m.ec.totalLimit + (byteToPage target).toNat := hw.sum
    have hsplit : ((byteToPage target).toNat : ℤ) + (byteToPage (bytes - target)).toNat = _ :=
      pages_of_split (h.aligned _ rfl)
    simp only [ReclaimTask.pagesReclaimed, hlimit, Option.getD_some]
    have hzero : (0 : UInt64).toNat = 0 := rfl
    omega

/-- Tasks that have not been launched. -/
def AllLaunched (tasks : List PassTask) : Prop := ∀ t ∈ tasks, t.task.point = .launch

instance (tasks : List PassTask) : Decidable (AllLaunched tasks) :=
  inferInstanceAs (Decidable (∀ t ∈ tasks, _))

theorem AllLaunched.reported {tasks : List PassTask} (h : AllLaunched tasks) :
    ∀ t ∈ tasks, t.reported = 0 := by
  intro t ht
  unfold PassTask.reported ReclaimTask.pagesReclaimed
  rw [h t ht]
  rfl

theorem AllLaunched.pointed {tasks : List PassTask} (h : AllLaunched tasks)
    (hqueued : m.ec.Queued) : ∀ t ∈ tasks, Pointed t m := by
  intro t ht
  refine ⟨hqueued, ?_, ?_⟩
  · rw [h t ht]
    nofun
  · rw [h t ht]
    nofun

theorem AllLaunched.balance {tasks : List PassTask} (h : AllLaunched tasks) :
    Pool.balance (fun m : Manager => (m.ec.totalLimit : ℤ)) PassTask.reported ⟨m, tasks⟩ =
      m.ec.totalLimit := Pool.balance_of_owes_nothing h.reported

/-- **In every order limits and reports are off by what the single writes put them off by**: limits
that have changed since they were read, pages that are rounded away, targets above the limit. -/
theorem reported_drift_of_run {tasks : List PassTask} {p : Pool Manager PassTask} {d : ℤ}
    (hqueued : m.ec.Queued) (htasks : AllLaunched tasks)
    (hrun : (Pool.drifting step drift).Run (⟨m, tasks⟩, 0) (p, d)) :
    p.shared.ec.totalLimit + total p = m.ec.totalLimit + d := by
  have hnarrow := System.run_only_of_forall
    (P := Pool.MovingIn fun (_ : PassTask) (_ : Manager) => True) (fun _ _ _ _ => trivial) hrun
  have hkept : p.balance (fun m : Manager => (m.ec.totalLimit : ℤ)) reported = _ :=
    pointed_carried.balance_of_drifting_run (fun _ _ _ _ _ h hstep => h.limits_step hstep)
      (htasks.pointed hqueued) hnarrow
  rw [htasks.balance, sub_zero] at hkept
  exact hkept

/-! ### Two pods -/

/-- Pods use 1000 pages, and have started with a limit of 60000. -/
def thousandPages : Env := .uniform 0 0 0 4096000 245760000

def twoPodsStart : List Event :=
  [.appSpec ⟨3000, 1000⟩, connect 1 7, connect 2 8, .matchDockerId ⟨1, node⟩ "a",
    .matchDockerId ⟨2, node⟩ "b", .memLimit thousandPages ⟨1, node⟩ 7,
    .memLimit thousandPages ⟨2, node⟩ 8]

def twoPods : Manager := (gcm.replay twoPodsStart (.new oneAgent)).getD (.new oneAgent)

/-- The pass of a request by the first pod, and the periodic one. -/
def twoPasses : List PassTask :=
  [launched thousandPages 7 ⟨1, node⟩, launched thousandPages 7 ⟨2, node⟩,
    launched thousandPages (-1) ⟨1, node⟩, launched thousandPages (-1) ⟨2, node⟩]

theorem queued_twoPods : twoPods.ec.Queued := by
  have hreplay : (gcm.replay twoPodsStart (.new oneAgent)).isSome = true := by decide +kernel
  obtain ⟨m, hm⟩ := Option.isSome_iff_exists.mp hreplay
  unfold twoPods
  rw [hm]
  exact queued_of_run (System.replay_run hm)

/-- Both passes are at the second pod at the same time. -/
theorem reported_drift_of_two_passes :
    ∃ p, (Pool.drifting step drift).Run (⟨twoPods, twoPasses⟩, 0) (p, 46200) ∧
      (∀ t ∈ p.threads, t.task.Finished) ∧
      (p.shared.ec.totalLimit : ℤ) + total p = twoPods.ec.totalLimit + 46200 := by
  have hreplay : (((Pool.drifting step drift).replay
      [0, 1, 3, 1, 3, 1, 3, 1, 3, 1, 3, 2, 2, 2, 2, 2] (⟨twoPods, twoPasses⟩, 0)).any fun q =>
        q.2 = 46200 ∧ ∀ t ∈ q.1.threads, t.task.Finished) = true := by
    decide +kernel
  obtain ⟨⟨p, d⟩, hrun, hp⟩ := System.exists_run_of_replay hreplay
  obtain ⟨rfl, hdone⟩ := of_decide_eq_true hp
  exact ⟨p, hrun, hdone, reported_drift_of_run queued_twoPods (by decide) hrun⟩

/-! ## One container, one task -/

/-- The limit, in bytes, that a task goes by. -/
def snapshot (t : PassTask) : Option (ContainerId × Option UInt64) :=
  t.task.point.held?.map fun held => (t.task.id, some held.2)

/-- The limit in bytes, as a task would read it now. -/
def limitBytes (id : ContainerId) (m : Manager) : Option UInt64 := (limit? m id).map pageToByte

theorem limitBytes_of_frame (h : AgentFrame m m') (id : ContainerId) :
    limitBytes id m' = limitBytes id m := by
  unfold limitBytes limit?
  rw [(sameField_of_subcontainers h.subcontainers).field?]

/-- Nobody writes a limit without having read it. -/
theorem snapshots : Pool.Snapshots step Pointed snapshot limitBytes where
  toCarried := pointed_carried
  taken := by
    intro t m t' m' k x h hstep hx hold
    obtain ⟨point', rfl, hsteps, -⟩ := step_cases hstep
    obtain ⟨env, clientFd, id, point⟩ := t
    dsimp only at hsteps
    cases hsteps with
    | spared => cases hx
    | launched hq hne => cases hx
    | limitRead hq hsc =>
      cases hx
      obtain ⟨hback, -⟩ := h.back rfl hq hsc
      unfold limitBytes limit?
      dsimp only at hback ⊢
      rw [field?_of_back? hback]
      rfl
    | @usageRead place bytes point' _ hframe hpoint =>
      rw [limitBytes_of_frame hframe]
      rcases hpoint with rfl | hheld
      · cases hx
      · refine hold ?_
        rw [← hx]
        unfold snapshot
        dsimp only
        rw [hheld]
        rfl
    | @asked place bytes target point' _ hframe hpoint =>
      rw [limitBytes_of_frame hframe]
      rcases hpoint with rfl | hheld
      · cases hx
      · refine hold ?_
        rw [← hx]
        unfold snapshot
        dsimp only
        rw [hheld]
        rfl
    | wrote hq hsc hb => cases hx
  written := by
    intro t m t' m' k h hstep hne
    obtain ⟨point', rfl, hsteps, -⟩ := step_cases hstep
    obtain ⟨env, clientFd, id, point⟩ := t
    dsimp only at hsteps
    cases hsteps with
    | spared => exact absurd rfl hne
    | launched hq hlaunched => exact absurd rfl hne
    | limitRead hq hsc => exact absurd rfl hne
    | usageRead hframe hpoint => exact absurd (limitBytes_of_frame hframe k) hne
    | asked hframe hpoint => exact absurd (limitBytes_of_frame hframe k) hne
    | @wrote place bytes target q sc sc' hq hsc hb =>
      obtain ⟨hback, hid⟩ := h.back rfl hq hsc
      dsimp only at hback hid
      subst hid
      have hw := wroteField_modifyBack (g := (·.memLimitInPages))
        (f := fun sc => sc.setMemLimitInPages (byteToPage target)) hback
      have hk : k = sc.cId := by
        refine not_not.mp fun hother => hne ?_
        unfold limitBytes limit?
        rw [hw.others k hother]
      subst hk
      exact ⟨some bytes, rfl⟩

/-- The write rounds nothing away: the target is whole pages below the limit that was read, and
the limit that is written over fits a word in bytes. -/
def Whole (t : PassTask) (m : Manager) : Prop :=
  match t.task.point with
  | .writeBack _ memLimitBytes target =>
    target.toNat % 4096 = 0 ∧ target ≤ memLimitBytes ∧
      ((limit? m t.task.id).getD 0).toNat < 2 ^ 52
  | _ => True

instance (t : PassTask) (m : Manager) : Decidable (t.Whole m) := by
  unfold Whole
  split <;> infer_instance

/-- A write by a task whose snapshot is current reports what it takes. -/
theorem drift_of_fresh (hwhole : t.Whole m) (hfresh : Pool.Fresh snapshot limitBytes t m) :
    t.drift m = 0 := by
  obtain ⟨env, clientFd, id, point⟩ := t
  cases point with
  | writeBack place bytes target =>
    have hbytes : limitBytes id m = some bytes := hfresh id (some bytes) rfl
    obtain ⟨limit, hlimit, hread⟩ := Option.map_eq_some_iff.mp hbytes
    obtain ⟨haligned, hle, hsmall⟩ := hwhole
    dsimp only at hsmall
    rw [hlimit, Option.getD_some] at hsmall
    have hpages : (byteToPage bytes).toNat = limit.toNat := by
      have hpage : (4096 : UInt64).toNat = 4096 := rfl
      rw [← hread, byteToPage, pageToByte, UInt64.toNat_div, UInt64.toNat_mul, hpage]
      omega
    simp only [drift, hlimit, Option.getD_some, hpages, if_pos haligned,
      if_neg (UInt64.not_lt.mpr hle)]
    omega
  | launch => rfl
  | spared => rfl
  | readLimit place => rfl
  | readUsage place bytes => rfl
  | resize place bytes target => rfl
  | done pages => rfl

/-- **As long as no two tasks are at the same container, every page that is reported has left a
limit.** -/
theorem reported_of_run {tasks : List PassTask} {p : Pool Manager PassTask}
    (hqueued : m.ec.Queued) (htasks : AllLaunched tasks)
    (hrun : (passes.only (Pool.Careful snapshot Whole)).Run ⟨m, tasks⟩ p) :
    p.shared.ec.totalLimit + total p = m.ec.totalLimit := by
  have hcurrent : Pool.Current snapshot limitBytes ⟨m, tasks⟩ := by
    intro t ht k x hx
    unfold snapshot at hx
    rw [htasks t ht] at hx
    cases hx
  have hkept : p.balance (fun m : Manager => (m.ec.totalLimit : ℤ)) reported = _ :=
    snapshots.balance_of_run (fun _ _ _ _ _ h hstep => h.limits_step hstep)
      (fun _ _ hwhole _ hfresh => drift_of_fresh hwhole hfresh) (htasks.pointed hqueued) hcurrent
      hrun
  exact hkept.trans htasks.balance

/-- One pass is at the first pod while the other one is at the second. -/
theorem reported_of_two_passes :
    ∃ p, (passes.only (Pool.Careful snapshot Whole)).Run ⟨twoPods, twoPasses⟩ p ∧
      (∀ t ∈ p.threads, t.task.Finished) ∧
      (p.shared.ec.totalLimit : ℤ) + total p = twoPods.ec.totalLimit := by
  have hreplay : (((passes.only (Pool.Careful snapshot Whole)).replay
      [0, 1, 2, 1, 2, 1, 2, 1, 2, 1, 2, 3, 3, 3] ⟨twoPods, twoPasses⟩).any fun p =>
        ∀ t ∈ p.threads, t.task.Finished) = true := by
    decide +kernel
  obtain ⟨p, hrun, hp⟩ := System.exists_run_of_replay hreplay
  have hdone := of_decide_eq_true hp
  exact ⟨p, hrun, hdone, reported_of_run queued_twoPods (by decide) hrun⟩

/-! ## Two tasks at one container -/

section Twice

variable {env env' : Env} {clientFd clientFd' : Int} {id : ContainerId} {l : List SubContainer}
  {sc : SubContainer} {p : Pool Manager PassTask} {i : ℕ}

theorem step_of_run {x : M ReclaimPoint} {point : ReclaimPoint}
    (hx : t.task.next? t.env t.clientFd = some x) (hrun : x.run m = .ret point m') :
    t.step m = some (⟨t.env, t.clientFd, ⟨t.task.id, point⟩⟩, m') := by
  have hstep : ReclaimTask.step t.env t.clientFd t.task m = some (⟨t.task.id, point⟩, m') :=
    ReclaimTask.step_eq_some.mpr ⟨x, hx, point, hrun, rfl⟩
  unfold step
  rw [hstep]
  rfl

theorem run_instanceAt (hq : m.ec.subcontainers.lookup id = some (l ++ [sc])) :
    (ReclaimTask.instanceAt id l.length).run m = .ret sc m := by
  unfold ReclaimTask.instanceAt
  rw [run_bind_of_ret run_get, hq]
  dsimp only [Option.bind_some]
  rw [List.getElem?_concat_length]
  rfl

/-- Up to its write a task that has an agent leaves nothing behind. -/
theorem alone_to_writeBack (hq : m.ec.subcontainers.lookup id = some (l ++ [sc]))
    (hfd : sc.fd ≠ clientFd) (hs : m.Shrinks env id sc) :
    Pool.alone step 4 (launched env clientFd id, m) =
      (⟨env, clientFd, ⟨id, .writeBack l.length (pageToByte sc.memLimitInPages)
        (m.resizeTarget env id sc)⟩⟩, m) := by
  obtain ⟨⟨hread, hvalid, hgap⟩, hlinked, hzero⟩ := hs
  obtain ⟨agent, hagent⟩ := Option.ne_none_iff_exists'.mp hlinked
  have hlaunch : (ReclaimTask.launch clientFd id).run m = .ret (.readLimit l.length) m := by
    unfold ReclaimTask.launch
    rw [run_bind_of_ret run_get, hq]
    dsimp only
    rw [List.getLast?_concat]
    dsimp only
    rw [if_neg hfd, List.length_append]
    rfl
  have hlimit : (ReclaimTask.readLimit id l.length).run m =
      .ret (.readUsage l.length (pageToByte sc.memLimitInPages)) m := by
    unfold ReclaimTask.readLimit
    rw [run_bind_of_ret (run_instanceAt hq)]
    rfl
  have husage : (ReclaimTask.readUsage env id l.length (pageToByte sc.memLimitInPages)).run m =
      .ret (.resize l.length (pageToByte sc.memLimitInPages) (m.resizeTarget env id sc)) m := by
    unfold ReclaimTask.readUsage
    rw [run_bind_of_ret (run_instanceAt hq),
      run_bind_of_ret (run_scGetMemoryUsageInBytesCadvisor hagent hread), if_neg hvalid,
      if_pos hgap]
    rfl
  have hresize : (ReclaimTask.resize env id l.length (pageToByte sc.memLimitInPages)
      (m.resizeTarget env id sc)).run m =
      .ret (.writeBack l.length (pageToByte sc.memLimitInPages) (m.resizeTarget env id sc)) m := by
    have hresize := run_scResizeMemoryLimitInPages env hagent
    rw [hzero] at hresize
    have hstatus : (scResizeMemoryLimitInPages env id).run m = .ret 0 m := hresize.trans rfl
    unfold ReclaimTask.resize
    rw [run_bind_of_ret hstatus, if_pos rfl]
    rfl
  rw [Pool.alone_succ (step_of_run rfl hlaunch), Pool.alone_succ (step_of_run rfl hlimit),
    Pool.alone_succ (step_of_run rfl husage), Pool.alone_succ (step_of_run rfl hresize)]
  rfl

/-- The write, whatever the limit has become. -/
theorem step_writeBack {place : ℕ} {bytes target : UInt64}
    (hq : m.ec.subcontainers.lookup id = some (l ++ [sc])) (hid : sc.cId = id)
    (hplace : place = l.length) :
    step ⟨env, clientFd, ⟨id, .writeBack place bytes target⟩⟩ m =
      some (⟨env, clientFd, ⟨id, .done (byteToPage (bytes - target))⟩⟩,
        { m with ec := m.ec.modifyBack id fun sc =>
          sc.setMemLimitInPages (byteToPage target) }) := by
  subst hplace
  refine step_of_run rfl ?_
  unfold ReclaimTask.writeBack scSetMemoryLimitInPages
  have hlookup : (ecGetScForUpdate id).run m = .ret sc m := by
    unfold ecGetScForUpdate
    rw [run_bind_of_ret run_get, hq]
    dsimp only
    rw [List.getLast?_concat]
    rfl
  have hwrite : (do
      let _ ← ecGetScForUpdate id
      Manager.modifyBack id fun sc => sc.setMemLimitInPages (byteToPage target) : M PUnit).run m =
      .ret ⟨⟩ { m with ec := m.ec.modifyBack id fun sc =>
        sc.setMemLimitInPages (byteToPage target) } := (run_bind_of_ret hlookup).trans rfl
  rw [run_bind_of_ret (run_instanceAt hq), hid]
  exact (run_bind_of_ret hwrite).trans rfl

/-- Two writes to one container: the second one writes over what the first one has left. -/
theorem both_write {bytes target target' : UInt64}
    (hq : m.ec.subcontainers.lookup id = some (l ++ [sc])) (hid : sc.cId = id) :
    ∃ m', passes.Run
        ⟨m, [⟨env, clientFd, ⟨id, .writeBack l.length bytes target⟩⟩,
          ⟨env', clientFd', ⟨id, .writeBack l.length bytes target'⟩⟩]⟩
        ⟨m', [⟨env, clientFd, ⟨id, .done (byteToPage (bytes - target))⟩⟩,
          ⟨env', clientFd', ⟨id, .done (byteToPage (bytes - target'))⟩⟩]⟩ ∧
      m.ec.WroteField (·.memLimitInPages) id sc.memLimitInPages (byteToPage target') m'.ec := by
  have hb : m.ec.back? id = some sc := back?_of_lookup hq
  have hwrote := wroteField_modifyBack (g := (·.memLimitInPages))
    (f := fun sc => sc.setMemLimitInPages (byteToPage target)) hb
  have hq₁ : (m.ec.modifyBack id fun sc =>
      sc.setMemLimitInPages (byteToPage target)).subcontainers.lookup id =
      some (l ++ [sc.setMemLimitInPages (byteToPage target)]) := by
    rw [subcontainers_modifyBack hq, AList.lookup_insert]
  generalize hec : (m.ec.modifyBack id fun sc =>
    sc.setMemLimitInPages (byteToPage target)) = ec₁ at hwrote hq₁
  have hfirst : step ⟨env, clientFd, ⟨id, .writeBack l.length bytes target⟩⟩ m = _ :=
    step_writeBack hq hid rfl
  rw [hec] at hfirst
  have hwrote' := wroteField_modifyBack (g := (·.memLimitInPages))
    (f := fun sc => sc.setMemLimitInPages (byteToPage target')) (back?_of_lookup hq₁)
  have hsecond : step ⟨env', clientFd', ⟨id, .writeBack l.length bytes target'⟩⟩
    { m with ec := ec₁ } = _ := step_writeBack hq₁ hid rfl
  refine ⟨_, (Pool.run_of_step (i := 0) rfl hfirst).trans
    (Pool.run_of_step (i := 1) rfl hsecond), ?_, hwrote'.field?, fun id' hne => ?_⟩
  · have hsum := hwrote.sum
    have hsum' := hwrote'.sum
    dsimp only [SubContainer.memLimitInPages_setMemLimitInPages] at hsum hsum' ⊢
    omega
  · exact (hwrote'.others id' hne).trans (hwrote.others id' hne)

/-- **Two passes that shrink one container report it twice.** The container is on neither
requester's socket, and either pass would shrink it. Then both may read the limit before one of them
writes it: both report the pages between this limit and their targets, which have left the
container once. -/
theorem reported_twice (hq : m.ec.subcontainers.lookup id = some (l ++ [sc])) (hid : sc.cId = id)
    (hfd : sc.fd ≠ clientFd) (hfd' : sc.fd ≠ clientFd') (hs : m.Shrinks env id sc)
    (hs' : m.Shrinks env' id sc) :
    ∃ m', passes.Run ⟨m, [launched env clientFd id, launched env' clientFd' id]⟩
        ⟨m', [⟨env, clientFd, ⟨id, .done
            (byteToPage (pageToByte sc.memLimitInPages - m.resizeTarget env id sc))⟩⟩,
          ⟨env', clientFd', ⟨id, .done
            (byteToPage (pageToByte sc.memLimitInPages - m.resizeTarget env' id sc))⟩⟩]⟩ ∧
      limit? m' id = some (byteToPage (m.resizeTarget env' id sc)) ∧
      m'.ec.totalLimit + sc.memLimitInPages.toNat =
        m.ec.totalLimit + (byteToPage (m.resizeTarget env' id sc)).toNat := by
  have hfirst := alone_to_writeBack hq hfd hs
  have hsecond := alone_to_writeBack hq hfd' hs'
  generalize m.resizeTarget env id sc = target at hfirst ⊢
  generalize m.resizeTarget env' id sc = target' at hsecond ⊢
  generalize pageToByte sc.memLimitInPages = bytes at hfirst hsecond ⊢
  -- both come to the write before either makes it
  have hboth : passes.Run ⟨m, [launched env clientFd id, launched env' clientFd' id]⟩
      ⟨m, [⟨env, clientFd, ⟨id, .writeBack l.length bytes target⟩⟩,
        ⟨env', clientFd', ⟨id, .writeBack l.length bytes target'⟩⟩]⟩ :=
    (Pool.run_of_alone_at (i := 0) rfl hfirst).trans (Pool.run_of_alone_at (i := 1) rfl hsecond)
  obtain ⟨m', hwrites, hwrote⟩ : ∃ m', passes.Run
      ⟨m, [⟨env, clientFd, ⟨id, .writeBack l.length bytes target⟩⟩,
        ⟨env', clientFd', ⟨id, .writeBack l.length bytes target'⟩⟩]⟩
      ⟨m', [⟨env, clientFd, ⟨id, .done (byteToPage (bytes - target))⟩⟩,
        ⟨env', clientFd', ⟨id, .done (byteToPage (bytes - target'))⟩⟩]⟩ ∧
      m.ec.WroteField (·.memLimitInPages) id sc.memLimitInPages (byteToPage target') m'.ec :=
    both_write hq hid
  exact ⟨m', hboth.trans hwrites, hwrote.field?, hwrote.sum⟩

theorem reported_twice_in_two_passes :
    ∃ m' p, passes.Run ⟨twoPods, [launched thousandPages 7 ⟨2, node⟩,
        launched thousandPages (-1) ⟨2, node⟩]⟩ ⟨m', p⟩ ∧
      (p.map reported).sum = 92400 ∧ limit? m' ⟨2, node⟩ = some 13800 := by
  have hq : twoPods.ec.subcontainers.lookup ⟨2, node⟩ =
      some ([] ++ [((twoPods.ec.back? ⟨2, node⟩).getD (.new 0 0 0 0 0 0))]) := by
    decide +kernel
  obtain ⟨m', hrun, hlimit, -⟩ := @reported_twice twoPods thousandPages thousandPages 7 (-1)
    ⟨2, node⟩ [] _ hq (by decide +kernel) (by decide +kernel) (by decide +kernel)
    (by decide +kernel) (by decide +kernel)
  exact ⟨m', _, hrun, by decide +kernel, by rw [hlimit]; decide +kernel⟩

end Twice

end PassTask

end EcGcm
