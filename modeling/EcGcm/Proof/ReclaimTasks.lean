import EcGcm.Lib.Threads
import EcGcm.Proof.ReclaimBounds

/-!
# The tasks of a reclaim pass, in any order

`handle_reclaim_memory` walks through an unordered map and starts a task for every container that
is not on the requester's socket. A task has a pointer to the newest instance; it reads the limit
and the docker id through the pointer, makes its two calls, and then looks the container up again
by its id to write the new limit. The tasks overlap in any way.

Here the loop body and everything a task does between two accesses to what is shared are steps of
their own, and the loop bodies need not come before the tasks or in the order of the map. Nothing is
lost by allowing more orders than there are.

Tasks keep to their own container (`reclaimTasks_independent`): under distinct keys there are
distinct queues, the second lookup finds the instance the pointer goes to, and what a lookup of an
agent may leave behind is invisible to all others. So every order comes to what `reclaim` does to
each container by itself (`Settled`), and so does the sequential pass of the model
(`settled_handleReclaimMemory`).
-/

set_option autoImplicit false

namespace EcGcm

open Handler ElasticContainer Manager

/-- Where a task is, and what it has in its local variables. `place` is the pointer: the place of
the instance in its queue. -/
inductive ReclaimPoint
  /-- The loop body. -/
  | launch
  /-- `continue`: the container is on the requester's socket. -/
  | spared
  /-- `subContainer->get_mem_limit_in_pages()`. -/
  | readLimit (place : ℕ)
  | readUsage (place : ℕ) (memLimitBytes : UInt64)
  /-- `sc_resize_memory_limit_in_pages`. -/
  | resize (place : ℕ) (memLimitBytes resizeTargetBytes : UInt64)
  /-- `sc_set_memory_limit_in_pages`. -/
  | writeBack (place : ℕ) (memLimitBytes resizeTargetBytes : UInt64)
  | done (pagesReclaimed : UInt64)
  deriving DecidableEq

/-- How many steps there can be from a point. -/
def ReclaimPoint.rank : ReclaimPoint → ℕ
  | launch => 5
  | spared => 0
  | readLimit _ => 4
  | readUsage _ _ => 3
  | resize _ _ _ => 2
  | writeBack _ _ _ => 1
  | done _ => 0

/-- The task for one entry of the map. -/
structure ReclaimTask where
  id : ContainerId
  point : ReclaimPoint
  deriving DecidableEq

namespace ReclaimTask

/-- What the pointer of a task goes to. -/
def instanceAt (id : ContainerId) (place : ℕ) : M SubContainer := do
  let m ← get
  match (m.ec.subcontainers.lookup id).bind (·[place]?) with
  | none => Handler.halt .undef
  | some sc => pure sc

/-- The loop body: the newest instance is on the requester's socket, or gets a task. -/
def launch (clientFd : Int) (id : ContainerId) : M ReclaimPoint := do
  let m ← get
  match m.ec.subcontainers.lookup id with
  | none => Handler.halt .undef
  | some q =>
    match q.getLast? with
    | none => Handler.halt .undef
    | some sc => pure (if sc.fd = clientFd then .spared else .readLimit (q.length - 1))

def readLimit (id : ContainerId) (place : ℕ) : M ReclaimPoint := do
  let sc ← instanceAt id place
  return .readUsage place (pageToByte sc.memLimitInPages)

def readUsage (env : Env) (id : ContainerId) (place : ℕ) (memLimitBytes : UInt64) :
    M ReclaimPoint := do
  let sc ← instanceAt id place
  let memUsageBytes ← scGetMemoryUsageInBytesCadvisor env id sc.dockerId
  if memUsageBytes = (0 - 1) * 4096 then return .done 0
  if memLimitBytes - memUsageBytes > safeMarginBytes then
    return .resize place memLimitBytes (memUsageBytes + safeMarginBytes)
  else return .done 0

def resize (env : Env) (id : ContainerId) (place : ℕ)
    (memLimitBytes resizeTargetBytes : UInt64) : M ReclaimPoint := do
  let notResized ← scResizeMemoryLimitInPages env id
  if notResized = 0 then return .writeBack place memLimitBytes resizeTargetBytes
  else return .done 0

def writeBack (id : ContainerId) (place : ℕ) (memLimitBytes resizeTargetBytes : UInt64) :
    M ReclaimPoint := do
  let sc ← instanceAt id place
  scSetMemoryLimitInPages sc.cId (byteToPage resizeTargetBytes)
  return .done (byteToPage (memLimitBytes - resizeTargetBytes))

/-- The next step of a task, if it has one. -/
def next? (env : Env) (clientFd : Int) (t : ReclaimTask) : Option (M ReclaimPoint) :=
  match t.point with
  | .launch => some (launch clientFd t.id)
  | .spared => none
  | .readLimit place => some (readLimit t.id place)
  | .readUsage place memLimitBytes => some (readUsage env t.id place memLimitBytes)
  | .resize place memLimitBytes target => some (resize env t.id place memLimitBytes target)
  | .writeBack place memLimitBytes target => some (writeBack t.id place memLimitBytes target)
  | .done _ => none

/-- One step. A step that does not come back has no next state. -/
def step (env : Env) (clientFd : Int) (t : ReclaimTask) (m : Manager) :
    Option (ReclaimTask × Manager) :=
  (t.next? env clientFd).bind fun x =>
    match x.run m with
    | .ret point m' => some ({ t with point := point }, m')
    | .halt _ _ => none

/-- A task that has nothing left to do. -/
def Finished (t : ReclaimTask) : Prop :=
  match t.point with
  | .spared => True
  | .done _ => True
  | _ => False

instance (t : ReclaimTask) : Decidable t.Finished := by
  unfold Finished
  cases t.point <;> infer_instance

/-- What the future of a task holds; an entry that was skipped has none. -/
def pagesReclaimed (t : ReclaimTask) : UInt64 :=
  match t.point with
  | .done pages => pages
  | _ => 0

/-- All orders in which the loop bodies and the tasks can run. -/
abbrev pass (env : Env) (clientFd : Int) : System (Pool Manager ReclaimTask) ℕ :=
  Pool.interleaving (step env clientFd)

/-- The entries of the map, in the order of the loop. -/
def launched (m : Manager) (ids : List ContainerId) : Pool Manager ReclaimTask :=
  ⟨m, ids.map fun id => ⟨id, .launch⟩⟩

/-- `ret` at the end of `handle_reclaim_memory`. -/
def total (p : Pool Manager ReclaimTask) : UInt64 := (p.threads.map pagesReclaimed).sum

/-! ## What every step allows -/

section Keeps

variable {R : Manager → Manager → Prop} [IsPreorder Manager R] {env : Env} {clientFd : Int}
  {t t' : ReclaimTask} {s s' : Manager}

theorem keeps_instanceAt {id : ContainerId} {place : ℕ} : Keeps R (instanceAt id place) := by
  refine keeps_bind keeps_get fun m => ?_
  split
  · exact keeps_halt _
  · exact keeps_pure _

/-- A step is one of a reclaim pass. -/
theorem keeps_next? (h : AllowsReclaim R) : ∀ x ∈ t.next? env clientFd, Keeps R x := by
  obtain ⟨id, point⟩ := t
  intro x hx
  cases point with
  | launch =>
    cases hx
    refine keeps_bind keeps_get fun m => ?_
    split
    · exact keeps_halt _
    · split
      · exact keeps_halt _
      · exact keeps_pure _
  | spared => cases hx
  | readLimit place =>
    cases hx
    exact keeps_bind keeps_instanceAt fun _ => keeps_pure _
  | readUsage place memLimitBytes =>
    cases hx
    refine keeps_bind keeps_instanceAt fun sc => ?_
    refine keeps_bind h.scGetMemoryUsageInBytesCadvisor fun usage => ?_
    exact keeps_ite (keeps_pure _) (keeps_ite (keeps_pure _) (keeps_pure _))
  | resize place memLimitBytes target =>
    cases hx
    refine keeps_bind h.scResizeMemoryLimitInPages fun notResized => ?_
    exact keeps_ite (keeps_pure _) (keeps_pure _)
  | writeBack place memLimitBytes target =>
    cases hx
    refine keeps_bind keeps_instanceAt fun sc => ?_
    exact keeps_bind h.scSetMemoryLimitInPages fun _ => keeps_pure _
  | done pages => cases hx

omit [IsPreorder Manager R] in
theorem finished_of_next? (h : t.next? env clientFd = none) : t.Finished := by
  obtain ⟨id, point⟩ := t
  cases point with
  | spared => trivial
  | done pages => trivial
  | launch => cases h
  | readLimit place => cases h
  | readUsage place memLimitBytes => cases h
  | resize place memLimitBytes target => cases h
  | writeBack place memLimitBytes target => cases h

theorem step_eq_some : step env clientFd t s = some (t', s') ↔
    ∃ x ∈ t.next? env clientFd, ∃ point, x.run s = .ret point s' ∧
      t' = { t with point := point } := by
  unfold step
  rw [Option.bind_eq_some_iff]
  constructor
  · rintro ⟨x, hx, hrun⟩
    cases hret : x.run s with
    | ret point s₁ =>
      rw [hret] at hrun
      cases hrun
      exact ⟨x, hx, point, hret, rfl⟩
    | halt e s₁ =>
      rw [hret] at hrun
      cases hrun
  · rintro ⟨x, hx, point, hret, rfl⟩
    exact ⟨x, hx, by rw [hret]⟩

theorem shared_of_step (h : AllowsReclaim R) (hstep : step env clientFd t s = some (t', s')) :
    R s s' := by
  obtain ⟨x, hx, point, hret, -⟩ := step_eq_some.mp hstep
  have hkeeps := keeps_next? h x hx s
  rw [hret] at hkeeps
  exact hkeeps

end Keeps

/-! ## What a task owns -/

/-- The entry `id` of `m`, whose queue is `l ++ [sc]`: what the queue is while a task is at a
point. -/
inductive At (m : Manager) (env : Env) (clientFd : Int) (id : ContainerId) (l : List SubContainer)
    (sc : SubContainer) : ReclaimPoint → List SubContainer → Prop
  | launch : At m env clientFd id l sc .launch (l ++ [sc])
  | spared (hfd : sc.fd = clientFd) : At m env clientFd id l sc .spared (l ++ [sc])
  | readLimit (hfd : sc.fd ≠ clientFd) :
    At m env clientFd id l sc (.readLimit l.length) (l ++ [sc])
  | readUsage (hfd : sc.fd ≠ clientFd) :
    At m env clientFd id l sc (.readUsage l.length (pageToByte sc.memLimitInPages)) (l ++ [sc])
  | resize (hfd : sc.fd ≠ clientFd) (hr : m.Reclaimable env id sc) :
    At m env clientFd id l sc
      (.resize l.length (pageToByte sc.memLimitInPages) (m.resizeTarget env id sc)) (l ++ [sc])
  | writeBack (hfd : sc.fd ≠ clientFd) (hs : m.Shrinks env id sc) :
    At m env clientFd id l sc
      (.writeBack l.length (pageToByte sc.memLimitInPages) (m.resizeTarget env id sc)) (l ++ [sc])
  | kept (hfd : sc.fd ≠ clientFd) (ha : m.Answered env id sc) (hk : ¬ m.Shrinks env id sc) :
    At m env clientFd id l sc (.done 0) (l ++ [sc])
  | shrunk (hfd : sc.fd ≠ clientFd) (hs : m.Shrinks env id sc) :
    At m env clientFd id l sc
      (.done (byteToPage (pageToByte sc.memLimitInPages - m.resizeTarget env id sc)))
      (l ++ [sc.setMemLimitInPages (byteToPage (m.resizeTarget env id sc))])

/-- What a pass that has been started in `m` keeps of a task. -/
structure TaskInv (m : Manager) (env : Env) (clientFd : Int) (t : ReclaimTask) (s : Manager) :
    Prop where
  quiet : Quiet m s
  point : ∃ l sc q, sc.cId = t.id ∧ m.ec.subcontainers.lookup t.id = some (l ++ [sc]) ∧
    s.ec.subcontainers.lookup t.id = some q ∧ At m env clientFd t.id l sc t.point q

section Steps

variable {m s : Manager} {env : Env} {clientFd : Int} {id : ContainerId} {l : List SubContainer}
  {sc : SubContainer} {E : Halt → Manager → Prop}

theorem wp_instanceAt {Q : SubContainer → Manager → Prop}
    (hq : s.ec.subcontainers.lookup id = some (l ++ [sc])) :
    wp (instanceAt id l.length) Q E s ↔ Q sc s := by
  unfold instanceAt
  rw [wp_bind, wp_get, hq]
  dsimp only [Option.bind_some]
  rw [List.getElem?_concat_length]
  exact Iff.rfl

theorem wp_launch {Q : ReclaimPoint → Manager → Prop}
    (hq : s.ec.subcontainers.lookup id = some (l ++ [sc])) :
    wp (launch clientFd id) Q E s ↔
      Q (if sc.fd = clientFd then .spared else .readLimit l.length) s := by
  unfold launch
  rw [wp_bind, wp_get, hq]
  dsimp only
  rw [List.getLast?_concat, List.length_append]
  exact Iff.rfl

/-- The next point is one of the entry, and other entries are as they were. -/
def Advances (m : Manager) (env : Env) (clientFd : Int) (id : ContainerId) (l : List SubContainer)
    (sc : SubContainer) (s : Manager) (point : ReclaimPoint) (s' : Manager) : Prop :=
  (∀ id', id' ≠ id → s'.ec.subcontainers.lookup id' = s.ec.subcontainers.lookup id') ∧
    ∃ q, s'.ec.subcontainers.lookup id = some q ∧ At m env clientFd id l sc point q

theorem advances_of_frame {s' : Manager} {point : ReclaimPoint} {q : List SubContainer}
    (hq : s.ec.subcontainers.lookup id = some q) (hs : AgentFrame s s')
    (h : At m env clientFd id l sc point q) : Advances m env clientFd id l sc s point s' := by
  unfold Advances
  rw [hs.subcontainers]
  exact ⟨fun _ _ => rfl, q, hq, h⟩

/-- A container that is left alone because of its usage. -/
theorem at_kept_of_usage (hfd : sc.fd ≠ clientFd) (hread : m.ReadsUsage env id sc)
    (hnot : ¬ m.Reclaimable env id sc) : At m env clientFd id l sc (.done 0) (l ++ [sc]) :=
  .kept hfd ⟨hread, fun hr => absurd hr hnot⟩ fun hs => hnot hs.1

theorem wp_readUsage (hquiet : Quiet m s) (hfd : sc.fd ≠ clientFd)
    (hq : s.ec.subcontainers.lookup id = some (l ++ [sc])) :
    wp (readUsage env id l.length (pageToByte sc.memLimitInPages))
      (fun point s' => point.rank < 3 ∧ Advances m env clientFd id l sc s point s')
      (fun _ _ => sc.fd ≠ clientFd ∧ ¬ m.Answered env id sc) s := by
  unfold readUsage
  rw [wp_bind, wp_instanceAt hq, wp_bind]
  refine wp_scGetMemoryUsageInBytesCadvisor (fun _ _ _ hnot => ?_) fun s' hs hread => ?_
  · exact ⟨hfd, fun ha => hnot ((readsUsage_congr hquiet.agent).mpr ha.1)⟩
  rw [readsUsage_congr hquiet.agent] at hread
  rw [usageOf_congr hquiet.agent, wp_ite]
  split
  · rename_i hmark
    refine ⟨Nat.succ_pos _, advances_of_frame hq hs ?_⟩
    exact at_kept_of_usage hfd hread fun hr => absurd hmark hr.2.1
  · rename_i hvalid
    rw [wp_ite]
    split
    · rename_i hgap
      exact ⟨Nat.lt_succ_self _, advances_of_frame hq hs (.resize hfd ⟨hread, hvalid, hgap⟩)⟩
    · rename_i hgap
      refine ⟨Nat.succ_pos _, advances_of_frame hq hs ?_⟩
      exact at_kept_of_usage hfd hread fun hr => absurd hr.2.2 hgap

theorem wp_resize (hquiet : Quiet m s) (hfd : sc.fd ≠ clientFd) (hr : m.Reclaimable env id sc)
    (hq : s.ec.subcontainers.lookup id = some (l ++ [sc])) :
    wp (resize env id l.length (pageToByte sc.memLimitInPages) (m.resizeTarget env id sc))
      (fun point s' => point.rank < 2 ∧ Advances m env clientFd id l sc s point s')
      (fun _ _ => sc.fd ≠ clientFd ∧ ¬ m.Answered env id sc) s := by
  unfold resize
  rw [wp_bind]
  refine wp_scResizeMemoryLimitInPages (fun _ _ _ hnot => ?_)
    (fun s' status hs hagent hstatus => ?_)
  · refine ⟨hfd, fun ha => hnot ?_⟩
    rw [hquiet.agent]
    exact ha.2 hr
  · rw [hquiet.agent] at hagent
    have ha : m.Answered env id sc :=
      ⟨hr.1, fun _ => ⟨Option.isSome_iff_ne_none.mpr hagent, by rw [hstatus]; rfl⟩⟩
    rw [wp_ite]
    split
    · rename_i hzero
      have hs' : m.Shrinks env id sc := ⟨hr, hagent, hstatus.trans (congrArg some hzero)⟩
      exact ⟨Nat.lt_succ_self _, advances_of_frame hq hs (.writeBack hfd hs')⟩
    · rename_i hfailed
      refine ⟨Nat.succ_pos _, advances_of_frame hq hs (.kept hfd ha fun hs' => hfailed ?_)⟩
      exact Option.some.inj (hstatus.symm.trans hs'.2.2)

/-- The second lookup finds the instance the pointer goes to, because it has the key of its queue
as its own id. -/
theorem wp_writeBack (hid : sc.cId = id) (hfd : sc.fd ≠ clientFd) (hs : m.Shrinks env id sc)
    (hq : s.ec.subcontainers.lookup id = some (l ++ [sc])) :
    wp (writeBack id l.length (pageToByte sc.memLimitInPages) (m.resizeTarget env id sc))
      (fun point s' => point.rank < 1 ∧ Advances m env clientFd id l sc s point s') E s := by
  unfold writeBack scSetMemoryLimitInPages
  rw [wp_bind, wp_instanceAt hq, wp_bind, hid, wp_bind, wp_ecGetScForUpdate (back?_of_lookup hq)]
  refine ⟨Nat.succ_pos _, fun id' hne => lookup_modifyBack_ne hne, _, ?_, .shrunk hfd hs⟩
  show (s.ec.modifyBack id _).subcontainers.lookup id = _
  rw [subcontainers_modifyBack hq, AList.lookup_insert]

/-- The step lemma of one task. -/
theorem wp_next {t : ReclaimTask} {x : M ReclaimPoint} {q : List SubContainer}
    (hquiet : Quiet m s) (hid : sc.cId = t.id) (hq : s.ec.subcontainers.lookup t.id = some q)
    (hat : At m env clientFd t.id l sc t.point q) (hx : x ∈ t.next? env clientFd) :
    wp x (fun point s' => point.rank < t.point.rank ∧ Advances m env clientFd t.id l sc s point s')
      (fun _ _ => sc.fd ≠ clientFd ∧ ¬ m.Answered env t.id sc) s := by
  obtain ⟨id, point⟩ := t
  unfold next? at hx
  dsimp only at hid hq hat hx ⊢
  cases hat with
  | launch =>
    cases hx
    rw [wp_launch hq]
    split
    · rename_i hfd
      exact ⟨Nat.succ_pos _, advances_of_frame hq (.refl s) (.spared hfd)⟩
    · rename_i hfd
      exact ⟨Nat.lt_succ_self _, advances_of_frame hq (.refl s) (.readLimit hfd)⟩
  | readLimit hfd =>
    cases hx
    unfold readLimit
    rw [wp_bind, wp_instanceAt hq]
    exact ⟨Nat.lt_succ_self _, advances_of_frame hq (.refl s) (.readUsage hfd)⟩
  | readUsage hfd =>
    cases hx
    exact wp_readUsage hquiet hfd hq
  | resize hfd hr =>
    cases hx
    exact wp_resize hquiet hfd hr hq
  | writeBack hfd hs =>
    cases hx
    exact wp_writeBack hid hfd hs hq
  | spared => cases hx
  | kept => cases hx
  | shrunk => cases hx

end Steps

/-! ## The tasks are independent -/

section Pass

variable {m s s' : Manager} {env : Env} {clientFd : Int} {t t' : ReclaimTask}

theorem TaskInv.step (h : TaskInv m env clientFd t s)
    (hstep : step env clientFd t s = some (t', s')) :
    TaskInv m env clientFd t' s' ∧ t'.point.rank < t.point.rank ∧ ∀ id, id ≠ t.id →
      s'.ec.subcontainers.lookup id = s.ec.subcontainers.lookup id := by
  have hquiet : Quiet s s' := shared_of_step quiet_mem.toAllowsReclaim hstep
  obtain ⟨x, hx, point, hret, rfl⟩ := step_eq_some.mp hstep
  obtain ⟨l, sc, q, hid, hm, hq, hat⟩ := h.point
  obtain ⟨hless, hothers, q', hq', hat'⟩ := (wp_of_run hret).mp (wp_next h.quiet hid hq hat hx)
  exact ⟨⟨trans_of Quiet h.quiet hquiet, l, sc, q', hid, hm, hq', hat'⟩, hless, hothers⟩

theorem reclaimTasks_independent :
    Pool.Independent (step env clientFd) ReclaimTask.id (TaskInv m env clientFd) where
  keeps_key hstep := by
    obtain ⟨x, hx, point, hret, rfl⟩ := step_eq_some.mp hstep
    rfl
  own h hstep := (h.step hstep).1
  others {t s t' s' u} h hstep hne hu := by
    obtain ⟨l, sc, q, hid, hm, hq, hat⟩ := hu.point
    refine ⟨trans_of Quiet hu.quiet (shared_of_step quiet_mem.toAllowsReclaim hstep), l, sc, q, hid,
      hm, ?_, hat⟩
    rw [(h.step hstep).2.2 u.id hne]
    exact hq

/-- A task that is not at its end can move, unless it gets no answer. -/
theorem TaskInv.exists_step (h : TaskInv m env clientFd t s) (hnot : ¬ t.Finished)
    (hanswer : ∀ sc, m.ec.back? t.id = some sc → sc.fd ≠ clientFd → m.Answered env t.id sc) :
    ∃ r, ReclaimTask.step env clientFd t s = some r := by
  obtain ⟨l, sc, q, hid, hm, hq, hat⟩ := h.point
  unfold ReclaimTask.step
  cases hx : t.next? env clientFd with
  | none => exact absurd (finished_of_next? hx) hnot
  | some x =>
    have hwp := wp_next h.quiet hid hq hat hx
    unfold wp at hwp
    rw [Option.bind_some]
    cases hrun : x.run s with
    | ret point s' => exact ⟨_, rfl⟩
    | halt e s' =>
      rw [hrun] at hwp
      exact absurd (hanswer sc (back?_of_lookup hm) hwp.1) hwp.2

/-! ## What every order comes to -/

/-- What `reclaim` reports for a container when nothing else happens. -/
def reported (m : Manager) (env : Env) (id : ContainerId) : UInt64 :=
  (m.ec.back? id).elim 0 fun sc => ((reclaim env id sc).run m).result.getD 0

/-- The newest instance is not on the requester's socket. -/
def isOther (m : Manager) (clientFd : Int) (id : ContainerId) : Bool :=
  (m.ec.back? id).any fun sc => sc.fd ≠ clientFd

/-- The result of a pass and the state it leaves, one container at a time. -/
structure Settled (m : Manager) (env : Env) (clientFd : Int) (total : UInt64) (s : Manager) :
    Prop where
  spared : ∀ id sc, m.ec.back? id = some sc → sc.fd = clientFd →
    s.ec.subcontainers.lookup id = m.ec.subcontainers.lookup id
  reclaimed : ∀ id sc, m.ec.back? id = some sc → sc.fd ≠ clientFd →
    s.ec.subcontainers.lookup id = ((reclaim env id sc).run m).state.ec.subcontainers.lookup id
  absent : ∀ id, m.ec.subcontainers.lookup id = none → s.ec.subcontainers.lookup id = none
  total : total = ((m.ec.subcontainers.keys.filter (isOther m clientFd)).map (reported m env)).sum

/-- What has become of one entry that adds `pages` to the total. -/
inductive SettledAt (m : Manager) (env : Env) (clientFd : Int) (id : ContainerId) :
    UInt64 → Manager → Prop
  | spared {s : Manager} (sc : SubContainer) (hb : m.ec.back? id = some sc)
    (hfd : sc.fd = clientFd)
    (hq : s.ec.subcontainers.lookup id = m.ec.subcontainers.lookup id) :
    SettledAt m env clientFd id 0 s
  | reclaimed {s : Manager} (sc : SubContainer) (hb : m.ec.back? id = some sc)
    (hfd : sc.fd ≠ clientFd) (hq : s.ec.subcontainers.lookup id =
      ((reclaim env id sc).run m).state.ec.subcontainers.lookup id) :
    SettledAt m env clientFd id (reported m env id) s

variable {id : ContainerId} {l q : List SubContainer} {sc : SubContainer} {pages : UInt64}

/-- A task that is done has done what `reclaim` does by itself. -/
theorem reclaim_of_done (hid : sc.cId = id)
    (hm : m.ec.subcontainers.lookup id = some (l ++ [sc]))
    (hat : At m env clientFd id l sc (.done pages) q) :
    ∃ m', (reclaim env id sc).run m = .ret pages m' ∧
      m'.ec.subcontainers.lookup id = some q := by
  suffices h : wp (reclaim env id sc) (fun freed m' => freed = pages ∧
      m'.ec.subcontainers.lookup id = some q) (fun _ _ => False) m by
    obtain ⟨freed, m', hrun, rfl, hq⟩ := wp_total.mp h
    exact ⟨m', hrun, hq⟩
  cases hat with
  | kept hfd ha hk =>
    refine wp_reclaim (back?_of_lookup hm) hid (fun m' hm' _ _ => ?_)
      (fun _ _ _ hnot => hnot ha) (fun _ _ hs => absurd hs hk)
    rw [hm'.subcontainers]
    exact ⟨rfl, hm⟩
  | shrunk hfd hs =>
    refine wp_reclaim (back?_of_lookup hm) hid (fun _ _ _ hkept => absurd hs hkept)
      (fun _ _ _ hnot => hnot hs.answered) (fun m' hm' _ => ⟨rfl, ?_⟩)
    rw [← hm'.subcontainers] at hm
    show (m'.ec.modifyBack id _).subcontainers.lookup id = _
    rw [subcontainers_modifyBack hm, AList.lookup_insert]

theorem settledAt_of_done (hid : sc.cId = id)
    (hm : m.ec.subcontainers.lookup id = some (l ++ [sc])) (hfd : sc.fd ≠ clientFd)
    (hat : At m env clientFd id l sc (.done pages) q)
    (hq : s.ec.subcontainers.lookup id = some q) : SettledAt m env clientFd id pages s := by
  obtain ⟨m', hrun, hq'⟩ := reclaim_of_done hid hm hat
  have hb := back?_of_lookup hm
  have hpages : reported m env id = pages := by
    unfold reported
    rw [hb, Option.elim_some, hrun]
    rfl
  rw [← hpages]
  refine .reclaimed sc hb hfd ?_
  rw [hrun, hq]
  exact hq'.symm

/-- Where a finished task is: it has skipped its container, or is done with it. -/
theorem TaskInv.ended (h : TaskInv m env clientFd t s) (hend : t.Finished) :
    ∃ l sc q, sc.cId = t.id ∧ m.ec.subcontainers.lookup t.id = some (l ++ [sc]) ∧
      s.ec.subcontainers.lookup t.id = some q ∧
      (sc.fd = clientFd ∧ t.pagesReclaimed = 0 ∧ q = l ++ [sc] ∨
        sc.fd ≠ clientFd ∧ At m env clientFd t.id l sc (.done t.pagesReclaimed) q) := by
  obtain ⟨id, point⟩ := t
  obtain ⟨l, sc, q, hid, hm, hq, hat⟩ := h.point
  dsimp only at hid hm hq hat ⊢
  refine ⟨l, sc, q, hid, hm, hq, ?_⟩
  cases hat with
  | spared hfd => exact .inl ⟨hfd, rfl, rfl⟩
  | kept hfd ha hk => exact .inr ⟨hfd, .kept hfd ha hk⟩
  | shrunk hfd hs => exact .inr ⟨hfd, .shrunk hfd hs⟩
  | launch => exact hend.elim
  | readLimit => exact hend.elim
  | readUsage => exact hend.elim
  | resize => exact hend.elim
  | writeBack => exact hend.elim

theorem TaskInv.settledAt (h : TaskInv m env clientFd t s) (hend : t.Finished) :
    SettledAt m env clientFd t.id t.pagesReclaimed s := by
  obtain ⟨l, sc, q, hid, hm, hq, ⟨hfd, hpages, rfl⟩ | ⟨hfd, hat⟩⟩ := h.ended hend
  · rw [hpages]
    exact .spared sc (back?_of_lookup hm) hfd (hq.trans hm.symm)
  · exact settledAt_of_done hid hm hfd hat hq

/-- A finished task has got its answers. -/
theorem TaskInv.served (h : TaskInv m env clientFd t s) (hend : t.Finished) {sc : SubContainer}
    (hb : m.ec.back? t.id = some sc) (hfd : sc.fd ≠ clientFd) : m.Answered env t.id sc := by
  obtain ⟨l, sc', q, hid, hm, hq, hcase⟩ := h.ended hend
  obtain rfl := Option.some.inj (hb.symm.trans (back?_of_lookup hm))
  obtain ⟨hsame, -, -⟩ | ⟨-, hat⟩ := hcase
  · exact absurd hsame hfd
  · generalize t.pagesReclaimed = pages at hat
    cases hat with
    | kept _ ha _ => exact ha
    | shrunk _ hs => exact hs.answered

/-- What an entry adds to the total. -/
def contribution (m : Manager) (env : Env) (clientFd : Int) (id : ContainerId) : UInt64 :=
  if isOther m clientFd id then reported m env id else 0

theorem SettledAt.pages_eq (h : SettledAt m env clientFd id pages s) :
    pages = contribution m env clientFd id := by
  unfold contribution isOther
  cases h with
  | spared sc hb hfd hq =>
    rw [hb, Option.any_some, hfd]
    simp only [ne_eq, not_true_eq_false, decide_false, Bool.false_eq_true, if_false]
  | reclaimed sc hb hfd hq =>
    rw [hb, Option.any_some]
    simp only [ne_eq, hfd, not_false_eq_true, decide_true, if_true]

theorem SettledAt.congr (h : SettledAt m env clientFd id pages s)
    (hs : s'.ec.subcontainers.lookup id = s.ec.subcontainers.lookup id) :
    SettledAt m env clientFd id pages s' := by
  cases h with
  | spared sc hb hfd hq => exact .spared sc hb hfd (hs.trans hq)
  | reclaimed sc hb hfd hq => exact .reclaimed sc hb hfd (hs.trans hq)

variable {ids : List ContainerId}

/-- Words can be added up in any order. -/
theorem sum_contribution (hids : ids.Perm m.ec.subcontainers.keys) :
    (ids.map (contribution m env clientFd)).sum =
      ((m.ec.subcontainers.keys.filter (isOther m clientFd)).map (reported m env)).sum := by
  have hsplit := List.sum_map_ite (fun id => isOther m clientFd id = true) (reported m env)
    (fun _ => 0) m.ec.subcontainers.keys
  rw [List.sum_map_zero, add_zero] at hsplit
  have hbool : (m.ec.subcontainers.keys.filter fun id => decide (isOther m clientFd id = true)) =
      m.ec.subcontainers.keys.filter (isOther m clientFd) :=
    List.filter_congr fun _ _ => Bool.decide_eq_true
  rw [hbool] at hsplit
  exact (hids.map _).sum_eq.trans hsplit

/-- The pass is settled when each entry is. -/
theorem settled_of_each {total : UInt64} (hids : ids.Perm m.ec.subcontainers.keys)
    (hquiet : Quiet m s) (heach : ∀ id ∈ ids, ∃ pages, SettledAt m env clientFd id pages s)
    (htotal : total = (ids.map (contribution m env clientFd)).sum) :
    Settled m env clientFd total s := by
  have hat : ∀ id sc, m.ec.back? id = some sc → ∃ pages, SettledAt m env clientFd id pages s := by
    intro id sc hb
    obtain ⟨l, hl⟩ := lookup_of_back? hb
    exact heach id (hids.mem_iff.mpr (UnorderedMap.mem_keys_iff_lookup.mpr ⟨_, hl⟩))
  refine ⟨fun id sc hb hfd => ?_, fun id sc hb hfd => ?_, fun id hnone => ?_,
    htotal.trans (sum_contribution hids)⟩
  · obtain ⟨pages, h⟩ := hat id sc hb
    cases h with
    | spared _ _ _ hq => exact hq
    | reclaimed sc' hb' hfd' _ =>
      obtain rfl := Option.some.inj (hb.symm.trans hb')
      exact absurd hfd hfd'
  · obtain ⟨pages, h⟩ := hat id sc hb
    cases h with
    | spared sc' hb' hfd' _ =>
      obtain rfl := Option.some.inj (hb.symm.trans hb')
      exact absurd hfd' hfd
    | reclaimed sc' hb' _ hq =>
      obtain rfl := Option.some.inj (hb.symm.trans hb')
      exact hq
  · have hshape := congrFun hquiet.shape id
    unfold shape at hshape
    rw [hnone, Option.map_none, Option.map_eq_none_iff] at hshape
    exact hshape

/-! ## One container after the other -/

/-- `reclaim` from a state a pass may be in, in one piece. -/
theorem wp_reclaim_at (hquiet : Quiet m s) (hid : sc.cId = id) (hfd : sc.fd ≠ clientFd)
    (hq : s.ec.subcontainers.lookup id = some (l ++ [sc])) :
    wp (reclaim env id sc)
      (fun freed s' => Quiet m s' ∧ Advances m env clientFd id l sc s (.done freed) s')
      (fun _ _ => ¬ m.Answered env id sc) s := by
  refine wp_reclaim (back?_of_lookup hq) hid (fun s' hs ha hk => ?_) (fun _ _ _ hnot => ?_)
    (fun s' hs hshrinks => ?_)
  · rw [answered_congr hquiet.agent] at ha
    rw [shrinks_congr hquiet.agent] at hk
    exact ⟨trans_of Quiet hquiet hs.quiet, advances_of_frame hq hs (.kept hfd ha hk)⟩
  · rw [answered_congr hquiet.agent] at hnot
    exact hnot
  · rw [shrinks_congr hquiet.agent] at hshrinks
    rw [resizeTarget_congr hquiet.agent]
    rw [← hs.subcontainers] at hq
    refine ⟨trans_of Quiet (trans_of Quiet hquiet hs.quiet) quiet_mem.limit, fun id' hne => ?_, _,
      ?_, .shrunk hfd hshrinks⟩
    · rw [← hs.subcontainers]
      exact lookup_modifyBack_ne hne
    · show (s'.ec.modifyBack id _).subcontainers.lookup id = _
      rw [subcontainers_modifyBack hq, AList.lookup_insert]

/-- What a pass over `ids` makes of `s`, and the total it returns. -/
structure SettledOver (m : Manager) (env : Env) (clientFd : Int) (ids : List ContainerId)
    (s : Manager) (total : UInt64) (s' : Manager) : Prop where
  quiet : Quiet m s'
  total : total = (ids.map (contribution m env clientFd)).sum
  each : ∀ id ∈ ids, ∃ pages, SettledAt m env clientFd id pages s'
  frame : ∀ id, id ∉ ids → s'.ec.subcontainers.lookup id = s.ec.subcontainers.lookup id

/-- One container, then the rest. -/
theorem SettledOver.cons {rest : List ContainerId} {r : UInt64} {t t' : Manager}
    (hnew : id ∉ rest) (hat : SettledAt m env clientFd id pages t)
    (hothers : ∀ id', id' ≠ id → t.ec.subcontainers.lookup id' = s.ec.subcontainers.lookup id')
    (h : SettledOver m env clientFd rest t r t') :
    SettledOver m env clientFd (id :: rest) s (pages + r) t' where
  quiet := h.quiet
  total := by rw [List.map_cons, List.sum_cons, hat.pages_eq, h.total]
  each id' hid' := by
    rcases List.mem_cons.mp hid' with rfl | hmem
    · exact ⟨pages, hat.congr (h.frame id' hnew)⟩
    · exact h.each id' hmem
  frame id' hid' := by
    obtain ⟨hne, hmem⟩ := List.ne_and_not_mem_of_not_mem_cons hid'
    exact (h.frame id' hmem).trans (hothers id' hne)

theorem wp_reclaimFrom_settledOver (hm : m.ec.Queued) (hnodup : ids.Nodup)
    (hkeys : ∀ id ∈ ids, id ∈ m.ec.subcontainers.keys) (hquiet : Quiet m s)
    (hsame : ∀ id ∈ ids, s.ec.subcontainers.lookup id = m.ec.subcontainers.lookup id) :
    wp (reclaimFrom env (fun sc => sc.fd = clientFd) ids) (SettledOver m env clientFd ids s)
      (fun _ _ => ¬ Served m env clientFd) s := by
  induction ids generalizing s with
  | nil => exact ⟨hquiet, rfl, fun id hid => absurd hid List.not_mem_nil, fun _ _ => rfl⟩
  | cons id rest ih =>
    obtain ⟨hnew, hrest⟩ := List.nodup_cons.mp hnodup
    obtain ⟨q, hq⟩ := UnorderedMap.mem_keys_iff_lookup.mp (hkeys id List.mem_cons_self)
    obtain ⟨sc, hb⟩ := hm.back hq
    obtain ⟨l, hl⟩ := lookup_of_back? hb
    have hs := (hsame id List.mem_cons_self).trans hl
    have hbs := back?_of_lookup hs
    -- the rest of the pass, once `id` has been settled and the others have been left alone
    have hafter : ∀ pages t, Quiet m t → SettledAt m env clientFd id pages t →
        (∀ id', id' ≠ id → t.ec.subcontainers.lookup id' = s.ec.subcontainers.lookup id') →
        wp (reclaimFrom env (fun sc => sc.fd = clientFd) rest)
          (fun r => SettledOver m env clientFd (id :: rest) s (pages + r))
          (fun _ _ => ¬ Served m env clientFd) t := by
      intro pages t ht hat hothers
      have hsame' : ∀ id' ∈ rest,
          t.ec.subcontainers.lookup id' = m.ec.subcontainers.lookup id' := by
        intro id' hid'
        rw [hothers id' fun heq => hnew (heq ▸ hid')]
        exact hsame id' (List.mem_cons_of_mem _ hid')
      have hpass := ih hrest (fun id' hid' => hkeys id' (List.mem_cons_of_mem _ hid')) ht hsame'
      exact wp_mono_ret hpass fun r t' h => h.cons hnew hat hothers
    refine wp_reclaimFrom_cons (fun hnone => ?_) (fun sc' hb' hk => ?_) (fun sc' hb' hk => ?_)
    · rw [hbs] at hnone
      cases hnone
    · obtain rfl := Option.some.inj (hbs.symm.trans hb')
      have hspared : SettledAt m env clientFd id 0 s :=
        .spared sc hb (of_decide_eq_true hk) (hsame id List.mem_cons_self)
      refine wp_mono_ret (hafter 0 s hquiet hspared fun _ _ => rfl) fun r t' h => ?_
      rw [UInt64.zero_add] at h
      exact h
    · obtain rfl := Option.some.inj (hbs.symm.trans hb')
      have hfd := of_decide_eq_false hk
      have hid := hm.cId_of_back hb
      refine wp_mono (wp_reclaim_at hquiet hid hfd hs) (fun freed t h => ?_)
        (fun _ _ he hserved => he (hserved id sc hb hfd))
      obtain ⟨ht, hothers, q', hq', hat⟩ := h
      exact hafter freed t ht (settledAt_of_done hid hl hfd hat hq') hothers

theorem perm_keys_nodup (hids : ids.Perm m.ec.subcontainers.keys) : ids.Nodup :=
  hids.nodup_iff.mpr (AList.keys_nodup m.ec.subcontainers)

/-- The sequential pass of the model comes to what every order comes to. -/
theorem settled_handleReclaimMemory (hm : m.ec.Queued) :
    wp (handleReclaimMemory env clientFd) (Settled m env clientFd)
      (fun _ _ => ¬ Served m env clientFd) m := by
  have hnodup : m.ec.subcontainers.keys.Nodup := AList.keys_nodup m.ec.subcontainers
  have hover : wp (reclaimFrom env (fun sc => sc.fd = clientFd) m.ec.subcontainers.keys)
      (SettledOver m env clientFd m.ec.subcontainers.keys m)
      (fun _ _ => ¬ Served m env clientFd) m :=
    wp_reclaimFrom_settledOver hm hnodup (fun _ hid => hid) (refl_of Quiet m) fun _ _ => rfl
  refine wp_handleReclaimMemory (wp_mono_ret hover fun total s' h => ?_)
  exact settled_of_each (.refl _) h.quiet h.each h.total

/-! ## Runs -/

variable {p p' : Pool Manager ReclaimTask}

/-- Before the first step. -/
theorem taskInv_launched (hm : m.ec.Queued) (hids : ids.Perm m.ec.subcontainers.keys) :
    ∀ t ∈ (launched m ids).threads, TaskInv m env clientFd t m := by
  intro t ht
  obtain ⟨id, hid, rfl⟩ := List.mem_map.mp ht
  obtain ⟨q, hq⟩ := UnorderedMap.mem_keys_iff_lookup.mp (hids.mem_iff.mp hid)
  obtain ⟨sc, hb⟩ := hm.back hq
  obtain ⟨l, hl⟩ := lookup_of_back? hb
  exact ⟨refl_of Quiet m, l, sc, _, hm.cId_of_back hb, hl, hl, .launch⟩

theorem map_id_launched : (launched m ids).threads.map ReclaimTask.id = ids := by
  unfold launched
  dsimp only
  rw [List.map_map]
  exact List.map_id ids

/-- Along a run, every entry has its task, and every task keeps its invariant. -/
theorem taskInv_of_run (hm : m.ec.Queued) (hids : ids.Perm m.ec.subcontainers.keys)
    (hrun : (pass env clientFd).Run (launched m ids) p) :
    p.threads.map ReclaimTask.id = ids ∧ ∀ t ∈ p.threads, TaskInv m env clientFd t p.shared := by
  have hnodup : ((launched m ids).threads.map ReclaimTask.id).Nodup := by
    rw [map_id_launched]
    exact perm_keys_nodup hids
  have h := reclaimTasks_independent.each_of_run hnodup (taskInv_launched hm hids) hrun
  rw [map_id_launched] at h
  exact h

theorem settled_of_run (hm : m.ec.Queued) (hids : ids.Perm m.ec.subcontainers.keys)
    (hrun : (pass env clientFd).Run (launched m ids) p) (hend : ∀ t ∈ p.threads, t.Finished) :
    Settled m env clientFd (total p) p.shared := by
  obtain ⟨hkeys, hinv⟩ := taskInv_of_run hm hids hrun
  have hquiet : Quiet m p.shared :=
    Pool.shared_of_run (R := Quiet)
      (fun hstep => shared_of_step quiet_mem.toAllowsReclaim hstep) hrun
  refine settled_of_each hids hquiet (fun id hid => ?_) ?_
  · rw [← hkeys] at hid
    obtain ⟨t, ht, rfl⟩ := List.mem_map.mp hid
    exact ⟨_, (hinv t ht).settledAt (hend t ht)⟩
  · rw [← hkeys, List.map_map]
    unfold total
    refine congrArg List.sum (List.map_congr_left fun t ht => ?_)
    exact ((hinv t ht).settledAt (hend t ht)).pages_eq

theorem served_of_run (hm : m.ec.Queued) (hids : ids.Perm m.ec.subcontainers.keys)
    (hrun : (pass env clientFd).Run (launched m ids) p) (hend : ∀ t ∈ p.threads, t.Finished) :
    Served m env clientFd := by
  obtain ⟨hkeys, hinv⟩ := taskInv_of_run hm hids hrun
  intro id sc hb hfd
  obtain ⟨l, hl⟩ := lookup_of_back? hb
  have hid : id ∈ ids := hids.mem_iff.mpr (UnorderedMap.mem_keys_iff_lookup.mpr ⟨_, hl⟩)
  rw [← hkeys] at hid
  obtain ⟨t, ht, rfl⟩ := List.mem_map.mp hid
  exact (hinv t ht).served (hend t ht) hb hfd

/-- Where everybody is answered, every run can be brought to its end. -/
theorem exists_run_to_end (hm : m.ec.Queued) (hids : ids.Perm m.ec.subcontainers.keys)
    (hserved : Served m env clientFd) (hrun : (pass env clientFd).Run (launched m ids) p) :
    ∃ p', (pass env clientFd).Run p p' ∧ ∀ t ∈ p'.threads, t.Finished := by
  obtain ⟨hkeys, hinv⟩ := taskInv_of_run hm hids hrun
  refine reclaimTasks_independent.exists_run_to_end (fun t => t.point.rank)
    (fun h hstep => (h.step hstep).2.1)
    (fun h hnot => h.exists_step hnot fun sc hb => hserved _ sc hb) ?_ hinv
  rw [hkeys]
  exact perm_keys_nodup hids

/-- `p` is where a pass over the map ends, in some order of the loop and of the tasks. -/
def PassEnds (m : Manager) (env : Env) (clientFd : Int) (p : Pool Manager ReclaimTask) : Prop :=
  ∃ ids : List ContainerId, ids.Perm m.ec.subcontainers.keys ∧
    (pass env clientFd).Run (launched m ids) p ∧ ∀ t ∈ p.threads, t.Finished

/-- Settled states of one pass have the same queues. -/
theorem Settled.lookup_eq {total total' : UInt64} (hm : m.ec.Queued)
    (h : Settled m env clientFd total s) (h' : Settled m env clientFd total' s')
    (id : ContainerId) : s.ec.subcontainers.lookup id = s'.ec.subcontainers.lookup id := by
  cases hq : m.ec.subcontainers.lookup id with
  | none => rw [h.absent id hq, h'.absent id hq]
  | some q =>
    obtain ⟨sc, hb⟩ := hm.back hq
    by_cases hfd : sc.fd = clientFd
    · rw [h.spared id sc hb hfd, h'.spared id sc hb hfd]
    · rw [h.reclaimed id sc hb hfd, h'.reclaimed id sc hb hfd]

/-- **A reclaim pass does not depend on the order.** Whatever the iteration order and however the
tasks overlap, an end of the pass has the total and the queues that `reclaim` by itself gives, and
unless a task gets no answer, every run comes to an end. `Queued` holds in every reachable state. -/
theorem reclaim_order_independent (hm : m.ec.Queued) (env : Env) (clientFd : Int) :
    (∀ p, PassEnds m env clientFd p → Settled m env clientFd (total p) p.shared) ∧
    (∀ p p', PassEnds m env clientFd p → PassEnds m env clientFd p' → total p = total p' ∧
      ∀ id, p.shared.ec.subcontainers.lookup id = p'.shared.ec.subcontainers.lookup id) ∧
    (∀ ids : List ContainerId, ids.Perm m.ec.subcontainers.keys →
      ∀ p, (pass env clientFd).Run (launched m ids) p →
        ((∃ p', (pass env clientFd).Run p p' ∧ ∀ t ∈ p'.threads, t.Finished) ↔
          Served m env clientFd)) := by
  have hsettled : ∀ p, PassEnds m env clientFd p →
      Settled m env clientFd (total p) p.shared := by
    rintro p ⟨ids, hids, hrun, hend⟩
    exact settled_of_run hm hids hrun hend
  refine ⟨hsettled, fun p p' hp hp' => ⟨?_, ?_⟩, fun ids hids p hrun => ⟨?_, ?_⟩⟩
  · rw [(hsettled p hp).total, (hsettled p' hp').total]
  · exact (hsettled p hp).lookup_eq hm (hsettled p' hp')
  · rintro ⟨p', hrun', hend⟩
    exact served_of_run hm hids (hrun.trans hrun') hend
  · exact fun hserved => exists_run_to_end hm hids hserved hrun

/-- Two containers with limits of 100 MiB, and a third that has just connected. -/
def threeContainers : List Event :=
  [.appSpec ⟨1000, 200⟩, connect 1 8, .podSpec (specOf 1 "a"),
    .memLimit (.uniform 0 0 0 0 104857600) ⟨1, node⟩ 8, connect 2 9, .podSpec (specOf 2 "b"),
    .memLimit (.uniform 0 0 0 0 104857600) ⟨2, node⟩ 9, connect 3 10]

/-- A pass for the third container, in the reverse of the map's order and with tasks that overlap:
each of the others gives up 12700 pages. -/
theorem reclaim_order_independent_of_overlap :
    ∃ m p, gcm.Run (.new oneAgent) m ∧ PassEnds m (.uniform 0 0 0 409600 0) 10 p ∧
      total p = 25400 ∧ Settled m (.uniform 0 0 0 409600 0) 10 (total p) p.shared := by
  have hreplay : ((gcm.replay threeContainers (.new oneAgent)).any fun m =>
      ((pass (.uniform 0 0 0 409600 0) 10).replay [2, 1, 0, 1, 0, 0, 1, 1, 1, 0, 0]
        (launched m m.ec.subcontainers.keys.reverse)).any fun p =>
          decide ((∀ t ∈ p.threads, t.Finished) ∧ total p = 25400)) = true := by
    decide +kernel
  obtain ⟨m, hrun, htest⟩ := System.exists_run_of_replay hreplay
  obtain ⟨p, hpass, hend⟩ := System.exists_run_of_replay htest
  obtain ⟨hfinished, htotal⟩ := of_decide_eq_true hend
  have hends : PassEnds m (.uniform 0 0 0 409600 0) 10 p :=
    ⟨_, List.reverse_perm _, hpass, hfinished⟩
  exact ⟨m, p, hrun, hends, htotal,
    (reclaim_order_independent (queued_of_run hrun) _ 10).1 p hends⟩

end Pass

end ReclaimTask

end EcGcm
