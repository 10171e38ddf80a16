import EcGcm.Lib.Snapshots
import EcGcm.Proof.CpuThreads
import EcGcm.Proof.Fields

/-!
# Reports and idle sweeps that overlap

The UDP thread handles reports while another thread sweeps; `cpulock` is commented out, so nothing
keeps the two apart. Both read the quota of a container, push a new one, move the counters by the
difference and write the quota they have pushed. Here every call of an accessor, of the counters or
of a container, is a step of its own, and so is every reading and every writing of `cpuleak`; the
push, from the container it reads to the answer of its agent, is one step too. There may be any
number of such threads. What a report does before the mismatch test and what it enters into the
statistics has to do with neither counters nor quotas and is left out, as is the test for idleness
in front of a sweep's reading of the quota. The containers of the threads stay registered: who comes
and goes is another matter (`EcGcm/Proof/CpuThreads.lean`).

What the chain of a report reads it reads one by one, so its `Reading` belongs to the thread and
is not required to be that of any state.

Two equations hold in the sequential program (`EcGcm/Proof/CpuBooks.lean`); they fare differently
here.

* `alloc_rt + unallocated_rt = total_cpu + overrun` is off, in every interleaving in which no
  counter wraps or clips, by exactly what the leak repairs have credited (`balanced_of_run`). Each
  transfer moves the counters by one and the same amount; but a repair that looks at the counters in
  the middle of one takes what is under way for a leak.
* `alloc_rt = Σ quota` is another matter (`EcGcm/Proof/ResizeBooks.lean`).

`run_applyResize` says that a thread that nothing interrupts does what `applyResize` does.
-/

set_option autoImplicit false

namespace EcGcm

open Word Handler Manager ElasticContainer

/-! ## Accessors of the counters -/

namespace Word

/-- The addition of a signed amount does not wrap. -/
def Gains (a d : UInt64) : Prop := 0 ≤ (a.toNat : ℤ) + amount d ∧ (a.toNat : ℤ) + amount d < 2 ^ 64

/-- The subtraction of a signed amount does not clip. -/
def Loses (a d : UInt64) : Prop := a.toNat < 2 ^ 63 ∧ amount d ≤ a.toNat

instance (a d : UInt64) : Decidable (Gains a d) := inferInstanceAs (Decidable (_ ∧ _))

instance (a d : UInt64) : Decidable (Loses a d) := inferInstanceAs (Decidable (_ ∧ _))

end Word

inductive CpuUpdate
  | decrUnallocatedRt (d : UInt64)
  | incrUnallocatedRt (d : UInt64)
  | incrOverrun (d : UInt64)
  | decrOverrun (d : UInt64)
  | incrAllocRt (d : UInt64)
  | decrAllocRt (d : UInt64)
  deriving DecidableEq

namespace CpuUpdate

def apply : CpuUpdate → Global.Cpu → Global.Cpu
  | decrUnallocatedRt d, c => c.decrUnallocatedRt d
  | incrUnallocatedRt d, c => c.incrUnallocatedRt d
  | incrOverrun d, c => c.incrOverrun d
  | decrOverrun d, c => c.decrOverrun d
  | incrAllocRt d, c => c.incrAllocRt d
  | decrAllocRt d, c => c.decrAllocRt d

/-- Nothing wraps or clips. -/
def Exact : CpuUpdate → Global.Cpu → Prop
  | decrUnallocatedRt d, c => Loses c.unallocatedRt d
  | incrUnallocatedRt d, c => Gains c.unallocatedRt d
  | incrOverrun d, c => Gains c.overrun d
  | decrOverrun d, c => Loses c.overrun d
  | incrAllocRt d, c => Gains c.allocRt d
  | decrAllocRt d, c => Loses c.allocRt d

instance : (u : CpuUpdate) → (c : Global.Cpu) → Decidable (u.Exact c)
  | decrUnallocatedRt _, _ => inferInstanceAs (Decidable (Loses _ _))
  | incrUnallocatedRt _, _ => inferInstanceAs (Decidable (Gains _ _))
  | incrOverrun _, _ => inferInstanceAs (Decidable (Gains _ _))
  | decrOverrun _, _ => inferInstanceAs (Decidable (Loses _ _))
  | incrAllocRt _, _ => inferInstanceAs (Decidable (Gains _ _))
  | decrAllocRt _, _ => inferInstanceAs (Decidable (Loses _ _))

/-- What the allocated total gains. -/
def toAlloc : CpuUpdate → ℤ
  | incrAllocRt d => amount d
  | decrAllocRt d => -amount d
  | _ => 0

/-- What `alloc_rt + unallocated_rt` gains over `total_cpu + overrun`. -/
def toExcess : CpuUpdate → ℤ
  | decrUnallocatedRt d => -amount d
  | incrUnallocatedRt d => amount d
  | incrOverrun d => -amount d
  | decrOverrun d => amount d
  | incrAllocRt d => amount d
  | decrAllocRt d => -amount d

variable {u : CpuUpdate} {c : Global.Cpu}

theorem Exact.allocRt (h : u.Exact c) :
    ((u.apply c).allocRt.toNat : ℤ) = c.allocRt.toNat + u.toAlloc := by
  cases u with
  | incrAllocRt d => exact add_toNat h.1 h.2
  | decrAllocRt d => exact satSub_toNat h.1 h.2
  | decrUnallocatedRt d => exact (add_zero _).symm
  | incrUnallocatedRt d => exact (add_zero _).symm
  | incrOverrun d => exact (add_zero _).symm
  | decrOverrun d => exact (add_zero _).symm

theorem Exact.excess (h : u.Exact c) : (u.apply c).excess = c.excess + u.toExcess := by
  unfold Global.Cpu.excess toExcess
  cases u with
  | decrUnallocatedRt d =>
    have := satSub_toNat h.1 h.2
    simp only [apply, Global.Cpu.decrUnallocatedRt]
    omega
  | incrUnallocatedRt d =>
    have := add_toNat h.1 h.2
    simp only [apply, Global.Cpu.incrUnallocatedRt]
    omega
  | incrOverrun d =>
    have := add_toNat h.1 h.2
    simp only [apply, Global.Cpu.incrOverrun]
    omega
  | decrOverrun d =>
    have := satSub_toNat h.1 h.2
    simp only [apply, Global.Cpu.decrOverrun]
    omega
  | incrAllocRt d =>
    have := add_toNat h.1 h.2
    simp only [apply, Global.Cpu.incrAllocRt]
    omega
  | decrAllocRt d =>
    have := satSub_toNat h.1 h.2
    simp only [apply, Global.Cpu.decrAllocRt]
    omega

end CpuUpdate

/-! ## Transfers, accessor by accessor -/

namespace Transfer

/-- The accessor before the quota is written. -/
def before : Transfer → CpuUpdate
  | take amnt => .decrUnallocatedRt amnt
  | give amnt => .incrUnallocatedRt amnt
  | borrow amnt => .incrOverrun amnt
  | shed amnt => .decrOverrun amnt

/-- The accessor after it. -/
def after : Transfer → CpuUpdate
  | take amnt => .incrAllocRt amnt
  | give amnt => .decrAllocRt amnt
  | borrow amnt => .incrAllocRt amnt
  | shed amnt => .decrAllocRt amnt

theorem apply_eq (t : Transfer) (c : Global.Cpu) :
    t.apply c = t.after.apply (t.before.apply c) := by
  cases t <;> rfl

theorem excess_eq (t : Transfer) : t.before.toExcess + t.after.toExcess = 0 := by
  cases t <;> simp only [before, after, CpuUpdate.toExcess] <;> omega

theorem before_toAlloc (t : Transfer) : t.before.toAlloc = 0 := by
  cases t <;> rfl

end Transfer

/-! ## Threads -/

/-- A write to a container. -/
inductive ScUpdate
  | setQuota (q : UInt64)
  | setQuotaFlag
  | flush
  | resetQuotaMismatchCounter
  deriving DecidableEq

namespace ScUpdate

def apply : ScUpdate → SubContainer → SubContainer
  | setQuota q, sc => sc.setQuota q
  | setQuotaFlag, sc => sc.setQuotaFlag true
  | flush, sc => sc.flush
  | resetQuotaMismatchCounter, sc => sc.resetQuotaMismatchCounter

/-- The quota that is written. -/
def quota? : ScUpdate → Option UInt64
  | setQuota q => some q
  | _ => none

theorem quota_apply (w : ScUpdate) (sc : SubContainer) :
    (w.apply sc).quota = w.quota?.getD sc.quota := by
  cases w <;> rfl

end ScUpdate

/-- An access to what is shared, with everything it writes already decided. -/
inductive Access
  | counter (u : CpuUpdate)
  | container (w : ScUpdate)
  deriving DecidableEq

namespace Access

def run (id : ContainerId) : Access → M PUnit
  | counter u => modifyCpu u.apply
  | container w => do
    let _ ← backOf id
    modifyBack id w.apply

def quota? : Access → Option UInt64
  | counter _ => none
  | container w => w.quota?

/-- What the thread takes the quota to be from then on. -/
def seenAfter (seen : UInt64) (a : Access) : UInt64 := a.quota?.getD seen

def toAlloc : Access → ℤ
  | counter u => u.toAlloc
  | container _ => 0

/-- What `alloc_rt` is to gain over the quotas, if the quota is what the thread takes it to be. -/
def toBooks (seen : UInt64) (a : Access) : ℤ := a.toAlloc + (seen.toNat - (a.seenAfter seen).toNat)

def toExcess : Access → ℤ
  | counter u => u.toExcess
  | container _ => 0

end Access

/-- The accesses after a successful push. -/
def Resize.accesses (rz : Resize) : List Access :=
  let before := .counter rz.transfer.before
  let after := .counter rz.transfer.after
  match rz.transfer with
  -- overrun recovery flushes first
  | .shed _ => [.container .setQuotaFlag, .container .flush, before,
      .container (.setQuota rz.newQuota), after]
  | _ => [.container .setQuotaFlag, before, .container (.setQuota rz.newQuota), .container .flush,
      after]

/-- The accesses of an adoption. `less` is `rx_quota < get_quota()`; `quota` has been read after
it. -/
def adoption (less : Bool) (quota rxQuota : UInt64) : List Access :=
  if less then
    [.container (.setQuota rxQuota), .container .flush, .counter (.decrAllocRt (quota - rxQuota)),
      .counter (.incrUnallocatedRt (quota - rxQuota)), .container .resetQuotaMismatchCounter]
  else
    [.counter (.decrUnallocatedRt (rxQuota - quota)), .container (.setQuota rxQuota),
      .container .flush, .counter (.incrAllocRt (rxQuota - quota)),
      .container .resetQuotaMismatchCounter]

/-- Where a leak repair is. -/
inductive RepairPoint
  /-- `ec_get_alloc_rt()`. -/
  | allocRt
  /-- `ec_get_cpu_unallocated_rt()`. -/
  | unallocatedRt (allocRt : UInt64)
  /-- `ec_get_total_cpu()`. `sum` is `total_rt_in_sys`. -/
  | totalCpu (sum : UInt64)
  /-- `cpuleak += shortfall`, which reads it. -/
  | load (shortfall : Int64)
  /-- The same, which writes it. -/
  | store (leak : Int64)
  /-- `cpuleak >= _MAX_CPU_LOSS_IN_NS_`. -/
  | test
  /-- `cpuleak`, to be credited. -/
  | credit
  /-- `cpuleak = 0`. -/
  | reset
  deriving DecidableEq

/-- What a thread does when its accesses are done. -/
inductive Cont
  /-- The leak repair, and the push after it. -/
  | repair (point : RepairPoint) (rz : Option Resize)
  | push (rz : Option Resize)

namespace Cont

/-- The resize that the thread is going to push. -/
def resize? : Cont → Option Resize
  | repair _ rz => rz
  | push rz => rz

end Cont

/-- Where a thread is. -/
inductive ResizePoint
  /-- `rx_quota / 1000 != get_quota() / 1000`. -/
  | test (r : Reading)
  /-- `incr_quota_mismatch_counter() > 2`. -/
  | mismatch (r : Reading)
  /-- `rx_quota < get_quota()`. -/
  | compare (r : Reading)
  /-- The difference of the two. `seen` is what the comparison was made with. -/
  | diff (r : Reading) (seen : UInt64)
  /-- `get_quota()` in the sweep. -/
  | sweep
  /-- What is left to do. `seen` is what the thread takes the quota to be. -/
  | todo (seen : UInt64) (accesses : List Access) (cont : Cont)

/-- A report, or the sweep at one container. -/
structure ResizeThread where
  id : ContainerId
  env : Env
  seqNumber : UInt32
  point : ResizePoint

namespace ResizeThread

def test (id : ContainerId) (r : Reading) : M ResizePoint := do
  let sc ← backOf id
  if sc.quotaMismatch r.rxQuota then return .mismatch r
  else return .todo sc.quota [] (.repair .allocRt r.resize)

def mismatch (id : ContainerId) (r : Reading) : M ResizePoint := do
  let sc ← backOf id
  modifyBack id fun sc => sc.incrQuotaMismatchCounter.2
  if sc.quotaMismatchCounter > 2 then return .compare r
  else return .todo r.rxQuota [] (.push none)

def compare (id : ContainerId) (r : Reading) : M ResizePoint := do
  let sc ← backOf id
  return .diff r sc.quota

def diff (id : ContainerId) (r : Reading) (seen : UInt64) : M ResizePoint := do
  let sc ← backOf id
  return .todo sc.quota (adoption (r.rxQuota < seen) sc.quota r.rxQuota)
    (.repair .allocRt r.resize)

def sweep (id : ContainerId) : M ResizePoint := do
  let sc ← backOf id
  if sc.quota ≠ minQuota then
    return .todo sc.quota [] (.push (some ⟨minQuota, .give (sc.quota - minQuota)⟩))
  else return .todo sc.quota [] (.push none)

def access (id : ContainerId) (seen : UInt64) (a : Access) (rest : List Access) (cont : Cont) :
    M ResizePoint := do
  a.run id
  return .todo (a.seenAfter seen) rest cont

/-- One access of the leak repair. The addition to `cpuleak` is read as wrapping. -/
def repair (seen : UInt64) (rz : Option Resize) : RepairPoint → M ResizePoint
  | .allocRt => do
    let m ← get
    return .todo seen [] (.repair (.unallocatedRt m.ec.cpu.allocRt) rz)
  | .unallocatedRt allocRt => do
    let m ← get
    return .todo seen [] (.repair (.totalCpu (allocRt + m.ec.cpu.unallocatedRt)) rz)
  | .totalCpu sum => do
    let m ← get
    return .todo seen [] (.repair (.load (m.ec.cpu.totalCpu.toInt64 - sum.toInt64)) rz)
  | .load shortfall => do
    let m ← get
    return .todo seen [] (.repair (.store (m.cpuleak + shortfall)) rz)
  | .store leak => do
    modify fun m => { m with cpuleak := leak }
    return .todo seen [] (.repair .test rz)
  | .test => do
    let m ← get
    if m.cpuleak ≥ maxCpuLossInNs then return .todo seen [] (.repair .credit rz)
    else return .todo seen [] (.push rz)
  | .credit => do
    let m ← get
    return .todo seen [.counter (.incrUnallocatedRt m.cpuleak.toUInt64)] (.repair .reset rz)
  | .reset => do
    modify fun m => { m with cpuleak := 0 }
    return .todo seen [] (.push rz)

def push (env : Env) (id : ContainerId) (seqNumber : UInt32) (seen : UInt64) (rz : Resize) :
    M ResizePoint := do
  let sc ← backOf id
  let ret ← setScQuotaSyscall env sc rz.newQuota seqNumber
  if ret ≠ 0 then return .todo seen [] (.push none)
  else return .todo seen rz.accesses (.push none)

/-- The next step, if there is one. -/
def next? (t : ResizeThread) : Option (M ResizePoint) :=
  match t.point with
  | .test r => some (test t.id r)
  | .mismatch r => some (mismatch t.id r)
  | .compare r => some (compare t.id r)
  | .diff r seen => some (diff t.id r seen)
  | .sweep => some (sweep t.id)
  | .todo seen (a :: rest) cont => some (access t.id seen a rest cont)
  | .todo seen [] (.repair point rz) => some (repair seen rz point)
  | .todo seen [] (.push (some rz)) => some (push t.env t.id t.seqNumber seen rz)
  | .todo _ [] (.push none) => none

/-- A thread that has to wait for its container does not move. -/
def step (t : ResizeThread) (m : Manager) : Option (ResizeThread × Manager) :=
  t.next?.bind fun x =>
    match x.run m with
    | .ret point m' => some ({ t with point := point }, m')
    | .halt _ _ => none

/-- Any number of threads, in any order of their accesses. -/
abbrev interleaved : System (Pool Manager ResizeThread) ℕ := Pool.interleaving step

/-- A thread that has not begun. -/
def isStart (t : ResizeThread) : Bool :=
  match t.point with
  | .test _ => true
  | .sweep => true
  | _ => false

/-- A thread that has nothing left to do. -/
def isDone (t : ResizeThread) : Bool :=
  match t.point with
  | .todo _ [] (.push none) => true
  | _ => false

end ResizeThread

/-! ## What a step can do -/

namespace Manager

/-- The recorded quota of the newest instance. -/
def quota? (m : Manager) (id : ContainerId) : Option UInt64 := m.ec.field? (·.quota) id

/-- Counters and quotas are the same. -/
structure SameCpuBooks (m m' : Manager) : Prop extends m.ec.SameField (·.quota) m'.ec where
  cpu : m'.ec.cpu = m.ec.cpu

/-- One quota has been written. -/
structure Wrote (m : Manager) (id : ContainerId) (quota quota' : UInt64) (m' : Manager) : Prop
    extends m.ec.WroteField (·.quota) id quota quota' m'.ec where
  cpu : m'.ec.cpu = m.ec.cpu

section Quotas

variable {m m' : Manager} {id : ContainerId} {quota quota' : UInt64}

theorem SameCpuBooks.totalQuota (h : SameCpuBooks m m') :
    m'.ec.totalQuota = m.ec.totalQuota := h.sum

theorem Wrote.totalQuota (h : Wrote m id quota quota' m') :
    m'.ec.totalQuota + quota.toNat = m.ec.totalQuota + quota'.toNat := h.sum

theorem AgentFrame.sameCpuBooks (h : AgentFrame m m') : SameCpuBooks m m' :=
  ⟨sameField_of_subcontainers h.subcontainers, h.cpu⟩

end Quotas

end Manager

namespace ResizeThread

/-- What one step can do. -/
inductive Steps (id : ContainerId) (m : Manager) :
    ResizePoint → ResizePoint → Manager → Prop
  | agreed {r : Reading} {q : UInt64} (hq : m.quota? id = some q) :
    Steps id m (.test r) (.todo q [] (.repair .allocRt r.resize)) m
  | mismatched {r : Reading} : Steps id m (.test r) (.mismatch r) m
  | dropped {r : Reading} {m' : Manager} (hsame : SameCpuBooks m m') :
    Steps id m (.mismatch r) (.todo r.rxQuota [] (.push none)) m'
  | stuck {r : Reading} {m' : Manager} (hsame : SameCpuBooks m m') :
    Steps id m (.mismatch r) (.compare r) m'
  | compared {r : Reading} {q : UInt64} (hq : m.quota? id = some q) :
    Steps id m (.compare r) (.diff r q) m
  | differed {r : Reading} {seen q : UInt64} (hq : m.quota? id = some q) :
    Steps id m (.diff r seen)
      (.todo q (adoption (r.rxQuota < seen) q r.rxQuota) (.repair .allocRt r.resize)) m
  | swept {q : UInt64} (rz : Option Resize) (hq : m.quota? id = some q) :
    Steps id m .sweep (.todo q [] (.push rz)) m
  | counted {seen : UInt64} {u : CpuUpdate} {rest : List Access} {cont : Cont} :
    Steps id m (.todo seen (.counter u :: rest) cont) (.todo seen rest cont)
      { m with ec := { m.ec with cpu := u.apply m.ec.cpu } }
  | wrote {seen q : UInt64} {w : ScUpdate} {rest : List Access} {cont : Cont} {m' : Manager}
      (hq : m.quota? id = some q) (hw : Wrote m id q (w.quota?.getD q) m') :
    Steps id m (.todo seen (.container w :: rest) cont)
      (.todo (w.quota?.getD seen) rest cont) m'
  | repaired {seen : UInt64} {point : RepairPoint} {rz : Option Resize} {cont : Cont}
      {m' : Manager} (hpoint : point ≠ .credit) (hcont : cont.resize? = rz)
      (hsame : SameCpuBooks m m') :
    Steps id m (.todo seen [] (.repair point rz)) (.todo seen [] cont) m'
  | credited {seen : UInt64} {rz : Option Resize} :
    Steps id m (.todo seen [] (.repair .credit rz))
      (.todo seen [.counter (.incrUnallocatedRt m.cpuleak.toUInt64)] (.repair .reset rz)) m
  | refused {seen : UInt64} {rz : Resize} {m' : Manager} (hsame : SameCpuBooks m m') :
    Steps id m (.todo seen [] (.push (some rz))) (.todo seen [] (.push none)) m'
  | pushed {seen : UInt64} {rz : Resize} {m' : Manager} (hsame : SameCpuBooks m m') :
    Steps id m (.todo seen [] (.push (some rz))) (.todo seen rz.accesses (.push none)) m'

variable {t t' : ResizeThread} {m m' : Manager} {id : ContainerId} {env : Env}
  {seqNumber : UInt32} {E : Halt → Manager → Prop}

theorem sameCpuBooks_refl (m : Manager) : SameCpuBooks m m := (AgentFrame.refl m).sameCpuBooks

theorem wp_test {r : Reading} (hE : E .undef m) :
    wp (test id r) (Steps id m (.test r)) E m := by
  unfold test
  rw [wp_bind]
  refine wp_backOf_of (fun sc hb => ?_) fun _ => hE
  rw [wp_ite]
  split
  · exact .mismatched
  · exact .agreed (field?_of_back? hb)

theorem wp_mismatch {r : Reading} (hE : E .undef m) :
    wp (mismatch id r) (Steps id m (.mismatch r)) E m := by
  unfold mismatch
  rw [wp_bind]
  refine wp_backOf_of (fun sc hb => ?_) fun _ => hE
  have hsame : SameCpuBooks m
      { m with ec := m.ec.modifyBack id fun sc => sc.incrQuotaMismatchCounter.2 } :=
    ⟨sameField_modifyBack hb rfl, cpu_modifyBack⟩
  rw [wp_bind]
  refine (wp_modify ..).mpr ?_
  rw [wp_ite]
  split
  · exact .stuck hsame
  · exact .dropped hsame

theorem wp_access {seen : UInt64} {a : Access} {rest : List Access} {cont : Cont}
    (hE : E .undef m) :
    wp (access id seen a rest cont) (Steps id m (.todo seen (a :: rest) cont)) E m := by
  unfold access
  rw [wp_bind]
  cases a with
  | counter u => exact .counted
  | container w =>
    refine (wp_bind ..).mpr (wp_backOf_of (fun sc hb => ?_) fun _ => hE)
    have hw : Wrote m id sc.quota (w.quota?.getD sc.quota)
        { m with ec := m.ec.modifyBack id w.apply } := by
      refine ⟨?_, cpu_modifyBack⟩
      rw [← w.quota_apply]
      exact wroteField_modifyBack hb
    exact .wrote (field?_of_back? hb) hw

/-- The repair but for its credit moves nothing. -/
theorem wp_repair {seen : UInt64} {rz : Option Resize} {point : RepairPoint} :
    wp (repair seen rz point) (Steps id m (.todo seen [] (.repair point rz))) E m := by
  have hsame : ∀ leak, SameCpuBooks m { m with cpuleak := leak } :=
    fun _ => ⟨sameField_of_subcontainers rfl, rfl⟩
  cases point with
  | allocRt => exact .repaired (by simp) rfl (sameCpuBooks_refl m)
  | unallocatedRt allocRt => exact .repaired (by simp) rfl (sameCpuBooks_refl m)
  | totalCpu sum => exact .repaired (by simp) rfl (sameCpuBooks_refl m)
  | load shortfall => exact .repaired (by simp) rfl (sameCpuBooks_refl m)
  | store leak => exact .repaired (by simp) rfl (hsame leak)
  | test =>
    unfold repair
    rw [wp_bind, wp_get, wp_ite]
    split
    · exact .repaired (by simp) rfl (sameCpuBooks_refl m)
    · exact .repaired (by simp) rfl (sameCpuBooks_refl m)
  | credit => exact .credited
  | reset => exact .repaired (by simp) rfl (hsame 0)

theorem wp_push {seen : UInt64} {rz : Resize} (hE : ∀ e m', E e m') :
    wp (push env id seqNumber seen rz) (Steps id m (.todo seen [] (.push (some rz)))) E m := by
  unfold push
  rw [wp_bind]
  refine wp_backOf_of (fun sc hb => ?_) fun _ => hE _ _
  rw [wp_bind]
  refine wp_setScQuotaSyscall (fun _ => hE _ _) (fun _ _ _ _ => hE _ _) fun m' agent hm _ _ => ?_
  rw [wp_ite]
  split
  · exact .refused hm.sameCpuBooks
  · exact .pushed hm.sameCpuBooks

theorem wp_next? (hE : ∀ e m', E e m') :
    ∀ x ∈ t.next?, wp x (Steps t.id m t.point) E m := by
  obtain ⟨id, env, seqNumber, point⟩ := t
  intro x hx
  cases point with
  | test r =>
    cases hx
    exact wp_test (hE _ _)
  | mismatch r =>
    cases hx
    exact wp_mismatch (hE _ _)
  | compare r =>
    cases hx
    exact (wp_bind ..).mpr
      (wp_backOf_of (fun sc hb => .compared (field?_of_back? hb)) fun _ => hE _ _)
  | diff r seen =>
    cases hx
    exact (wp_bind ..).mpr
      (wp_backOf_of (fun sc hb => .differed (field?_of_back? hb)) fun _ => hE _ _)
  | sweep =>
    cases hx
    refine (wp_bind ..).mpr (wp_backOf_of (fun sc hb => ?_) fun _ => hE _ _)
    rw [wp_ite]
    split
    · exact .swept _ (field?_of_back? hb)
    · exact .swept _ (field?_of_back? hb)
  | todo seen accesses cont =>
    cases accesses with
    | cons a rest =>
      cases hx
      exact wp_access (hE _ _)
    | nil =>
      cases cont with
      | repair point rz =>
        cases hx
        exact wp_repair
      | push rz =>
        cases rz with
        | some rz =>
          cases hx
          exact wp_push hE
        | none => cases hx

theorem step_cases (h : t.step m = some (t', m')) :
    ∃ point, t' = { t with point := point } ∧ Steps t.id m t.point point m' := by
  obtain ⟨x, hx, hrun⟩ := Option.bind_eq_some_iff.mp h
  have hwp := wp_next? (m := m) (E := fun _ _ => True) (fun _ _ => trivial) x hx
  unfold wp at hwp
  cases hret : x.run m with
  | ret point m₁ =>
    rw [hret] at hrun hwp
    cases hrun
    exact ⟨point, rfl, hwp⟩
  | halt e m₁ =>
    rw [hret] at hrun
    cases hrun

/-! ## The counters among themselves -/

/-- The next access, if it is one to a counter, neither wraps nor clips. -/
def Exact (t : ResizeThread) (m : Manager) : Prop :=
  match t.point with
  | .todo _ (.counter u :: _) _ => u.Exact m.ec.cpu
  | _ => True

instance (t : ResizeThread) (m : Manager) : Decidable (t.Exact m) := by
  unfold Exact
  split <;> infer_instance

/-- What a thread has still to do to `alloc_rt + unallocated_rt - total_cpu - overrun`. -/
def unsettled (t : ResizeThread) : ℤ :=
  match t.point with
  | .todo _ accesses _ => (accesses.map Access.toExcess).sum
  | _ => 0

/-- What a leak repair takes out of `cpuleak` for the pool. -/
def credited (t : ResizeThread) (m : Manager) : ℤ :=
  match t.point with
  | .todo _ [] (.repair .credit _) => m.cpuleak.toInt
  | _ => 0

theorem excess_accesses (rz : Resize) : (rz.accesses.map Access.toExcess).sum = 0 := by
  have hbalanced := rz.transfer.excess_eq
  unfold Resize.accesses
  dsimp only
  split
  · rename_i amnt htransfer
    rw [htransfer] at hbalanced
    simp only [htransfer, List.map_cons, List.map_nil, List.sum_cons, List.sum_nil,
      Access.toExcess]
    omega
  · simp only [List.map_cons, List.map_nil, List.sum_cons, List.sum_nil, Access.toExcess]
    omega

theorem excess_adoption (less : Bool) (quota rx : UInt64) :
    ((adoption less quota rx).map Access.toExcess).sum = 0 := by
  unfold adoption
  split
  · simp only [List.map_cons, List.map_nil, List.sum_cons, List.sum_nil, Access.toExcess,
      CpuUpdate.toExcess]
    omega
  · simp only [List.map_cons, List.map_nil, List.sum_cons, List.sum_nil, Access.toExcess,
      CpuUpdate.toExcess]
    omega

theorem amount_toUInt64 (a : Int64) : amount a.toUInt64 = a.toInt := by
  unfold amount
  rw [Int64.toInt64_toUInt64]

theorem Exact.excess_step (h : t.Exact m) (hstep : t.step m = some (t', m')) :
    m'.ec.cpu.excess + t'.unsettled = m.ec.cpu.excess + t.unsettled + t.credited m := by
  obtain ⟨point', rfl, hsteps⟩ := step_cases hstep
  obtain ⟨id, env, seqNumber, point⟩ := t
  dsimp only at hsteps
  cases hsteps with
  | agreed hq => exact (add_zero _).symm
  | mismatched => exact (add_zero _).symm
  | dropped hsame => rw [hsame.cpu]; exact (add_zero _).symm
  | stuck hsame => rw [hsame.cpu]; exact (add_zero _).symm
  | compared hq => exact (add_zero _).symm
  | differed hq =>
    simp only [unsettled, credited]
    rw [excess_adoption]
    exact (add_zero _).symm
  | swept rz hq => exact (add_zero _).symm
  | counted =>
    have hexact := CpuUpdate.Exact.excess h
    simp only [unsettled, credited, List.map_cons, List.sum_cons, Access.toExcess]
    omega
  | wrote hq hw =>
    rw [hw.cpu]
    simp only [unsettled, credited, List.map_cons, List.sum_cons, Access.toExcess]
    omega
  | @repaired seen point rz cont _ hpoint hcont hsame =>
    have hnone : credited ⟨id, env, seqNumber, .todo seen [] (.repair point rz)⟩ m = 0 := by
      cases point with
      | credit => exact absurd rfl hpoint
      | allocRt => rfl
      | unallocatedRt allocRt => rfl
      | totalCpu sum => rfl
      | load shortfall => rfl
      | store leak => rfl
      | test => rfl
      | reset => rfl
    rw [hsame.cpu, hnone]
    exact (add_zero _).symm
  | credited =>
    simp only [unsettled, credited, List.map_cons, List.map_nil, List.sum_cons, List.sum_nil,
      Access.toExcess, CpuUpdate.toExcess, amount_toUInt64]
    omega
  | refused hsame => rw [hsame.cpu]; exact (add_zero _).symm
  | pushed hsame =>
    rw [hsame.cpu]
    simp only [unsettled, credited]
    rw [excess_accesses]
    exact (add_zero _).symm

theorem unsettled_of_isStart (h : t.isStart = true) : t.unsettled = 0 := by
  obtain ⟨id, env, seqNumber, point⟩ := t
  cases point with
  | todo seen accesses cont => cases h
  | test r => rfl
  | mismatch r => cases h
  | compare r => cases h
  | diff r seen => cases h
  | sweep => rfl

theorem point_of_isDone (h : t.isDone = true) : ∃ seen, t.point = .todo seen [] (.push none) := by
  obtain ⟨id, env, seqNumber, point⟩ := t
  cases point with
  | todo seen accesses cont =>
    cases accesses with
    | cons a rest => cases h
    | nil =>
      cases cont with
      | repair point rz => cases h
      | push rz =>
        cases rz with
        | some rz => cases h
        | none => exact ⟨seen, rfl⟩
  | test r => cases h
  | mismatch r => cases h
  | compare r => cases h
  | diff r seen => cases h
  | sweep => cases h

theorem unsettled_of_isDone (h : t.isDone = true) : t.unsettled = 0 := by
  obtain ⟨seen, hpoint⟩ := point_of_isDone h
  unfold unsettled
  rw [hpoint]
  rfl

/-- **Overlapping reports and sweeps unbalance the counters by what leak repairs credit**, and by
nothing else, whatever they do to each other's quotas. -/
theorem balanced_of_run {m : Manager} {threads : List ResizeThread}
    {p : Pool Manager ResizeThread} {d : ℤ} (hstart : ∀ t ∈ threads, t.isStart = true)
    (hrun : ((Pool.drifting step credited).only (Pool.MovingIn Exact)).Run (⟨m, threads⟩, 0) (p, d))
    (hdone : ∀ t ∈ p.threads, t.isDone = true) :
    p.shared.ec.cpu.excess = m.ec.cpu.excess + d ∧
      (m.ec.cpu.Balanced → (p.shared.ec.cpu.Balanced ↔ d = 0)) := by
  have hkept := Pool.carried_trivial.balance_of_drifting_run
    (fun _ _ _ _ h _ hstep => Exact.excess_step h hstep) (fun _ _ => trivial) hrun
  rw [Pool.balance_of_owes_nothing fun t ht => unsettled_of_isDone (hdone t ht),
    Pool.balance_of_owes_nothing fun t ht => unsettled_of_isStart (hstart t ht), sub_zero] at hkept
  refine ⟨hkept, fun hbalanced => ?_⟩
  rw [Global.Cpu.balanced_iff_excess] at hbalanced ⊢
  dsimp only at hkept
  omega

/-! ### Two containers -/

/-- Two containers of 100 ms each; the first one has reported 40 ms three times. -/
def twoContainers : Manager :=
  (gcm.replay
    ([deliver 0 (msgOf 1 initReq 100000000 0), deliver 0 (msgOf 2 initReq 100000000 0)] ++
      List.replicate 3 (deliver 0 (msgOf 1 cpuReq 40000000 0)))
    (Manager.started oneAgent ⟨3000, 1000⟩)).getD (.new oneAgent)

/-- A container that is throttled all the time, with a fair share of 150 ms. -/
def throttledAt (rxQuota : UInt64) : Reading where
  rounding := .binary64
  slice := 30000000
  unallocatedRt := 100000000
  overrun := 0
  fairCpuShare := 150000000
  rxQuota := rxQuota
  rtRemaining := 0
  idleFlag := false
  rtMean := 0
  thrMean := 1

/-- A thread at the node's container `cgroupId`. -/
def atContainer (cgroupId : UInt32) (point : ResizePoint) : ResizeThread :=
  ⟨⟨cgroupId, node⟩, .uniform 0 0 0 0 0, 1, point⟩

/-- A sweep and a report of the same container. -/
def sweepAndReport : List ResizeThread :=
  [atContainer 2 .sweep, atContainer 2 (.test (throttledAt 100000000))]

/-- Two reports, both asking for more. -/
def twoReports : List ResizeThread :=
  [atContainer 2 (.test (throttledAt 100000000)), atContainer 1 (.test (throttledAt 100000000))]

/-- A sweep and a report, one access each in turn. And two reports: when the second one looks, the
first one has taken its 16,666,666 from the pool and has not added them to `alloc_rt` yet. -/
theorem balanced_after_overlap :
    (∃ p, ((Pool.drifting step credited).only (Pool.MovingIn Exact)).Run
        (⟨twoContainers, sweepAndReport⟩, 0) (p, 0) ∧
      (∀ t ∈ p.threads, t.isDone = true) ∧ p.shared.ec.cpu.Balanced) ∧
    ∃ p, ((Pool.drifting step credited).only (Pool.MovingIn Exact)).Run
        (⟨twoContainers, twoReports⟩, 0) (p, 16666666) ∧
      (∀ t ∈ p.threads, t.isDone = true) ∧ ¬ p.shared.ec.cpu.Balanced := by
  constructor
  · have hreplay : ((((Pool.drifting step credited).only (Pool.MovingIn Exact)).replay
        ((List.replicate 7 [0, 1]).flatten ++ List.replicate 6 1)
        (⟨twoContainers, sweepAndReport⟩, 0)).any fun q =>
          q.2 = 0 ∧ ∀ t ∈ q.1.threads, t.isDone = true) = true := by
      decide +kernel
    obtain ⟨⟨p, d⟩, hrun, hp⟩ := System.exists_run_of_replay hreplay
    obtain ⟨rfl, hdone⟩ := of_decide_eq_true hp
    exact ⟨p, hrun, hdone, ((balanced_of_run (by decide) hrun hdone).2 (by decide +kernel)).mpr rfl⟩
  · have hreplay : ((((Pool.drifting step credited).only (Pool.MovingIn Exact)).replay
        (List.replicate 10 0 ++ List.replicate 16 1 ++ List.replicate 3 0)
        (⟨twoContainers, twoReports⟩, 0)).any fun q =>
          q.2 = 16666666 ∧ ∀ t ∈ q.1.threads, t.isDone = true) = true := by
      decide +kernel
    obtain ⟨⟨p, d⟩, hrun, hp⟩ := System.exists_run_of_replay hreplay
    obtain ⟨rfl, hdone⟩ := of_decide_eq_true hp
    refine ⟨p, hrun, hdone, fun hbalanced => ?_⟩
    have hzero := ((balanced_of_run (by decide) hrun hdone).2 (by decide +kernel)).mp hbalanced
    exact absurd hzero (by decide)

/-! ## A thread that nothing interrupts -/

theorem step_of_run {t : ResizeThread} {x : M ResizePoint} {point : ResizePoint}
    (hx : t.next? = some x) (hrun : x.run m = .ret point m') :
    t.step m = some ({ t with point := point }, m') := by
  unfold step
  rw [hx]
  dsimp only [Option.bind_some]
  rw [hrun]

end ResizeThread

/-- What an access leaves. -/
def Access.effect (id : ContainerId) (m : Manager) : Access → Manager
  | .counter u => { m with ec := { m.ec with cpu := u.apply m.ec.cpu } }
  | .container w => { m with ec := m.ec.modifyBack id w.apply }

theorem Access.back?_effect {id : ContainerId} {m : Manager} (a : Access)
    (h : (m.ec.back? id).isSome = true) : ((a.effect id m).ec.back? id).isSome = true := by
  cases a with
  | counter u => exact h
  | container w =>
    show ((m.ec.modifyBack id w.apply).back? id).isSome = true
    rw [back?_modifyBack_map, Option.isSome_map]
    exact h

namespace ResizeThread

variable {m m' : Manager} {id : ContainerId} {env : Env} {seqNumber : UInt32}

/-- Accesses, one after the other. -/
theorem alone_accesses {seen : UInt64} {accesses : List Access} {cont : Cont}
    (hb : (m.ec.back? id).isSome = true) :
    Pool.alone step accesses.length (⟨id, env, seqNumber, .todo seen accesses cont⟩, m) =
      (⟨id, env, seqNumber, .todo (accesses.foldl Access.seenAfter seen) [] cont⟩,
        accesses.foldl (Access.effect id) m) := by
  induction accesses generalizing m seen with
  | nil => rfl
  | cons a rest ih =>
    have hstep : step ⟨id, env, seqNumber, .todo seen (a :: rest) cont⟩ m =
        some (⟨id, env, seqNumber, .todo (a.seenAfter seen) rest cont⟩, a.effect id m) := by
      refine step_of_run rfl ?_
      cases a with
      | counter u => rfl
      | container w =>
        obtain ⟨sc, hsc⟩ := Option.isSome_iff_exists.mp hb
        have hrun : (Access.run id (.container w)).run m =
            .ret ⟨⟩ { m with ec := m.ec.modifyBack id w.apply } :=
          (run_bind_of_ret (run_backOf hsc)).trans rfl
        exact (run_bind_of_ret hrun).trans rfl
    rw [List.length_cons, Pool.alone_succ hstep, ih (a.back?_effect hb)]
    rfl

theorem modifyBack_withCpu {ec : ElasticContainer} {f : SubContainer → SubContainer}
    {c : Global.Cpu} :
    ({ ec with cpu := c } : ElasticContainer).modifyBack id f =
      { ec.modifyBack id f with cpu := c } := by
  unfold ElasticContainer.modifyBack
  dsimp only
  split <;> rfl

theorem modifyBack_modifyBack {ec : ElasticContainer} {f g : SubContainer → SubContainer}
    (hb : (ec.back? id).isSome = true) :
    (ec.modifyBack id f).modifyBack id g = ec.modifyBack id fun sc => g (f sc) := by
  obtain ⟨sc, hsc⟩ := Option.isSome_iff_exists.mp hb
  obtain ⟨l, hl⟩ := lookup_of_back? hsc
  unfold ElasticContainer.modifyBack
  simp only [hl, List.modifyLast_concat, AList.lookup_insert, AList.insert_insert]

/-- The accesses of a resize leave what `applyResize` leaves. -/
theorem foldl_accesses {rz : Resize} (hb : (m.ec.back? id).isSome = true) :
    rz.accesses.foldl (Access.effect id) m =
      { m with ec := { m.ec.modifyBack id fun sc => sc.resized rz.newQuota with
        cpu := rz.transfer.apply m.ec.cpu } } := by
  rw [Transfer.apply_eq]
  unfold Resize.accesses
  dsimp only
  split
  · simp only [List.foldl_cons, List.foldl_nil, Access.effect, cpu_modifyBack, modifyBack_withCpu,
      modifyBack_modifyBack hb]
    rfl
  · simp only [List.foldl_cons, List.foldl_nil, Access.effect, cpu_modifyBack, modifyBack_withCpu,
      modifyBack_modifyBack hb]
    rfl

theorem run_recorded {rz : Resize} :
    (do
      Manager.modifyBack id fun sc => sc.resized rz.newQuota
      modifyCpu rz.transfer.apply : M PUnit).run m =
      .ret ⟨⟩ { m with ec := { m.ec.modifyBack id fun sc => sc.resized rz.newQuota with
        cpu := rz.transfer.apply m.ec.cpu } } := by
  show Outcome.ret _ { m with ec := { m.ec.modifyBack id fun sc => sc.resized rz.newQuota with
    cpu := rz.transfer.apply (m.ec.modifyBack id fun sc => sc.resized rz.newQuota).cpu } } = _
  rw [cpu_modifyBack]

/-- **A push and what follows it, if nothing interrupts them, are `applyResize`.** -/
theorem run_applyResize {sc : SubContainer} {rz : Resize} (hb : m.ec.back? id = some sc)
    (hrun : (applyResize env id sc seqNumber rz).run m = .ret ⟨⟩ m') :
    ∃ t', t'.isDone = true ∧
      interleaved.Run ⟨m, [⟨id, env, seqNumber, .todo sc.quota [] (.push (some rz))⟩]⟩
        ⟨m', [t']⟩ := by
  have hpush : ∀ point m₁, (push env id seqNumber sc.quota rz).run m = .ret point m₁ →
      interleaved.Step ⟨m, [⟨id, env, seqNumber, .todo sc.quota [] (.push (some rz))⟩]⟩
        ⟨m₁, [⟨id, env, seqNumber, point⟩]⟩ := by
    intro point m₁ h
    have hstep : step ⟨id, env, seqNumber, .todo sc.quota [] (.push (some rz))⟩ m =
      some (⟨id, env, seqNumber, point⟩, m₁) := step_of_run rfl h
    have hmove : Pool.move step 0 ⟨m, [⟨id, env, seqNumber, .todo sc.quota [] (.push (some rz))⟩]⟩ =
      some ⟨m₁, [⟨id, env, seqNumber, point⟩]⟩ := Pool.move_eq_some.mpr ⟨_, _, _, rfl, hstep, rfl⟩
    exact ⟨0, trivial, hmove⟩
  unfold push at hpush
  unfold applyResize at hrun
  cases hsyscall : (setScQuotaSyscall env sc rz.newQuota seqNumber).run m with
  | halt e m₁ =>
    rw [run_bind_of_halt hsyscall] at hrun
    cases hrun
  | ret status m₁ =>
    have hb₁ : m₁.ec.back? id = some sc := by
      have hwp : wp (setScQuotaSyscall env sc rz.newQuota seqNumber)
          (fun _ m₁ => m₁.ec.back? id = some sc) (fun _ _ => True) m :=
        wp_setScQuotaSyscall (fun _ => trivial) (fun _ _ _ _ => trivial)
          fun m' agent hm _ _ => (hm.back? id).trans hb
      exact (wp_of_run hsyscall).mp hwp
    have hsome : (m₁.ec.back? id).isSome = true := by rw [hb₁]; rfl
    rw [run_bind_of_ret hsyscall] at hrun
    simp only [run_bind_of_ret (run_backOf hb), run_bind_of_ret hsyscall] at hpush
    by_cases hzero : status = 0
    · subst hzero
      rw [if_neg (by decide)] at hrun hpush
      rw [run_recorded] at hrun
      cases hrun
      have halone : Pool.alone step rz.accesses.length
          (⟨id, env, seqNumber, .todo sc.quota rz.accesses (.push none)⟩, m₁) = _ :=
        alone_accesses hsome
      rw [foldl_accesses hsome] at halone
      exact ⟨_, rfl, .head (hpush _ _ rfl) (Pool.run_of_alone halone)⟩
    · rw [if_pos hzero] at hrun hpush
      cases hrun
      exact ⟨_, rfl, .single (hpush _ _ rfl)⟩

end ResizeThread

end EcGcm
