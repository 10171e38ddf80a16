import EcGcm.Lib.Threads
import EcGcm.Proof.Completions
import EcGcm.Types

/-!
# `memlock` and the completion queues

`handle_mem_req` holds `memlock` while its reclaim pass runs. The tasks of the pass call
`resizeMemoryLimitPages`, and each of them waits until the queue of its agent hands it a completion
(`EcGcm/Proof/Completions.lean`). New pods and the periodic pass make such calls too, on the same
queues, but without the lock.

* `all_served_iff`: where no RPC has failed, all memory requests that have arrived can be served
  without further calls of others if and only if, at every agent, the tasks of the pass whose
  completion somebody else has drawn are no more than the calls of others that wait for their own.
* `blocked_by_failure`: a task of the pass that finds that its own RPC has failed waits for ever;
  the lock is never released and no memory request is served any more.

How many calls a pass makes is left open. Whether a request needs one at all is decided under the
lock, so a request that does not is one whose pass makes none.
-/

set_option autoImplicit false

namespace EcGcm

/-- The thread of a memory request. -/
inductive MemRequest
  | arrived
  /-- It has the lock; its pass is running. -/
  | holding
  | served
  deriving DecidableEq

/-- A call of `resizeMemoryLimitPages`, by a task of a request's pass or by somebody else. -/
structure TaskCall where
  owner : Option ℕ
  agent : Ip4Addr
  call : ResizeCall
  deriving DecidableEq

/-- The call once its completion has been handed over. -/
def TaskCall.delivered (c : TaskCall) : TaskCall :=
  { c with call := { c.call with delivered := true } }

structure MemService where
  /-- Which request has the lock. -/
  lock : Option ℕ
  requests : List MemRequest
  calls : List TaskCall
  deriving DecidableEq

namespace MemService

def start : MemService := ⟨none, [], []⟩

inductive Event
  | arrive
  /-- `memlock.lock()`. -/
  | acquire (i : ℕ)
  | call (owner : Option ℕ) (agent : Ip4Addr) (result : RpcResult)
  /-- `Next` hands the completion of call `tag` to call `caller`. -/
  | next (tag caller : ℕ)
  /-- All tasks are done, and `memlock.unlock()`. -/
  | release (i : ℕ)

/-- A pass belongs to the request that has the lock, and is over when all its calls are back. A
completion is delivered once, on the queue of its agent, to somebody who waits there. -/
def enabled (s : MemService) : Event → Prop
  | .arrive => True
  | .acquire i => s.lock = none ∧ s.requests[i]? = some .arrived
  | .call owner _ _ => ∀ i ∈ owner, s.lock = some i
  | .next tag caller => ∃ c ∈ s.calls[tag]?, c.call.delivered = false ∧
      ∃ d ∈ s.calls[caller]?, d.call.point = .waiting ∧ d.agent = c.agent
  | .release i => s.lock = some i ∧ ∀ c ∈ s.calls, c.owner = some i → c.call.point ≠ .waiting

instance (s : MemService) : (e : Event) → Decidable (enabled s e)
  | .arrive => .isTrue trivial
  | .acquire _ => inferInstanceAs (Decidable (_ ∧ _))
  | .call .. => inferInstanceAs (Decidable (∀ i ∈ _, _))
  | .next .. => inferInstanceAs (Decidable (∃ c ∈ _, _ ∧ ∃ d ∈ _, _))
  | .release _ => inferInstanceAs (Decidable (_ ∧ ∀ c ∈ _, _))

def step : Event → MemService → Option MemService
  | .arrive, s => some { s with requests := s.requests ++ [.arrived] }
  | .acquire i, s => some { s with lock := some i, requests := s.requests.set i .holding }
  | .call owner agent result, s => some
    { s with calls := s.calls ++ [⟨owner, agent, .start result⟩] }
  | .next tag caller, s => do
    let c ← s.calls[tag]?
    let delivered ← c.call.deliver
    let calls := s.calls.set tag { c with call := delivered }
    let d ← calls[caller]?
    let woken ← d.call.wake
    pure { s with calls := calls.set caller { d with call := woken } }
  | .release i, s => some { s with lock := none, requests := s.requests.set i .served }

/-- Any number of requests and calls, in any order. -/
def system : System MemService Event := ⟨enabled, step⟩

instance (s : MemService) (e : Event) : Decidable (system.enabled s e) :=
  inferInstanceAs (Decidable (enabled s e))

variable {s s' : MemService} {e : Event} {i k tag caller : ℕ} {c d : TaskCall} {agent : Ip4Addr}

/-! ## A completion -/

/-- What has become of the calls when `Next` has handed over a completion. -/
theorem next_cases (hen : system.enabled s (.next tag caller))
    (hnext : system.next (.next tag caller) s = some s') :
    ∃ c d woken, s.calls[tag]? = some c ∧ c.call.delivered = false ∧ c.call.released = false ∧
      (s.calls.set tag c.delivered)[caller]? = some d ∧
      d.call.point = .waiting ∧ d.agent = c.agent ∧ d.call.wake = some woken ∧
      s' = { s with
        calls := (s.calls.set tag c.delivered).set caller { d with call := woken } } := by
  obtain ⟨c, hc, hdelivered, d₀, hd₀, hwaiting, hagent⟩ := hen
  obtain ⟨c', hc', hrest⟩ := Option.bind_eq_some_iff.mp hnext
  obtain rfl : c = c' := Option.some.inj ((Option.mem_def.mp hc).symm.trans hc')
  obtain ⟨call, hcall, hrest⟩ := Option.bind_eq_some_iff.mp hrest
  unfold ResizeCall.deliver at hcall
  split at hcall
  · cases hcall
  · rename_i hreleased
    cases hcall
    obtain ⟨d, hd, hrest⟩ := Option.bind_eq_some_iff.mp hrest
    obtain ⟨woken, hwoken, hpure⟩ := Option.bind_eq_some_iff.mp hrest
    cases hpure
    refine ⟨c, d, woken, hc', hdelivered, by simpa using hreleased, hd, ?_, ?_, hwoken, rfl⟩
    all_goals
      by_cases heq : tag = caller
      · subst heq
        obtain rfl : c = d₀ := Option.some.inj (hc'.symm.trans hd₀)
        rw [List.getElem?_set_self (List.getElem?_eq_some_iff.mp hc').1] at hd
        cases hd
        first | exact hwaiting | exact hagent
      · rw [List.getElem?_set_ne heq] at hd
        obtain rfl : d = d₀ := Option.some.inj (hd.symm.trans hd₀)
        first | exact hwaiting | exact hagent

/-- The other way round: a completion that can be handed over is. -/
theorem next_of_wake {woken : ResizeCall} (hc : s.calls[tag]? = some c)
    (hreleased : c.call.released = false)
    (hd : (s.calls.set tag c.delivered)[caller]? = some d) (hwake : d.call.wake = some woken) :
    system.next (.next tag caller) s = some
      { s with calls := (s.calls.set tag c.delivered).set caller { d with call := woken } } := by
  have hdeliver : c.call.deliver = some { c.call with delivered := true } :=
    if_neg (Bool.eq_false_iff.mp hreleased)
  simp only [system, step, hc, hdeliver, Option.bind_eq_bind, Option.bind_some]
  rw [show (s.calls.set tag { c with call := { c.call with delivered := true } })[caller]? =
    some d from hd]
  simp only [Option.bind_some, hwake]
  rfl

/-- Who is woken has its record, and has released it afterwards. -/
theorem wake_cases {call call' : ResizeCall} (hwake : call.wake = some call') :
    call.released = false ∧ call'.result = call.result ∧ call'.delivered = call.delivered ∧
      call'.released = true ∧
      ((∃ errorcode, call.record = .replied errorcode ∧ call'.point = .returned errorcode) ∨
        call.record = .failed ∧ call'.point = .waiting) := by
  unfold ResizeCall.wake at hwake
  split at hwake
  · cases hwake
  · rename_i hreleased
    split at hwake
    · rename_i errorcode hrecord
      cases hwake
      exact ⟨by simpa using hreleased, rfl, rfl, rfl, .inl ⟨errorcode, hrecord, rfl⟩⟩
    · rename_i hrecord
      cases hwake
      exact ⟨by simpa using hreleased, rfl, rfl, rfl, .inr ⟨hrecord, rfl⟩⟩

/-- A call after a completion: one from before, the one that was delivered or the one woken. -/
theorem mem_of_mem_set {calls : List TaskCall} {t d c' : TaskCall}
    (hc' : c' ∈ (calls.set tag t).set caller d) : c' ∈ calls ∨ c' = t ∨ c' = d := by
  rcases List.mem_or_eq_of_mem_set hc' with hold | rfl
  · rcases List.mem_or_eq_of_mem_set hold with hold | rfl
    · exact .inl hold
    · exact .inr (.inl rfl)
  · exact .inr (.inr rfl)

/-! ## Without failures -/

/-- The RPC that is started does not fail. -/
def NoFailure (_ : MemService) : Event → Prop
  | .call _ _ result => result ≠ .failed
  | _ => True

instance (s : MemService) : (e : Event) → Decidable (NoFailure s e)
  | .arrive => .isTrue trivial
  | .acquire _ => .isTrue trivial
  | .call .. => inferInstanceAs (Decidable (_ ≠ _))
  | .next .. => .isTrue trivial
  | .release _ => .isTrue trivial

/-- No RPC fails, and a call has released its record when it is back. Whoever holds the lock is the
one that has it, and a pass belongs to somebody who has had it. -/
structure Healthy (s : MemService) : Prop where
  replied : ∀ c ∈ s.calls, c.call.result ≠ .failed
  waiting : ∀ c ∈ s.calls, c.call.point = .waiting ↔ c.call.released = false
  holder : ∀ i, s.lock = some i ↔ s.requests[i]? = some .holding
  owned : ∀ c ∈ s.calls, ∀ i, c.owner = some i → ∃ r, s.requests[i]? = some r ∧ r ≠ .arrived

theorem healthy_start : Healthy start where
  replied c hc := by cases hc
  waiting c hc := by cases hc
  holder i := ⟨nofun, nofun⟩
  owned c hc := by cases hc

theorem record_ne_failed {call : ResizeCall} (h : call.result ≠ .failed) :
    call.record ≠ .failed := by
  unfold ResizeCall.record
  split
  · exact h
  · exact nofun

/-- Where no RPC has failed, who is woken comes back. -/
theorem returned_of_wake {call call' : ResizeCall} (hreplied : call.result ≠ .failed)
    (hwake : call.wake = some call') : call'.point ≠ .waiting := by
  obtain ⟨-, -, -, -, ⟨errorcode, -, hreturned⟩ | ⟨hfailed, -⟩⟩ := wake_cases hwake
  · rw [hreturned]
    exact nofun
  · exact absurd hfailed (record_ne_failed hreplied)

/-- The caller, whose completion may be the one that has been handed over. -/
theorem mem_of_getElem?_delivered (hd : (s.calls.set tag c.delivered)[caller]? = some d) :
    d ∈ s.calls ∨ d = c.delivered :=
  List.mem_or_eq_of_mem_set (List.mem_of_getElem? hd)

theorem Healthy.replied_caller (h : Healthy s) (hc : s.calls[tag]? = some c)
    (hd : (s.calls.set tag c.delivered)[caller]? = some d) : d.call.result ≠ .failed := by
  rcases mem_of_getElem?_delivered hd with hold | rfl
  · exact h.replied d hold
  · exact h.replied c (List.mem_of_getElem? hc)

/-- A request that has come to something owns what it has owned. -/
theorem Healthy.owned_set (h : Healthy s) (r : MemRequest) (hr : r ≠ .arrived) {j : ℕ}
    (hc : c ∈ s.calls) (hj : c.owner = some j) :
    ∃ r', (s.requests.set i r)[j]? = some r' ∧ r' ≠ .arrived := by
  obtain ⟨r', hr', hne⟩ := h.owned c hc j hj
  by_cases heq : i = j
  · subst heq
    exact ⟨r, List.getElem?_set_self (List.getElem?_eq_some_iff.mp hr').1, hr⟩
  · exact ⟨r', (List.getElem?_set_ne heq).trans hr', hne⟩

/-- A completion is handed over. -/
theorem Healthy.handed {woken : ResizeCall} (h : Healthy s) (hc : s.calls[tag]? = some c)
    (hd : (s.calls.set tag c.delivered)[caller]? = some d) (hwake : d.call.wake = some woken) :
    Healthy
      { s with calls := (s.calls.set tag c.delivered).set caller { d with call := woken } } := by
  obtain ⟨-, hresult, -, hreleased, -⟩ := wake_cases hwake
  have hmem := List.mem_of_getElem? hc
  have hreplied := h.replied_caller hc hd
  have howned : ∀ i, d.owner = some i → ∃ r, s.requests[i]? = some r ∧ r ≠ .arrived := by
    rcases mem_of_getElem?_delivered hd with hold | rfl
    · exact h.owned d hold
    · exact h.owned c hmem
  refine ⟨fun c' hc' => ?_, fun c' hc' => ?_, h.holder, fun c' hc' => ?_⟩
  all_goals rcases mem_of_mem_set hc' with hold | rfl | rfl
  · exact h.replied c' hold
  · exact h.replied c hmem
  · dsimp only
    rw [hresult]
    exact hreplied
  · exact h.waiting c' hold
  · exact h.waiting c hmem
  · refine iff_of_false (returned_of_wake hreplied hwake) ?_
    dsimp only
    rw [hreleased]
    exact nofun
  · exact h.owned c' hold
  · exact h.owned c hmem
  · exact howned

theorem Healthy.next (h : Healthy s) (hen : (system.only NoFailure).enabled s e)
    (hnext : system.next e s = some s') : Healthy s' := by
  cases e with
  | arrive =>
    cases hnext
    refine ⟨h.replied, h.waiting, fun i => (h.holder i).trans ?_, fun c hc i hi => ?_⟩
    · dsimp only
      rcases Nat.lt_trichotomy i s.requests.length with hlt | rfl | hgt
      · rw [List.getElem?_append_left hlt]
      · simp
      · rw [List.getElem?_eq_none (Nat.le_of_lt hgt), List.getElem?_eq_none (by simp; omega)]
    · obtain ⟨r, hr, hne⟩ := h.owned c hc i hi
      refine ⟨r, ?_, hne⟩
      exact (List.getElem?_append_left (List.getElem?_eq_some_iff.mp hr).1).trans hr
  | acquire i =>
    cases hnext
    obtain ⟨⟨hfree, hi⟩, -⟩ := hen
    obtain ⟨hlt, -⟩ := List.getElem?_eq_some_iff.mp hi
    refine ⟨h.replied, h.waiting, fun j => ?_, fun c hc j hj => h.owned_set .holding nofun hc hj⟩
    dsimp only
    by_cases heq : i = j
    · subst heq
      simp [hlt]
    · rw [List.getElem?_set_ne heq, ← h.holder j, hfree]
      simp [heq]
  | release i =>
    cases hnext
    obtain ⟨⟨hlock, -⟩, -⟩ := hen
    obtain ⟨hlt, -⟩ := List.getElem?_eq_some_iff.mp ((h.holder i).mp hlock)
    refine ⟨h.replied, h.waiting, fun j => ?_, fun c hc j hj => h.owned_set .served nofun hc hj⟩
    dsimp only
    by_cases heq : i = j
    · subst heq
      refine iff_of_false nofun fun hholding => ?_
      rw [List.getElem?_set_self hlt] at hholding
      cases hholding
    · rw [List.getElem?_set_ne heq, ← h.holder j, hlock]
      simp [heq]
  | call owner agent result =>
    cases hnext
    obtain ⟨howner, hresult⟩ := hen
    refine ⟨fun c hc => ?_, fun c hc => ?_, h.holder, fun c hc i hi => ?_⟩
    all_goals rcases List.mem_append.mp hc with hold | hnew
    · exact h.replied c hold
    · rw [List.mem_singleton.mp hnew]
      exact hresult
    · exact h.waiting c hold
    · rw [List.mem_singleton.mp hnew]
      exact iff_of_true rfl rfl
    · exact h.owned c hold i hi
    · rw [List.mem_singleton.mp hnew] at hi
      exact ⟨.holding, (h.holder i).mp (howner i hi), nofun⟩
  | next tag caller =>
    obtain ⟨c, d, woken, hc, -, -, hd, -, -, hwake, rfl⟩ := next_cases hen.1 hnext
    exact h.handed hc hd hwake

theorem healthy_of_run (hrun : (system.only NoFailure).Run start s) : Healthy s :=
  System.invariant healthy_start (fun _ _ _ h hen hnext => h.next hen hnext) hrun

/-! ## Who has drawn whose completion -/

/-- A task of request `i` that waits at `agent` though its completion has been handed to somebody
else. -/
def robbed (i : ℕ) (agent : Ip4Addr) (c : TaskCall) : Bool :=
  c.owner = some i ∧ c.agent = agent ∧ c.call.point = .waiting ∧ c.call.delivered = true

/-- A call of somebody else that waits at `agent` and whose completion is still to come. -/
def spare (i : ℕ) (agent : Ip4Addr) (c : TaskCall) : Bool :=
  c.owner ≠ some i ∧ c.agent = agent ∧ c.call.point = .waiting ∧ c.call.delivered = false

/-- For every task of request `i` that has been robbed there is a completion of somebody else's. -/
def Covered (s : MemService) (i : ℕ) : Prop :=
  ∀ agent, s.calls.countP (robbed i agent) ≤ s.calls.countP (spare i agent)

instance (s : MemService) (i : ℕ) : Decidable (s.Covered i) :=
  decidable_of_iff (∀ c ∈ s.calls,
    s.calls.countP (robbed i c.agent) ≤ s.calls.countP (spare i c.agent)) <| by
    refine ⟨fun h agent => ?_, fun h c _ => h c.agent⟩
    by_cases hrobbed : ∃ c ∈ s.calls, robbed i agent c = true
    · obtain ⟨c, hc, hr⟩ := hrobbed
      obtain ⟨-, rfl, -⟩ := of_decide_eq_true hr
      exact h c hc
    · push Not at hrobbed
      rw [List.countP_eq_zero.mpr hrobbed]
      exact Nat.zero_le _

/-- What a call adds to the spare completions less the robbed tasks. -/
def weight (i : ℕ) (agent : Ip4Addr) (c : TaskCall) : ℤ :=
  (if spare i agent c then 1 else 0) - (if robbed i agent c then 1 else 0)

def margin (s : MemService) (i : ℕ) (agent : Ip4Addr) : ℤ := (s.calls.map (weight i agent)).sum

theorem margin_eq : s.margin i agent =
    s.calls.countP (spare i agent) - s.calls.countP (robbed i agent) := by
  unfold margin
  induction s.calls with
  | nil => rfl
  | cons c calls ih =>
    rw [List.map_cons, List.sum_cons, ih, List.countP_cons, List.countP_cons]
    unfold weight
    push_cast
    omega

theorem covered_iff : s.Covered i ↔ ∀ agent, 0 ≤ s.margin i agent := by
  unfold Covered
  refine forall_congr' fun agent => ?_
  rw [margin_eq]
  omega

theorem weight_of_returned (h : c.call.point ≠ .waiting) : weight i agent c = 0 := by
  simp [weight, spare, robbed, h]

theorem weight_of_ne (h : c.agent ≠ agent) : weight i agent c = 0 := by
  simp [weight, spare, robbed, h]

theorem weight_of_robbed (h : robbed i agent c = true) : weight i agent c = -1 := by
  have hspare : spare i agent c = false := by
    obtain ⟨howner, -⟩ := of_decide_eq_true h
    simp [spare, howner]
  unfold weight
  rw [h, hspare]
  rfl

theorem neg_one_le_weight : -1 ≤ weight i agent c := by
  unfold weight
  split <;> split <;> omega

/-- A completion handed over is a spare one less, or a task robbed. -/
theorem weight_delivered (hwaiting : c.call.point = .waiting) (hc : c.call.delivered = false) :
    weight i agent c.delivered = weight i agent c - if c.agent = agent then 1 else 0 := by
  by_cases hagent : c.agent = agent
  · by_cases howner : c.owner = some i
    · simp [weight, spare, robbed, TaskCall.delivered, hwaiting, hc, hagent, howner]
    · simp [weight, spare, robbed, TaskCall.delivered, hwaiting, hc, hagent, howner]
  · have hagent' : c.delivered.agent ≠ agent := hagent
    rw [weight_of_ne hagent, weight_of_ne hagent', if_neg hagent]
    rfl

/-- **What a completion does to the margin**: it uses up one, and who is woken needs none. -/
theorem margin_next {woken : ResizeCall} (h : Healthy s) (hc : s.calls[tag]? = some c)
    (hundelivered : c.call.delivered = false) (hreleased : c.call.released = false)
    (hd : (s.calls.set tag c.delivered)[caller]? = some d) (hwake : d.call.wake = some woken) :
    ({ s with calls := (s.calls.set tag c.delivered).set caller { d with call := woken } } :
      MemService).margin i agent =
      s.margin i agent - (if c.agent = agent then 1 else 0) - weight i agent d := by
  have hwaiting := (h.waiting c (List.mem_of_getElem? hc)).mpr hreleased
  have hback : weight i agent { d with call := woken } = 0 :=
    weight_of_returned (returned_of_wake (h.replied_caller hc hd) hwake)
  unfold margin
  dsimp only
  rw [Pool.sum_map_set _ hd, Pool.sum_map_set _ hc, weight_delivered hwaiting hundelivered, hback]
  omega

/-! ## When all are served -/

/-- No RPC fails, and nobody but the pass of the request that has the lock makes a call. -/
def Undisturbed (_ : MemService) : Event → Prop
  | .call owner _ result => owner ≠ none ∧ result ≠ .failed
  | _ => True

theorem noFailure_of_undisturbed (h : (system.only Undisturbed).enabled s e) :
    (system.only NoFailure).enabled s e := by
  refine ⟨h.1, ?_⟩
  cases e with
  | call owner agent result => exact h.2.2
  | arrive => trivial
  | acquire i => trivial
  | next tag caller => trivial
  | release i => trivial

/-- More tasks have been robbed at `agent` than there are completions to help them. -/
structure Stranded (s : MemService) (i : ℕ) (agent : Ip4Addr) : Prop extends Healthy s where
  lock : s.lock = some i
  short : s.margin i agent < 0

theorem Stranded.exists_robbed (h : Stranded s i agent) : ∃ c ∈ s.calls, robbed i agent c := by
  have hshort := h.short
  rw [margin_eq] at hshort
  exact List.countP_pos_iff.mp (by omega)

/-- It does not get better. -/
theorem Stranded.next (h : Stranded s i agent) (hen : (system.only Undisturbed).enabled s e)
    (hnext : system.next e s = some s') : Stranded s' i agent := by
  have hhealthy := h.toHealthy.next (noFailure_of_undisturbed hen) hnext
  cases e with
  | arrive =>
    cases hnext
    exact ⟨hhealthy, h.lock, h.short⟩
  | acquire j =>
    have hfree := hen.1.1
    rw [h.lock] at hfree
    cases hfree
  | release j =>
    obtain ⟨hlock, hback⟩ := hen.1
    obtain ⟨c, hc, hr⟩ := h.exists_robbed
    obtain ⟨howner, -, hwaiting, -⟩ := of_decide_eq_true hr
    obtain rfl : i = j := Option.some.inj (h.lock.symm.trans hlock)
    exact absurd hwaiting (hback c hc howner)
  | call owner agent' result =>
    cases hnext
    obtain ⟨howner, hothers, -⟩ := hen
    obtain ⟨j, rfl⟩ := Option.ne_none_iff_exists'.mp hothers
    obtain rfl : i = j := Option.some.inj (h.lock.symm.trans (howner j rfl))
    refine ⟨hhealthy, h.lock, ?_⟩
    have hzero : weight i agent ⟨some i, agent', .start result⟩ = 0 := by
      simp [weight, spare, robbed, ResizeCall.start]
    have hshort := h.short
    unfold margin at hshort ⊢
    dsimp only
    rw [List.map_append, List.sum_append, List.map_singleton, List.sum_singleton, hzero]
    omega
  | next tag caller =>
    obtain ⟨c, d, woken, hc, hundelivered, hreleased, hd, -, hagent, hwake, rfl⟩ :=
      next_cases hen.1 hnext
    refine ⟨hhealthy, h.lock, ?_⟩
    rw [margin_next h.toHealthy hc hundelivered hreleased hd hwake]
    have hshort := h.short
    by_cases heq : c.agent = agent
    · have hle : -1 ≤ weight i agent d := neg_one_le_weight
      rw [if_pos heq]
      omega
    · rw [if_neg heq, weight_of_ne (hagent ▸ heq)]
      omega

/-- How many tasks of request `i` are waiting. -/
def waitingFor (s : MemService) (i : ℕ) : ℕ :=
  s.calls.countP fun c => c.owner = some i ∧ c.call.point = .waiting

/-- Request `i` has the lock, and its tasks can be helped. -/
structure Helped (s : MemService) (i : ℕ) : Prop extends Healthy s where
  lock : s.lock = some i
  covered : s.Covered i

/-- A task that waits can be given its own completion, or a spare one. -/
theorem Helped.exists_completion (h : Helped s i) (hc : c ∈ s.calls) (howner : c.owner = some i)
    (hwaiting : c.call.point = .waiting) :
    ∃ (tag caller : ℕ) (t d : TaskCall), s.calls[tag]? = some t ∧ t.call.delivered = false ∧
      t.call.point = .waiting ∧ t.agent = c.agent ∧ s.calls[caller]? = some c ∧
      (s.calls.set tag t.delivered)[caller]? = some d ∧ d.owner = some i ∧
      d.call.point = .waiting ∧ d.call.released = c.call.released ∧
      robbed i c.agent d = true := by
  obtain ⟨caller, hcaller⟩ := List.mem_iff_getElem?.mp hc
  cases hdelivered : c.call.delivered with
  | false =>
    have hself : (s.calls.set caller c.delivered)[caller]? = some c.delivered :=
      List.getElem?_set_self (List.getElem?_eq_some_iff.mp hcaller).1
    exact ⟨caller, caller, c, c.delivered, hcaller, hdelivered, hwaiting, rfl, hcaller, hself,
      howner, hwaiting, rfl, decide_eq_true ⟨howner, rfl, hwaiting, rfl⟩⟩
  | true =>
    have hrobbed : robbed i c.agent c = true :=
      decide_eq_true ⟨howner, rfl, hwaiting, hdelivered⟩
    have hsome : 0 < s.calls.countP (robbed i c.agent) := List.countP_pos_iff.mpr ⟨c, hc, hrobbed⟩
    obtain ⟨t, ht, hspare⟩ := List.countP_pos_iff.mp (hsome.trans_le (h.covered c.agent))
    obtain ⟨hothers, hagent, htwaiting, htdelivered⟩ := of_decide_eq_true hspare
    obtain ⟨tag, htag⟩ := List.mem_iff_getElem?.mp ht
    have hne : tag ≠ caller := by
      rintro rfl
      obtain rfl : t = c := Option.some.inj (htag.symm.trans hcaller)
      exact hothers howner
    exact ⟨tag, caller, t, c, htag, htdelivered, htwaiting, hagent, hcaller,
      (List.getElem?_set_ne hne).trans hcaller, howner, hwaiting, rfl, hrobbed⟩

theorem Helped.exists_back (h : Helped s i) (hc : c ∈ s.calls) (howner : c.owner = some i)
    (hwaiting : c.call.point = .waiting) :
    ∃ s', (system.only Undisturbed).Run s s' ∧ Helped s' i ∧ s'.requests = s.requests ∧
      s'.waitingFor i < s.waitingFor i := by
  obtain ⟨tag, caller, t, d, ht, htdelivered, htwaiting, hagent, hcaller, hd, hdowner, hdwaiting,
    hdreleased, hrobbed⟩ := h.exists_completion hc howner hwaiting
  have htreleased := (h.waiting t (List.mem_of_getElem? ht)).mp htwaiting
  rw [(h.waiting c hc).mp hwaiting] at hdreleased
  have hreplied := h.replied_caller ht hd
  obtain ⟨errorcode, hrecord⟩ : ∃ errorcode, d.call.record = .replied errorcode := by
    cases hrecord : d.call.record with
    | failed => exact absurd hrecord (record_ne_failed hreplied)
    | replied errorcode => exact ⟨errorcode, rfl⟩
  let woken : ResizeCall := { d.call with released := true, point := .returned errorcode }
  have hwake : d.call.wake = some woken := by
    unfold ResizeCall.wake
    rw [hdreleased, hrecord]
    rfl
  have hnext := next_of_wake ht htreleased hd hwake
  have hen : (system.only Undisturbed).enabled s (.next tag caller) :=
    ⟨⟨t, ht, htdelivered, c, hcaller, hwaiting, hagent.symm⟩, trivial⟩
  have hhealthy := h.toHealthy.next (noFailure_of_undisturbed hen) hnext
  refine ⟨_, .single ⟨_, hen, hnext⟩, ⟨hhealthy, h.lock, covered_iff.mpr fun agent => ?_⟩, rfl, ?_⟩
  · rw [margin_next h.toHealthy ht htdelivered htreleased hd hwake]
    have hmargin := covered_iff.mp h.covered agent
    by_cases heq : c.agent = agent
    · rw [if_pos (hagent.trans heq), weight_of_robbed (heq ▸ hrobbed)]
      omega
    · obtain ⟨-, hdagent, -⟩ := of_decide_eq_true hrobbed
      rw [if_neg (hagent ▸ heq), weight_of_ne (hdagent ▸ heq)]
      omega
  · let waits : TaskCall → Bool := fun c => c.owner = some i ∧ c.call.point = .waiting
    have hset : (s.calls.set tag t.delivered).countP waits + (if waits t then 1 else 0) =
        s.calls.countP waits + if waits t then 1 else 0 :=
      Pool.countP_set_add waits ht t.delivered
    have hset' := Pool.countP_set_add waits hd { d with call := woken }
    rw [if_pos (show waits d = true from decide_eq_true ⟨hdowner, hdwaiting⟩),
      if_neg (show ¬ waits { d with call := woken } = true from by simp [waits, woken])] at hset'
    show ((s.calls.set tag t.delivered).set caller { d with call := woken }).countP waits <
      s.calls.countP waits
    omega

/-- All tasks come back. -/
theorem Helped.exists_quiet (h : Helped s i) :
    ∃ s', (system.only Undisturbed).Run s s' ∧ Helped s' i ∧ s'.requests = s.requests ∧
      ∀ c ∈ s'.calls, c.owner = some i → c.call.point ≠ .waiting := by
  induction hn : s.waitingFor i using Nat.strong_induction_on generalizing s with
  | _ n ih =>
    by_cases hquiet : ∀ c ∈ s.calls, c.owner = some i → c.call.point ≠ .waiting
    · exact ⟨s, .refl, h, rfl, hquiet⟩
    · push Not at hquiet
      obtain ⟨c, hc, howner, hwaiting⟩ := hquiet
      obtain ⟨s₁, hrun₁, h₁, hrequests₁, hless⟩ := h.exists_back hc howner hwaiting
      obtain ⟨s₂, hrun₂, h₂, hrequests₂, hquiet₂⟩ := ih _ (hn ▸ hless) h₁ rfl
      exact ⟨s₂, hrun₁.trans hrun₂, h₂, hrequests₂.trans hrequests₁, hquiet₂⟩

/-- Who has the lock is served. -/
theorem Helped.exists_served (h : Helped s i) :
    ∃ s', (system.only Undisturbed).Run s s' ∧ Healthy s' ∧ s'.lock = none ∧
      s'.requests = s.requests.set i .served := by
  obtain ⟨s₁, hrun₁, h₁, hrequests₁, hquiet₁⟩ := h.exists_quiet
  have hen : (system.only Undisturbed).enabled s₁ (.release i) := ⟨⟨h₁.lock, hquiet₁⟩, trivial⟩
  refine ⟨_, hrun₁.tail ⟨_, hen, rfl⟩, h₁.toHealthy.next (noFailure_of_undisturbed hen) rfl, rfl,
    ?_⟩
  show s₁.requests.set i .served = _
  rw [hrequests₁]

/-- Who takes the lock needs no help: nobody has called for it. -/
theorem Healthy.helped_acquire (h : Healthy s) (hlock : s.lock = none)
    (hi : s.requests[i]? = some .arrived) :
    ∃ s', (system.only Undisturbed).Run s s' ∧ Helped s' i ∧
      s'.requests = s.requests.set i .holding := by
  have hen : (system.only Undisturbed).enabled s (.acquire i) := ⟨⟨hlock, hi⟩, trivial⟩
  refine ⟨_, .single ⟨_, hen, rfl⟩,
    ⟨h.next (noFailure_of_undisturbed hen) rfl, rfl, fun agent => ?_⟩, rfl⟩
  have hnone : s.calls.countP (robbed i agent) = 0 := by
    refine List.countP_eq_zero.mpr fun c hc hr => ?_
    obtain ⟨howner, -⟩ := of_decide_eq_true hr
    obtain ⟨r, hr', hne⟩ := h.owned c hc i howner
    exact hne (Option.some.inj (hr'.symm.trans hi))
  show s.calls.countP (robbed i agent) ≤ _
  rw [hnone]
  exact Nat.zero_le _

/-- Where the lock is free, all are served one after the other. -/
theorem Healthy.exists_all_served (h : Healthy s) (hlock : s.lock = none) :
    ∃ s', (system.only Undisturbed).Run s s' ∧ ∀ r ∈ s'.requests, r = .served := by
  induction hn : s.requests.countP (fun r => r ≠ .served) using Nat.strong_induction_on
    generalizing s with
  | _ n ih =>
    by_cases hall : ∀ r ∈ s.requests, r = .served
    · exact ⟨s, .refl, hall⟩
    · push Not at hall
      obtain ⟨r, hr, hne⟩ := hall
      obtain ⟨i, hi⟩ := List.mem_iff_getElem?.mp hr
      have harrived : s.requests[i]? = some .arrived := by
        cases r with
        | arrived => exact hi
        | served => exact absurd rfl hne
        | holding =>
          rw [← h.holder i, hlock] at hi
          cases hi
      obtain ⟨s₁, hrun₁, h₁, hrequests₁⟩ := h.helped_acquire hlock harrived
      obtain ⟨s₂, hrun₂, h₂, hlock₂, hrequests₂⟩ := h₁.exists_served
      rw [hrequests₁, List.set_set] at hrequests₂
      have hset := Pool.countP_set_add (fun r : MemRequest => r ≠ .served) harrived .served
      have hless : s₂.requests.countP (fun r => r ≠ .served) < n := by
        rw [if_pos (by decide), if_neg (by decide)] at hset
        rw [hrequests₂, ← hn]
        omega
      obtain ⟨s₃, hrun₃, hall₃⟩ := ih _ hless h₂ hlock₂ rfl
      exact ⟨s₃, (hrun₁.trans hrun₂).trans hrun₃, hall₃⟩

/-- **Where no RPC has failed, all memory requests that have arrived can be served, if nobody else
makes a call, exactly when the tasks of the pass that has the lock can be helped.** -/
theorem all_served_iff (hrun : (system.only NoFailure).Run start s) :
    (∃ s', (system.only Undisturbed).Run s s' ∧ ∀ r ∈ s'.requests, r = .served) ↔
      ∀ i, s.lock = some i → s.Covered i := by
  have h := healthy_of_run hrun
  constructor
  · rintro ⟨s', hrun', hall⟩ i hlock
    rw [covered_iff]
    by_contra hnot
    push Not at hnot
    obtain ⟨agent, hshort⟩ := hnot
    have hstranded : Stranded s' i agent :=
      System.invariant (I := fun t => Stranded t i agent) ⟨h, hlock, hshort⟩
        (fun _ _ _ ht hen hnext => ht.next hen hnext) hrun'
    have hholding := (hstranded.holder i).mp hstranded.lock
    cases hall _ (List.mem_of_getElem? hholding)
  · intro hcovered
    cases hlock : s.lock with
    | none => exact h.exists_all_served hlock
    | some i =>
      have hhelped : Helped s i := ⟨h, hlock, hcovered i hlock⟩
      obtain ⟨s₁, hrun₁, h₁, hlock₁, -⟩ := hhelped.exists_served
      obtain ⟨s₂, hrun₂, hall⟩ := h₁.exists_all_served hlock₁
      exact ⟨s₂, hrun₁.trans hrun₂, hall⟩

/-- A new pod's call draws the completion of a task. With a call of another pod still on its way
all requests can be served, and without it none. -/
theorem all_served_after_exchange :
    ∃ s t, (system.only NoFailure).Run start s ∧ (system.only NoFailure).Run start t ∧
      s.requests = [.holding, .arrived] ∧ t.requests = [.holding, .arrived] ∧
      (∃ s', (system.only Undisturbed).Run s s' ∧ ∀ r ∈ s'.requests, r = .served) ∧
      ¬ ∃ t', (system.only Undisturbed).Run t t' ∧ ∀ r ∈ t'.requests, r = .served := by
  let others : List Event := [.call none ⟨16777343⟩ (.replied 5)]
  let exchange : List Event :=
    [.arrive, .arrive, .acquire 0, .call (some 0) ⟨16777343⟩ (.replied 0),
      .call none ⟨16777343⟩ (.replied 5), .next 0 1]
  have hhelped : (((system.only NoFailure).replay (exchange ++ others) start).any fun s =>
      decide (s.requests = [.holding, .arrived] ∧ s.lock = some 0 ∧ s.Covered 0)) = true := by
    decide +kernel
  have hstranded : (((system.only NoFailure).replay exchange start).any fun s =>
      decide (s.requests = [.holding, .arrived] ∧ s.lock = some 0 ∧ ¬ s.Covered 0)) = true := by
    decide +kernel
  obtain ⟨s, hrun, htest⟩ := System.exists_run_of_replay hhelped
  obtain ⟨t, hrun', htest'⟩ := System.exists_run_of_replay hstranded
  obtain ⟨hrequests, hlock, hcovered⟩ := of_decide_eq_true htest
  obtain ⟨hrequests', hlock', hnot⟩ := of_decide_eq_true htest'
  refine ⟨s, t, hrun, hrun', hrequests, hrequests', (all_served_iff hrun).mpr fun i hi => ?_,
    fun hserved => hnot ((all_served_iff hrun').mp hserved 0 hlock')⟩
  obtain rfl : 0 = i := Option.some.inj (hlock.symm.trans hi)
  exact hcovered

/-! ## With one -/

/-- Whoever has been served in `s'` had been so in `s`. -/
def NoneServed (s s' : MemService) : Prop :=
  ∀ j : ℕ, s'.requests[j]? = some .served → s.requests[j]? = some .served

/-- Call `k` of a task of request `i`, which has the lock, waits and has released its record. -/
structure Blocked (s : MemService) (i k : ℕ) : Prop where
  lock : s.lock = some i
  stuck : ∃ c, s.calls[k]? = some c ∧ c.owner = some i ∧ c.call.released = true ∧
    c.call.point = .waiting

theorem Blocked.next (h : Blocked s i k) (hen : system.enabled s e)
    (hnext : system.next e s = some s') :
    Blocked s' i k ∧ NoneServed s s' := by
  obtain ⟨hlock, c, hk, howner, hreleased, hwaiting⟩ := h
  cases e with
  | arrive =>
    cases hnext
    refine ⟨⟨hlock, c, hk, howner, hreleased, hwaiting⟩, fun j hj => ?_⟩
    dsimp only at hj
    rcases Nat.lt_or_ge j s.requests.length with hlt | hge
    · rw [List.getElem?_append_left hlt] at hj
      exact hj
    · rw [List.getElem?_append_right hge] at hj
      obtain ⟨hzero, hlast⟩ := List.getElem?_eq_some_iff.mp hj
      simp at hlast
  | acquire j =>
    rw [hen.1] at hlock
    cases hlock
  | release j =>
    obtain ⟨hlock', hback⟩ := hen
    rw [hlock] at hlock'
    cases hlock'
    exact absurd hwaiting (hback c (List.mem_of_getElem? hk) howner)
  | call owner agent result =>
    cases hnext
    obtain ⟨hlt, -⟩ := List.getElem?_eq_some_iff.mp hk
    exact ⟨⟨hlock, c, (List.getElem?_append_left hlt).trans hk, howner, hreleased, hwaiting⟩,
      fun j hj => hj⟩
  | next tag caller =>
    obtain ⟨t, d, woken, ht, -, htreleased, hd, -, -, hwake, rfl⟩ := next_cases hen hnext
    refine ⟨⟨hlock, c, ?_, howner, hreleased, hwaiting⟩, fun j hj => hj⟩
    -- it is neither woken nor written to
    have htag : tag ≠ k := by
      rintro rfl
      obtain rfl : t = c := Option.some.inj (ht.symm.trans hk)
      rw [hreleased] at htreleased
      cases htreleased
    have hk' : (s.calls.set tag t.delivered)[k]? = some c := (List.getElem?_set_ne htag).trans hk
    have hcaller : caller ≠ k := by
      rintro rfl
      obtain rfl : d = c := Option.some.inj (hd.symm.trans hk')
      rw [(wake_cases hwake).1] at hreleased
      cases hreleased
    exact (List.getElem?_set_ne hcaller).trans hk'

/-- **One task of the pass that finds that its RPC has failed stops all memory requests**: the lock
stays where it is, and nobody is served from then on. -/
theorem blocked_by_failure (hlock : s.lock = some i) (hk : s.calls[k]? = some c)
    (howner : c.owner = some i) (hcall : c.call = .start .failed) :
    system.enabled s (.next k k) ∧ ∃ s₁, system.next (.next k k) s = some s₁ ∧
      ∀ s', system.Run s₁ s' → s'.lock = some i ∧ NoneServed s s' := by
  obtain ⟨hlt, -⟩ := List.getElem?_eq_some_iff.mp hk
  have hwaiting : c.call.point = .waiting := by rw [hcall]; rfl
  have hdelivered : c.call.delivered = false := by rw [hcall]; rfl
  have hreleased : c.call.released = false := by rw [hcall]; rfl
  have hwake : c.delivered.call.wake = some ⟨.failed, true, true, .waiting⟩ := by
    unfold TaskCall.delivered
    rw [hcall]
    rfl
  let s₁ : MemService :=
    { s with
      calls := (s.calls.set k c.delivered).set k
        { c.delivered with call := ⟨.failed, true, true, .waiting⟩ } }
  have hnext : system.next (.next k k) s = some s₁ :=
    next_of_wake hk hreleased (List.getElem?_set_self hlt) hwake
  have hblocked : Blocked s₁ i k := by
    refine ⟨hlock, { c.delivered with call := ⟨.failed, true, true, .waiting⟩ }, ?_, howner, rfl,
      rfl⟩
    exact List.getElem?_set_self (by simpa using hlt)
  refine ⟨⟨c, hk, hdelivered, c, hk, hwaiting, rfl⟩, s₁, hnext, fun s' hrun => ?_⟩
  have hinv : Blocked s' i k ∧ NoneServed s s' := by
    refine System.invariant (I := fun t => Blocked t i k ∧ NoneServed s t)
      ⟨hblocked, fun j hj => hj⟩ (fun e t t' ht hen hnext => ?_) hrun
    obtain ⟨hblocked', hback⟩ := ht.1.next hen hnext
    exact ⟨hblocked', fun j hj => ht.2 j (hback j hj)⟩
  exact ⟨hinv.1.lock, hinv.2⟩

theorem blocked_by_failure_of_one_call :
    ∃ s s₁, system.Run start s ∧ system.Run s s₁ ∧ s.requests = [.holding, .arrived] ∧
      ∀ s', system.Run s₁ s' → s'.lock = some 0 ∧ NoneServed s s' := by
  have hreplay : system.replay
      [.arrive, .arrive, .acquire 0, .call (some 0) ⟨16777343⟩ .failed] start =
        some ⟨some 0, [.holding, .arrived], [⟨some 0, ⟨16777343⟩, .start .failed⟩]⟩ := by
    decide +kernel
  obtain ⟨hen, s₁, hnext, hall⟩ := blocked_by_failure (i := 0) (k := 0)
    (s := ⟨some 0, [.holding, .arrived], [⟨some 0, ⟨16777343⟩, .start .failed⟩]⟩) rfl rfl rfl rfl
  exact ⟨_, s₁, System.replay_run hreplay, .single ⟨_, hen, hnext⟩, rfl, hall⟩

end MemService

end EcGcm
