import EcGcm.Lib.System

/-!
# Memory resizes and their completions

`AgentClient::resizeMemoryLimitPages` starts an RPC and waits for its completion on a queue that
all callers of the agent share (`cq_resize_mem_`). `handle_reclaim_memory` makes such calls from
one thread per container. The queue hands each completion to *some* waiting caller; the caller does
not look at the tag it got but at its own record, whose status and reply are OK and 0 until its own
completion has been delivered. A caller whose RPC failed releases its record and waits again.

Nobody may touch a released record: neither a caller that looks at it once more nor a completion
that `Next` writes into it before it hands it over. Such a step has no next state. `Next` never
reports a shut-down queue: nobody shuts it down.
-/

set_option autoImplicit false

namespace EcGcm

/-- How an RPC ends. -/
inductive RpcResult
  | failed
  | replied (errorcode : Int32)
  deriving DecidableEq

inductive CallPoint
  /-- In `cq_resize_mem_.Next`. -/
  | waiting
  | returned (ret : Int32)
  deriving DecidableEq

/-- A call of `resizeMemoryLimitPages`, with its record. -/
structure ResizeCall where
  result : RpcResult
  /-- Its own completion has been handed to somebody. -/
  delivered : Bool
  /-- `delete call` has been executed. -/
  released : Bool
  point : CallPoint
  deriving DecidableEq

namespace ResizeCall

def start (result : RpcResult) : ResizeCall := ⟨result, false, false, .waiting⟩

/-- `call->status` and `call->reply`. -/
def record (c : ResizeCall) : RpcResult := if c.delivered then c.result else .replied 0

/-- The loop body, after `Next` has come back. -/
def wake (c : ResizeCall) : Option ResizeCall :=
  if c.released then none
  else
    match c.record with
    | .replied errorcode => some { c with released := true, point := .returned errorcode }
    | .failed => some { c with released := true, point := .waiting }

/-- What `Next` writes before it comes back. -/
def deliver (c : ResizeCall) : Option ResizeCall :=
  if c.released then none else some { c with delivered := true }

end ResizeCall

/-! ## The queue -/

namespace Completions

inductive Event
  | start (result : RpcResult)
  /-- `Next` hands the completion of call `tag` to call `caller`. -/
  | next (tag caller : ℕ)

/-- The calls so far; a call's tag is its place in the list. -/
abbrev State := List ResizeCall

/-- A completion is delivered once, and only to a caller that waits. -/
def enabled (s : State) : Event → Prop
  | .start _ => True
  | .next tag caller =>
    (∃ c ∈ s[tag]?, c.delivered = false) ∧ ∃ c ∈ s[caller]?, c.point = .waiting

instance (s : State) : (e : Event) → Decidable (enabled s e)
  | .start _ => .isTrue trivial
  | .next .. => inferInstanceAs (Decidable ((∃ c ∈ _, _) ∧ ∃ c ∈ _, _))

def step : Event → State → Option State
  | .start result, s => some (s ++ [.start result])
  | .next tag caller, s => do
    let c ← s[tag]?
    let c' ← c.deliver
    let s := s.set tag c'
    let d ← s[caller]?
    let d' ← d.wake
    pure (s.set caller d')

/-- Any number of calls, any order of completions. -/
def system : System State Event := ⟨enabled, step⟩

instance (s : State) (e : Event) : Decidable (system.enabled s e) :=
  inferInstanceAs (Decidable (enabled s e))

/-- Each call gets its own answer. -/
structure OwnAnswers (s : State) : Prop where
  notWaiting : ∀ c ∈ s, c.delivered = true → c.point ≠ .waiting
  success : ∀ c ∈ s, c.point = .returned 0 → c.delivered = true ∧ c.result = .replied 0
  released : ∀ c ∈ s, c.released = true → c.delivered = true

instance (s : State) : Decidable (OwnAnswers s) :=
  decidable_of_iff
    ((∀ c ∈ s, c.delivered = true → c.point ≠ .waiting) ∧
      (∀ c ∈ s, c.point = .returned 0 → c.delivered = true ∧ c.result = .replied 0) ∧
      ∀ c ∈ s, c.released = true → c.delivered = true)
    ⟨fun ⟨h₁, h₂, h₃⟩ => ⟨h₁, h₂, h₃⟩, fun ⟨h₁, h₂, h₃⟩ => ⟨h₁, h₂, h₃⟩⟩

/-- The completion goes to the call it belongs to, and that call's RPC did not fail. -/
def OwnSuccess (s : State) : Event → Prop
  | .start _ => True
  | .next tag caller => tag = caller ∧ ∀ c ∈ s[tag]?, c.result ≠ .failed

instance (s : State) : (e : Event) → Decidable (OwnSuccess s e)
  | .start _ => .isTrue trivial
  | .next .. => inferInstanceAs (Decidable (_ ∧ ∀ c ∈ _, _))

instance (s : State) (e : Event) : Decidable ((system.only OwnSuccess).enabled s e) :=
  inferInstanceAs (Decidable (_ ∧ _))

/-! ## One completion -/

/-- A call is waiting for its completion, or has come back with it. -/
def Clean (c : ResizeCall) : Prop :=
  c = .start c.result ∨ ∃ errorcode, c = ⟨.replied errorcode, true, true, .returned errorcode⟩

variable {s s' : State} {tag caller : ℕ} {c : ResizeCall}

theorem Clean.fresh_of_waiting (h : Clean c) (hw : c.point = .waiting) : c = .start c.result := by
  rcases h with hfresh | ⟨errorcode, rfl⟩
  · exact hfresh
  · cases hw

theorem Clean.fresh_of_undelivered (h : Clean c) (hd : c.delivered = false) :
    c = .start c.result := by
  rcases h with hfresh | ⟨errorcode, rfl⟩
  · exact hfresh
  · cases hd

theorem ownAnswers_of_clean (h : ∀ c ∈ s, Clean c) : OwnAnswers s where
  notWaiting c hc hd hw := by
    have hfresh := (h c hc).fresh_of_waiting hw
    rw [hfresh] at hd
    cases hd
  success c hc hp := by
    rcases h c hc with hfresh | ⟨errorcode, rfl⟩
    · rw [hfresh] at hp
      cases hp
    · cases hp
      exact ⟨rfl, rfl⟩
  released c hc hr := by
    rcases h c hc with hfresh | ⟨errorcode, rfl⟩
    · rw [hfresh] at hr
      cases hr
    · rfl

/-- What a delivery does to a state in which all calls are clean: whose completion it is and who is
woken were both waiting for the first time. -/
theorem step_next (h : ∀ c ∈ s, Clean c) (hen : enabled s (.next tag caller))
    (hstep : step (.next tag caller) s = some s') :
    ∃ sent result c', s[tag]? = some (.start sent) ∧ s[caller]? = some (.start result) ∧
      c' = (if tag = caller then
        (match result with
          | .replied errorcode => ⟨result, true, true, .returned errorcode⟩
          | .failed => ⟨result, true, true, .waiting⟩)
        else ⟨result, false, true, .returned 0⟩) ∧
      s' = (s.set tag ⟨sent, true, false, .waiting⟩).set caller c' := by
  obtain ⟨⟨c, hc, hundelivered⟩, t, ht, hwait⟩ := hen
  have hsent := (h c (List.mem_of_getElem? hc)).fresh_of_undelivered hundelivered
  have hfresh := (h t (List.mem_of_getElem? ht)).fresh_of_waiting hwait
  obtain ⟨c₀, hc₀, hstep⟩ := Option.bind_eq_some_iff.mp hstep
  obtain rfl : c = c₀ := Option.some.inj ((Option.mem_def.mp hc).symm.trans hc₀)
  obtain ⟨c₁, hdeliver, hstep⟩ := Option.bind_eq_some_iff.mp hstep
  rw [hsent] at hdeliver
  cases hdeliver
  obtain ⟨d, hd, hstep⟩ := Option.bind_eq_some_iff.mp hstep
  obtain ⟨c', hwake, hset⟩ := Option.bind_eq_some_iff.mp hstep
  cases hset
  refine ⟨c.result, t.result, c', hsent ▸ hc, hfresh ▸ ht, ?_, rfl⟩
  split
  · rename_i heq
    subst heq
    obtain rfl : c = t := Option.some.inj ((Option.mem_def.mp hc).symm.trans ht)
    rw [List.getElem?_set_self (List.getElem?_eq_some_iff.mp hc₀).1] at hd
    cases hd
    cases hr : c.result with
    | replied errorcode =>
      rw [hr] at hwake
      cases hwake
      rfl
    | failed =>
      rw [hr] at hwake
      cases hwake
      rfl
  · rename_i hne
    rw [List.getElem?_set_ne hne, show s[caller]? = some t from ht, hfresh] at hd
    cases hd
    cases hwake
    rfl

theorem mem_woken {c' t : ResizeCall} (ht : s[caller]? = some c) :
    c' ∈ (s.set tag t).set caller c' := by
  obtain ⟨hlt, -⟩ := List.getElem?_eq_some_iff.mp ht
  exact List.mem_set (by rwa [List.length_set]) c'

theorem Clean.step_own (h : ∀ c ∈ s, Clean c) (hen : enabled s (.next tag caller))
    (hown : OwnSuccess s (.next tag caller)) (hstep : step (.next tag caller) s = some s') :
    ∀ c ∈ s', Clean c := by
  obtain ⟨rfl, hok⟩ := hown
  obtain ⟨sent, result, c', -, ht, hc', rfl⟩ := step_next h hen hstep
  rw [if_pos rfl] at hc'
  intro c hc
  rw [List.set_set] at hc
  rcases List.mem_or_eq_of_mem_set hc with hold | rfl
  · exact h c hold
  · cases hr : result with
    | failed =>
      rw [hr] at ht
      exact absurd rfl (hok _ ht)
    | replied errorcode =>
      rw [hr] at hc'
      exact .inr ⟨errorcode, hc'⟩

/-- Any other completion breaks the promise at once: a caller whose RPC failed waits again, and a
caller that drew another's completion has released its record too early. -/
theorem not_ownAnswers_of_step (h : ∀ c ∈ s, Clean c) (hen : enabled s (.next tag caller))
    (hstep : step (.next tag caller) s = some s') (hnot : ¬ OwnSuccess s (.next tag caller)) :
    ¬ OwnAnswers s' := by
  obtain ⟨sent, result, c', -, ht, hc', rfl⟩ := step_next h hen hstep
  intro hanswers
  have hmem : c' ∈ (s.set tag ⟨sent, true, false, .waiting⟩).set caller c' := mem_woken ht
  by_cases heq : tag = caller
  · rw [if_pos heq] at hc'
    cases hr : result with
    | failed =>
      rw [hr] at hc'
      exact hanswers.notWaiting c' hmem (by rw [hc']) (by rw [hc'])
    | replied errorcode =>
      refine hnot ⟨heq, fun c hc => ?_⟩
      rw [heq, ht, hr] at hc
      cases hc
      exact nofun
  · rw [if_neg heq] at hc'
    have hdelivered := hanswers.released c' hmem (by rw [hc'])
    rw [hc'] at hdelivered
    cases hdelivered

theorem Clean.step {e : Event} (h : ∀ c ∈ s, Clean c) (hen : enabled s e)
    (hown : OwnSuccess s e) (hstep : step e s = some s') : ∀ c ∈ s', Clean c := by
  cases e with
  | next tag caller => exact Clean.step_own h hen hown hstep
  | start result =>
    cases hstep
    intro c hc
    rcases List.mem_append.mp hc with hold | hnew
    · exact h c hold
    · rw [List.mem_singleton.mp hnew]
      exact .inl rfl

/-- **As long as every caller draws its own completion and no RPC fails, each call gets its own
answer**, and the first delivery that is not like that breaks it. -/
theorem ownAnswers_of_run (s : State) (hrun : (system.only OwnSuccess).Run [] s) :
    OwnAnswers s ∧ ∀ e s', system.enabled s e → system.next e s = some s' →
      (OwnAnswers s' ↔ OwnSuccess s e) := by
  have hclean : ∀ c ∈ s, Clean c := by
    refine System.invariant (I := fun s : State => ∀ c ∈ s, Clean c) ?_ ?_ hrun
    · exact fun c hc => by cases hc
    · exact fun e t t' ht hen hnext => Clean.step ht hen.1 hen.2 hnext
  refine ⟨ownAnswers_of_clean hclean, fun e s' hen hnext => ⟨fun hanswers => ?_, fun hown => ?_⟩⟩
  · by_contra hnot
    cases e with
    | start result => exact hnot trivial
    | next tag caller => exact not_ownAnswers_of_step hclean hen hnext hnot hanswers
  · exact ownAnswers_of_clean (Clean.step hclean hen hown hnext)

/-- Two calls that wait at the same time; the second one is answered first. -/
theorem ownAnswers_of_two_calls :
    ∃ s, (system.only OwnSuccess).Run [] s ∧ OwnAnswers s ∧
      s.map ResizeCall.point = [.returned 0, .returned 5] := by
  have hreplay : (((system.only OwnSuccess).replay [.start (.replied 0), .start (.replied 5),
      .next 1 1, .next 0 0] []).any fun s =>
        s.map ResizeCall.point = [.returned 0, .returned 5]) = true := by
    decide +kernel
  obtain ⟨s, hrun, hs⟩ := System.exists_run_of_replay hreplay
  exact ⟨s, hrun, (ownAnswers_of_run s hrun).1, of_decide_eq_true hs⟩

/-- The first call's RPC is going to fail, but it draws the completion of the second, finds its own
record untouched and reports success. -/
theorem success_reported_for_failed_rpc : ¬ ∀ s, system.Run [] s → OwnAnswers s := by
  intro hclaim
  have hreplay : ((system.replay [.start .failed, .start (.replied 0), .next 1 0] []).any fun s =>
      ¬ OwnAnswers s) = true := by
    decide +kernel
  obtain ⟨s, hrun, hs⟩ := System.exists_run_of_replay hreplay
  exact of_decide_eq_true hs (hclaim s hrun)

end Completions

end EcGcm
