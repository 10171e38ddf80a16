import EcGcm.Lib.System

/-!
# Condition variables

Threads that sleep until a predicate on a shared state holds, and a program that changes the state
and calls `notify_one`. What the standard promises of a condition variable is little: a
notification wakes *one* of the threads that sleep, whichever it likes; a thread that has been
woken gets the lock at some later time and tests its predicate then, and sleeps on when it does
not hold; and a thread may wake up without being notified.

The waiters need not wait for the same thing. That is where notifications get lost: `notify_one`
does not look at predicates, and a waiter that finds its own false has used the notification up.
A monitor is `Fed` when nobody sleeps whose predicate holds. A step keeps a monitor fed exactly
when it *serves* everybody it makes ready (`fed_act_iff`); with one waiter at a time every
signalling step does (`serves_of_alone`).
-/

set_option autoImplicit false

namespace EcGcm

/-- A thread inside `wait`: asleep, or awake and on its way to the lock. -/
structure Waiter (ω : Type) where
  what : ω
  awake : Bool
  deriving DecidableEq

namespace Waiter

variable {ω : Type}

def asleep (w : ω) : Waiter ω := ⟨w, false⟩

def woken (w : Waiter ω) : Waiter ω := { w with awake := true }

def sentBack (w : Waiter ω) : Waiter ω := { w with awake := false }

@[simp] theorem what_woken (w : Waiter ω) : w.woken.what = w.what := rfl

@[simp] theorem what_sentBack (w : Waiter ω) : w.sentBack.what = w.what := rfl

end Waiter

/-- What goes on around one condition variable. -/
structure Protocol (σ ε κ ω : Type) where
  /-- The rest of the program. -/
  program : System σ ε
  /-- The step calls `notify_one`. -/
  signals : σ → ε → Bool
  /-- A thread comes in. It leaves again, or begins to wait; `none` is the end of the process. -/
  arrive : κ → σ → Option (σ × Option ω)
  /-- The predicate of `wait`. -/
  ready : ω → σ → Bool
  /-- What a thread does that has found its predicate true, before it gives the lock back. -/
  proceed : ω → σ → Option σ

/-- The shared state, and the threads in `wait`. -/
structure Monitor (σ ω : Type) where
  shared : σ
  waiters : List (Waiter ω)
  deriving DecidableEq

namespace Monitor

/-- `chosen` is the waiter a notification goes to, when the step sends one. -/
inductive Event (ε κ : Type)
  | act (e : ε) (chosen : ℕ)
  | arrive (k : κ)
  | wake (i : ℕ)
  | spurious (i : ℕ)

variable {σ ε κ ω : Type}

/-- Somebody sleeps. -/
def SomeoneAsleep (ws : List (Waiter ω)) : Prop := ∃ w ∈ ws, w.awake = false

instance (ws : List (Waiter ω)) : Decidable (SomeoneAsleep ws) :=
  inferInstanceAs (Decidable (∃ w ∈ ws, _))

/-- The waiter at `i` sleeps. -/
def Asleep (ws : List (Waiter ω)) (i : ℕ) : Prop := ∃ w, ws[i]? = some w ∧ w.awake = false

instance (ws : List (Waiter ω)) (i : ℕ) : Decidable (Asleep ws i) :=
  decidable_of_iff (∃ w ∈ ws[i]?, w.awake = false) (by simp [Asleep])

/-- A notification unblocks one of the waiting threads, if there are any. -/
def enabled (P : Protocol σ ε κ ω) (M : Monitor σ ω) : Event ε κ → Prop
  | .act e chosen => P.program.enabled M.shared e ∧
      (P.signals M.shared e = true → SomeoneAsleep M.waiters → Asleep M.waiters chosen)
  | .arrive _ => True
  | .wake i => ∃ w ∈ M.waiters[i]?, w.awake = true
  | .spurious i => Asleep M.waiters i

instance (P : Protocol σ ε κ ω) [∀ s e, Decidable (P.program.enabled s e)] (M : Monitor σ ω) :
    (ev : Event ε κ) → Decidable (enabled P M ev)
  | .act _ _ => inferInstanceAs (Decidable (_ ∧ _))
  | .arrive _ => .isTrue trivial
  | .wake _ => inferInstanceAs (Decidable (∃ w ∈ _, _))
  | .spurious _ => inferInstanceAs (Decidable (Asleep _ _))

/-- `notify_one`, when the choice falls on `chosen`. -/
def notifyOne (chosen : ℕ) (ws : List (Waiter ω)) : List (Waiter ω) :=
  ws.modify chosen Waiter.woken

/-- The waiter at `i` has the lock: it tests its predicate. -/
def test (P : Protocol σ ε κ ω) (M : Monitor σ ω) (i : ℕ) (w : Waiter ω) : Option (Monitor σ ω) :=
  if P.ready w.what M.shared then
    (P.proceed w.what M.shared).map fun s => ⟨s, M.waiters.eraseIdx i⟩
  else some ⟨M.shared, M.waiters.modify i Waiter.sentBack⟩

def next (P : Protocol σ ε κ ω) (ev : Event ε κ) (M : Monitor σ ω) : Option (Monitor σ ω) :=
  match ev with
  | .act e chosen => (P.program.next e M.shared).map fun s =>
      ⟨s, if P.signals M.shared e then notifyOne chosen M.waiters else M.waiters⟩
  | .arrive k => (P.arrive k M.shared).map fun r =>
      ⟨r.1, M.waiters ++ (r.2.map Waiter.asleep).toList⟩
  | .wake i => M.waiters[i]?.bind (test P M i)
  | .spurious i => some ⟨M.shared, M.waiters.modify i Waiter.woken⟩

/-- Every order of steps, notifications and wake-ups. -/
def system (P : Protocol σ ε κ ω) : System (Monitor σ ω) (Event ε κ) := ⟨enabled P, next P⟩

instance (P : Protocol σ ε κ ω) [∀ s e, Decidable (P.program.enabled s e)] (M : Monitor σ ω)
    (ev : Event ε κ) : Decidable ((system P).enabled M ev) :=
  inferInstanceAs (Decidable (enabled P M ev))

/-! ## What a step does -/

section Steps

variable {P : Protocol σ ε κ ω} {M M' : Monitor σ ω} {i : ℕ} {w : Waiter ω} {e : ε}
  {ws : List (Waiter ω)}

theorem next_act {chosen : ℕ} : next P (.act e chosen) M = some M' ↔
    ∃ s, P.program.next e M.shared = some s ∧
      M' = ⟨s, if P.signals M.shared e then notifyOne chosen M.waiters else M.waiters⟩ := by
  unfold next
  rw [Option.map_eq_some_iff]
  exact exists_congr fun s => and_congr_right fun _ => eq_comm

theorem next_arrive {k : κ} : next P (.arrive k) M = some M' ↔
    ∃ r, P.arrive k M.shared = some r ∧
      M' = ⟨r.1, M.waiters ++ (r.2.map Waiter.asleep).toList⟩ := by
  unfold next
  rw [Option.map_eq_some_iff]
  exact exists_congr fun s => and_congr_right fun _ => eq_comm

/-- A waiter that gets the lock goes its way, or goes back to sleep. -/
theorem next_wake : next P (.wake i) M = some M' ↔ ∃ w, M.waiters[i]? = some w ∧
    ((P.ready w.what M.shared = true ∧ ∃ s, P.proceed w.what M.shared = some s ∧
        M' = ⟨s, M.waiters.eraseIdx i⟩) ∨
      (P.ready w.what M.shared = false ∧
        M' = ⟨M.shared, M.waiters.modify i Waiter.sentBack⟩)) := by
  unfold next test
  rw [Option.bind_eq_some_iff]
  refine exists_congr fun w => and_congr_right fun _ => ?_
  cases P.ready w.what M.shared with
  | true =>
    simp only [if_true, Option.map_eq_some_iff, true_and, Bool.true_eq_false, false_and, or_false]
    exact exists_congr fun s => and_congr_right fun _ => eq_comm
  | false =>
    simp only [Bool.false_eq_true, if_false, Option.some.injEq, false_and, true_and, false_or]
    exact eq_comm

theorem mem_modify {f : Waiter ω → Waiter ω} (h : w ∈ ws.modify i f) :
    (∃ v, ws[i]? = some v ∧ w = f v) ∨ ∃ j, j ≠ i ∧ ws[j]? = some w := by
  obtain ⟨j, hj⟩ := List.mem_iff_getElem?.mp h
  by_cases hij : i = j
  · subst hij
    rw [List.getElem?_modify_eq] at hj
    obtain ⟨v, hv, rfl⟩ := Option.map_eq_some_iff.mp hj
    exact .inl ⟨v, hv, rfl⟩
  · rw [List.getElem?_modify_ne f ws hij] at hj
    exact .inr ⟨j, Ne.symm hij, hj⟩

theorem mem_modify_of_ne {f : Waiter ω → Waiter ω} {j : ℕ}
    (hj : ws[j]? = some w) (hne : i ≠ j) : w ∈ ws.modify i f := by
  refine List.mem_iff_getElem?.mpr ⟨j, ?_⟩
  rw [List.getElem?_modify_ne f ws hne]
  exact hj

theorem map_what_modify {f : Waiter ω → Waiter ω} (hf : ∀ w, (f w).what = w.what) :
    (ws.modify i f).map Waiter.what = ws.map Waiter.what := by
  refine List.ext_getElem? fun j => ?_
  rw [List.getElem?_map, List.getElem?_map]
  by_cases hij : i = j
  · subst hij
    rw [List.getElem?_modify_eq]
    cases ws[i]? with
    | none => rfl
    | some w => exact congrArg some (hf w)
  · rw [List.getElem?_modify_ne f ws hij]

/-- Who sleeps after a notification was not the one notified. -/
theorem mem_notifyOne (h : w ∈ notifyOne i ws) (hw : w.awake = false) :
    ∃ j, j ≠ i ∧ ws[j]? = some w := by
  refine (mem_modify h).resolve_left ?_
  rintro ⟨v, -, rfl⟩
  cases hw

end Steps

/-! ## Nobody sleeps whose predicate holds -/

section Fed

variable {P : Protocol σ ε κ ω} {M M' : Monitor σ ω} {Q : ω → σ → Prop}

/-- Nobody sleeps for whom `Q` holds. -/
def Fed (Q : ω → σ → Prop) (M : Monitor σ ω) : Prop :=
  ∀ w ∈ M.waiters, w.awake = false → ¬ Q w.what M.shared

/-- Whoever sleeps and is ready after the step has been notified by it. -/
def Serves (P : Protocol σ ε κ ω) (Q : ω → σ → Prop) (M : Monitor σ ω) : Event ε κ → Prop
  | .act e chosen => ∀ s ∈ P.program.next e M.shared, ∀ j w, M.waiters[j]? = some w →
      w.awake = false → Q w.what s → P.signals M.shared e = true ∧ j = chosen
  | _ => True

/-- A step of the program keeps a monitor fed if and only if it serves. -/
theorem fed_act_iff {e : ε} {chosen : ℕ} (hnext : next P (.act e chosen) M = some M') :
    Fed Q M' ↔ Serves P Q M (.act e chosen) := by
  obtain ⟨s, hs, rfl⟩ := next_act.mp hnext
  constructor
  · intro h s' hs' j w hj hw hq
    cases hs.symm.trans hs'
    by_contra hcon
    refine h w ?_ hw hq
    dsimp only
    split
    · rename_i hsig
      -- the notification went elsewhere
      exact mem_modify_of_ne hj fun hc => hcon ⟨hsig, hc.symm⟩
    · exact List.mem_of_getElem? hj
  · intro h w hw hsleep hq
    dsimp only at hw hq
    split at hw
    · obtain ⟨j, hne, hj⟩ := mem_notifyOne hw hsleep
      exact hne (h s hs j w hj hsleep hq).2
    · rename_i hsig
      obtain ⟨j, hj⟩ := List.mem_iff_getElem?.mp hw
      exact hsig (h s hs j w hj hsleep hq).1

/-- What the threads of a monitor may not do to each other: nobody becomes ready through a thread
that comes in, or through one that goes its way. -/
structure Considerate (P : Protocol σ ε κ ω) (Q : ω → σ → Prop) : Prop where
  ready : ∀ {w s}, Q w s → P.ready w s = true
  arrive : ∀ {k s s' o}, P.arrive k s = some (s', o) → ∀ w, Q w s' → Q w s
  sleeps : ∀ {k s s' w}, P.arrive k s = some (s', some w) → ¬ Q w s'
  proceed : ∀ {v s s'}, P.proceed v s = some s' → ∀ w, Q w s' → Q w s

theorem Considerate.fed_next (h : Considerate P Q) {ev : Event ε κ} (hfed : Fed Q M)
    (hserves : Serves P Q M ev) (hnext : next P ev M = some M') : Fed Q M' := by
  cases ev with
  | act e chosen => exact (fed_act_iff hnext).mpr hserves
  | arrive k =>
    obtain ⟨⟨s, o⟩, hr, rfl⟩ := next_arrive.mp hnext
    intro w hw hsleep hq
    rcases List.mem_append.mp hw with hold | hnew
    · exact hfed w hold hsleep (h.arrive hr _ hq)
    · cases o with
      | none => cases hnew
      | some v =>
        obtain rfl := List.mem_singleton.mp hnew
        exact h.sleeps hr hq
  | wake i =>
    obtain ⟨v, hv, ⟨-, s, hs, rfl⟩ | ⟨hready, rfl⟩⟩ := next_wake.mp hnext
    · intro w hw hsleep hq
      exact hfed w (List.mem_of_mem_eraseIdx hw) hsleep (h.proceed hs _ hq)
    · intro w hw hsleep hq
      rcases mem_modify hw with ⟨u, hu, rfl⟩ | ⟨j, -, hj⟩
      · cases hv.symm.trans hu
        have htrue := h.ready hq
        rw [Waiter.what_sentBack, hready] at htrue
        cases htrue
      · exact hfed w (List.mem_of_getElem? hj) hsleep hq
  | spurious i =>
    cases hnext
    intro w hw hsleep
    obtain ⟨j, _, hj⟩ := mem_notifyOne hw hsleep
    exact hfed w (List.mem_of_getElem? hj) hsleep

/-- A step of the program that makes a waiter ready signals. -/
def Announces (P : Protocol σ ε κ ω) (Q : ω → σ → Prop) : Prop :=
  ∀ e s s' w, P.program.enabled s e → P.program.next e s = some s' → ¬ Q w s → Q w s' →
    P.signals s e = true

/-- With one waiter, an enabled notification cannot go wrong. -/
theorem serves_of_alone (hann : Announces P Q) (hfed : Fed Q M) (halone : M.waiters.length ≤ 1)
    {ev : Event ε κ} (hen : enabled P M ev) : Serves P Q M ev := by
  cases ev with
  | act e chosen =>
    intro s hs j w hj hsleep hq
    have hmem := List.mem_of_getElem? hj
    have hsig := hann e M.shared s w.what hen.1 hs (hfed w hmem hsleep) hq
    obtain ⟨v, hv, -⟩ := hen.2 hsig ⟨w, hmem, hsleep⟩
    have hlt := (List.getElem?_eq_some_iff.mp hj).1
    have hlt' := (List.getElem?_eq_some_iff.mp hv).1
    exact ⟨hsig, by omega⟩
  | arrive k => trivial
  | wake i => trivial
  | spurious i => trivial

/-- Nobody comes in while somebody waits. -/
def Alone (M : Monitor σ ω) : Event ε κ → Prop
  | .arrive _ => M.waiters = []
  | _ => True

instance (M : Monitor σ ω) : (ev : Event ε κ) → Decidable (Alone M ev)
  | .act _ _ => .isTrue trivial
  | .arrive _ => inferInstanceAs (Decidable (M.waiters = []))
  | .wake _ => .isTrue trivial
  | .spurious _ => .isTrue trivial

theorem alone_next {ev : Event ε κ} (hlen : M.waiters.length ≤ 1) (halone : Alone M ev)
    (hnext : next P ev M = some M') : M'.waiters.length ≤ 1 := by
  cases ev with
  | act e chosen =>
    obtain ⟨s, -, rfl⟩ := next_act.mp hnext
    dsimp only
    split
    · exact (List.length_modify ..).trans_le hlen
    · exact hlen
  | arrive k =>
    obtain ⟨r, -, rfl⟩ := next_arrive.mp hnext
    have hnil : M.waiters = [] := halone
    dsimp only
    rw [hnil, List.nil_append]
    cases r.2 <;> simp
  | wake i =>
    obtain ⟨w, -, ⟨-, s, -, rfl⟩ | ⟨-, rfl⟩⟩ := next_wake.mp hnext
    · exact (List.length_eraseIdx_le ..).trans hlen
    · exact (List.length_modify ..).trans_le hlen
  | spurious i =>
    cases hnext
    exact (List.length_modify ..).trans_le hlen

/-- **One waiter at a time is never left asleep.** -/
theorem Considerate.fed_of_alone (h : Considerate P Q) (hann : Announces P Q)
    (hfed : Fed Q M) (hlen : M.waiters.length ≤ 1)
    (hrun : ((system P).only Alone).Run M M') : Fed Q M' ∧ M'.waiters.length ≤ 1 := by
  refine System.invariant (I := fun N => Fed Q N ∧ N.waiters.length ≤ 1) ⟨hfed, hlen⟩
    (fun ev N N' hI hen hnext => ?_) hrun
  exact ⟨h.fed_next hI.1 (serves_of_alone hann hI.1 hI.2 hen.1) hnext,
    alone_next hI.2 hen.2 hnext⟩

end Fed

/-! ## Nobody wakes up by itself -/

/-- No notification, and no spurious wake-up. -/
def Silent (P : Protocol σ ε κ ω) (M : Monitor σ ω) : Event ε κ → Prop
  | .act e _ => P.signals M.shared e = false
  | .spurious _ => False
  | _ => True

/-- While nobody signals, whoever sleeps goes on sleeping, whether its predicate holds or not. -/
theorem asleep_of_silent {P : Protocol σ ε κ ω} {M M' : Monitor σ ω} {w : Waiter ω}
    (hw : w ∈ M.waiters) (hsleep : w.awake = false)
    (hrun : ((system P).only (Silent P)).Run M M') : w ∈ M'.waiters := by
  refine System.invariant (I := fun N => w ∈ N.waiters) hw (fun ev N N' hI hen hnext => ?_) hrun
  cases ev with
  | act e chosen =>
    obtain ⟨s, -, rfl⟩ := next_act.mp hnext
    have hsig : P.signals N.shared e = false := hen.2
    dsimp only
    rw [hsig]
    exact hI
  | arrive k =>
    obtain ⟨r, -, rfl⟩ := next_arrive.mp hnext
    exact List.mem_append_left _ hI
  | wake i =>
    -- the one that moves is awake
    have hawake : ∃ v ∈ N.waiters[i]?, v.awake = true := hen.1
    obtain ⟨v, hv, hva⟩ := hawake
    obtain ⟨j, hj⟩ := List.mem_iff_getElem?.mp hI
    have hne : i ≠ j := by
      rintro rfl
      cases hv.symm.trans hj
      rw [hsleep] at hva
      cases hva
    obtain ⟨u, -, ⟨-, s, -, rfl⟩ | ⟨-, rfl⟩⟩ := next_wake.mp hnext
    · exact List.mem_eraseIdx_iff_getElem?.mpr ⟨j, hne.symm, hj⟩
    · exact mem_modify_of_ne hj hne
  | spurious i => exact absurd hen.2 id

end Monitor

end EcGcm
