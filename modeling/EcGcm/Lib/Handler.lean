import Mathlib

/-!
# Handlers: state, and four ways not to return

A request handler of a long-running process takes the process state and either returns to its
caller or does not. The ways it can fail to return are different things to the rest of the
process, so they are kept apart (`Halt`):

* `exit` ends the process;
* `hang` blocks the calling thread for good: other threads keep running, on the state as it was
  when the thread stopped;
* `throw` leaves the handler through an exception, which the caller's framework catches;
* `undef` is undefined behaviour, a dereference of something that is not there.

Every outcome therefore carries a state. `wp x Q E s` is the weakest precondition of `x` with a
postcondition `Q` for returning and `E` for halting; its equations (`wp_bind` and the others)
are what proofs about handlers compute with.
-/

set_option autoImplicit false

namespace EcGcm

/-- Why a handler did not return. -/
inductive Halt
  | exit
  | hang
  | throw
  | undef
  deriving DecidableEq, Repr

/-- What running a handler comes to: a result or a halt, and the state it leaves. -/
inductive Outcome (σ α : Type)
  | ret (a : α) (s : σ)
  | halt (h : Halt) (s : σ)

namespace Halt

/-- What it is in a thread in which nobody catches an exception. -/
def uncaught : Halt → Halt
  | throw => exit
  | e => e

end Halt

namespace Outcome

variable {σ α β : Type}

/-- Sequencing: a halted handler stays halted. -/
def bind (o : Outcome σ α) (f : α → σ → Outcome σ β) : Outcome σ β :=
  match o with
  | ret a s => f a s
  | halt h s => halt h s

def state : Outcome σ α → σ
  | ret _ s => s
  | halt _ s => s

/-- The state the *process* goes on with: none once it has exited or its behaviour is undefined. -/
def resume : Outcome σ α → Option σ
  | ret _ s => some s
  | halt .hang s => some s
  | halt .throw s => some s
  | halt .exit _ => none
  | halt .undef _ => none

/-- In a thread in which nobody catches an exception. -/
def uncaught : Outcome σ α → Outcome σ α
  | ret a s => ret a s
  | halt h s => halt h.uncaught s

/-- For whoever has started the handler as a task and goes on. -/
def future : Outcome σ α → Outcome σ (Except Halt α)
  | ret a s => ret (.ok a) s
  | halt .hang s => ret (.error .hang) s
  | halt .throw s => ret (.error .throw) s
  | halt .exit s => halt .exit s
  | halt .undef s => halt .undef s

/-- A mutex is released by a handler that returns. -/
def unlock (o : Outcome σ α) (keep : σ → σ) : Outcome σ α :=
  match o with
  | ret a s => ret a s
  | halt h s => halt h (keep s)

/-- The state a handler that returned has left. -/
def finish : Outcome σ α → Option σ
  | ret _ s => some s
  | halt _ _ => none

/-- The result of a handler that returned. -/
def result : Outcome σ α → Option α
  | ret a _ => some a
  | halt _ _ => none

/-- The handler came back to its caller. -/
def Returned (o : Outcome σ α) : Prop := ∃ a s, o = ret a s

theorem returned_iff_result {o : Outcome σ α} : o.Returned ↔ o.result.isSome := by
  cases o with
  | ret a s => simp [Returned, result]
  | halt h s => simp [Returned, result]

/-- Where the process goes on, it goes on with the state the handler left. -/
theorem state_of_resume {o : Outcome σ α} {s : σ} (h : o.resume = some s) : o.state = s := by
  cases o with
  | ret a t => exact Option.some.inj h
  | halt e t =>
    cases e with
    | hang => exact Option.some.inj h
    | throw => exact Option.some.inj h
    | exit => cases h
    | undef => cases h

end Outcome

/-- A handler over process state `σ`. -/
def Handler (σ α : Type) := σ → Outcome σ α

namespace Handler

variable {σ α β : Type}

instance : Monad (Handler σ) where
  pure a := fun s => .ret a s
  bind x f := fun s => (x s).bind f

instance : MonadStateOf σ (Handler σ) where
  get := fun s => .ret s s
  set s := fun _ => .ret () s
  modifyGet f := fun s => .ret (f s).1 (f s).2

/-- Stop here. -/
def halt (h : Halt) : Handler σ α := fun s => .halt h s

/-- Run a handler from a state. -/
def run (x : Handler σ α) (s : σ) : Outcome σ α := x s

section Run

variable {s s' : σ}

@[simp] theorem run_get : (get : Handler σ σ).run s = .ret s s := rfl

@[simp] theorem run_modify (f : σ → σ) : (modify f : Handler σ PUnit).run s = .ret ⟨⟩ (f s) := rfl

theorem run_bind (x : Handler σ β) (f : β → Handler σ α) :
    (x >>= f).run s = (x.run s).bind fun b => (f b).run := rfl

theorem run_bind_of_ret {x : Handler σ β} {f : β → Handler σ α} {b : β}
    (h : x.run s = .ret b s') : (x >>= f).run s = (f b).run s' := by
  rw [run_bind, h]
  rfl

theorem run_bind_of_halt {x : Handler σ β} {f : β → Handler σ α} {e : Halt}
    (h : x.run s = .halt e s') : (x >>= f).run s = .halt e s' := by
  rw [run_bind, h]
  rfl

theorem run_bind_eq_ret {x : Handler σ β} {f : β → Handler σ α} {a : α} :
    (x >>= f).run s = .ret a s' ↔ ∃ b t, x.run s = .ret b t ∧ (f b).run t = .ret a s' := by
  constructor
  · intro h
    cases hx : x.run s with
    | ret b t => exact ⟨b, t, rfl, (run_bind_of_ret hx).symm.trans h⟩
    | halt e t =>
      rw [run_bind_of_halt hx] at h
      cases h
  · rintro ⟨b, t, hx, hf⟩
    exact (run_bind_of_ret hx).trans hf

end Run

/-- `x` as a weakest precondition: every outcome of `x` from `s` meets its postcondition. -/
def wp (x : Handler σ α) (Q : α → σ → Prop) (E : Halt → σ → Prop) (s : σ) : Prop :=
  match x.run s with
  | .ret a s' => Q a s'
  | .halt h s' => E h s'

section Equations

variable (Q : α → σ → Prop) (E : Halt → σ → Prop) (s : σ)

@[simp] theorem wp_pure (a : α) : wp (pure a : Handler σ α) Q E s ↔ Q a s := Iff.rfl

@[simp] theorem wp_halt (h : Halt) : wp (halt h : Handler σ α) Q E s ↔ E h s := Iff.rfl

@[simp] theorem wp_bind (x : Handler σ β) (f : β → Handler σ α) :
    wp (x >>= f) Q E s ↔ wp x (fun b s' => wp (f b) Q E s') E s := by
  unfold wp
  rw [run_bind]
  cases x.run s with
  | ret b s' => exact Iff.rfl
  | halt h s' => exact Iff.rfl

@[simp] theorem wp_ite (c : Prop) [Decidable c] (x y : Handler σ α) :
    wp (if c then x else y) Q E s ↔ if c then wp x Q E s else wp y Q E s := by
  split <;> exact Iff.rfl

end Equations

@[simp] theorem wp_get (Q : σ → σ → Prop) (E : Halt → σ → Prop) (s : σ) :
    wp (get : Handler σ σ) Q E s ↔ Q s s := Iff.rfl

@[simp] theorem wp_modify (f : σ → σ) (Q : PUnit → σ → Prop) (E : Halt → σ → Prop) (s : σ) :
    wp (modify f : Handler σ PUnit) Q E s ↔ Q ⟨⟩ (f s) := Iff.rfl

theorem wp_of_run {x : Handler σ α} {Q : α → σ → Prop} {E : Halt → σ → Prop} {s s' : σ} {a : α}
    (h : x.run s = .ret a s') : wp x Q E s ↔ Q a s' := by
  unfold wp
  rw [h]

/-- Total correctness: the handler returns, and its result is right. -/
theorem wp_total {x : Handler σ α} {Q : α → σ → Prop} {s : σ} :
    wp x Q (fun _ _ => False) s ↔ ∃ a s', x.run s = .ret a s' ∧ Q a s' := by
  unfold wp
  cases hrun : x.run s with
  | ret a s' =>
    constructor
    · exact fun h => ⟨a, s', rfl, h⟩
    · rintro ⟨a', s'', heq, h⟩
      cases heq
      exact h
  | halt e s' =>
    constructor
    · exact False.elim
    · rintro ⟨a', s'', heq, -⟩
      cases heq

theorem wp_mono {x : Handler σ α} {Q Q' : α → σ → Prop} {E E' : Halt → σ → Prop} {s : σ}
    (h : wp x Q E s) (hQ : ∀ a s', Q a s' → Q' a s') (hE : ∀ e s', E e s' → E' e s') :
    wp x Q' E' s := by
  unfold wp at *
  cases hx : x.run s with
  | ret a s' => rw [hx] at h; exact hQ a s' h
  | halt e s' => rw [hx] at h; exact hE e s' h

/-- The same, where only what is returned is weakened. -/
theorem wp_mono_ret {x : Handler σ α} {Q Q' : α → σ → Prop} {E : Halt → σ → Prop} {s : σ}
    (h : wp x Q E s) (hQ : ∀ a s', Q a s' → Q' a s') : wp x Q' E s :=
  wp_mono h hQ fun _ _ he => he

theorem wp_and {x : Handler σ α} {Q Q' : α → σ → Prop} {E E' : Halt → σ → Prop} {s : σ}
    (h : wp x Q E s) (h' : wp x Q' E' s) : wp x (fun a s' => Q a s' ∧ Q' a s') E s := by
  unfold wp at *
  cases hx : x.run s with
  | ret a s' => rw [hx] at h h'; exact ⟨h, h'⟩
  | halt e s' => rw [hx] at h; exact h

/-- Whether every outcome meets its postcondition can be found out by running the handler. -/
instance {x : Handler σ α} {Q : α → σ → Prop} {E : Halt → σ → Prop} {s : σ}
    [∀ a s, Decidable (Q a s)] [∀ e s, Decidable (E e s)] : Decidable (wp x Q E s) :=
  match h : x.run s with
  | .ret a s' => decidable_of_iff (Q a s') (by unfold wp; rw [h])
  | .halt e s' => decidable_of_iff (E e s') (by unfold wp; rw [h])

/-- An assertion that holds whatever the outcome holds of the state the process resumes in. -/
theorem resume_of_wp {x : Handler σ α} {I : σ → Prop} {s s' : σ}
    (h : wp x (fun _ => I) (fun _ => I) s) (hr : (x.run s).resume = some s') : I s' := by
  unfold wp at h
  cases hx : x.run s with
  | ret a t =>
    rw [hx] at h hr
    simp only [Outcome.resume, Option.some.injEq] at hr
    exact hr ▸ h
  | halt e t =>
    rw [hx] at h hr
    cases e <;> simp only [Outcome.resume, Option.some.injEq, reduceCtorEq] at hr <;>
      exact hr ▸ h

/-- A handler that has come to its end leaves what holds on returning. -/
theorem finish_of_wp {x : Handler σ α} {Q : α → σ → Prop} {s s' : σ}
    (h : wp x Q (fun _ _ => True) s) (hf : (x.run s).finish = some s') : ∃ a, Q a s' := by
  unfold wp at h
  cases hx : x.run s with
  | ret a t =>
    rw [hx] at h hf
    cases hf
    exact ⟨a, h⟩
  | halt e t =>
    rw [hx] at hf
    cases hf

/-- The same, where the process is asked for the state it goes on with. -/
theorem resume_of_wp_result {x : Handler σ α} {Q : α → σ → Prop} {s s' : σ}
    (h : wp x Q (fun _ _ => True) s) (hret : (x.run s).result.isSome)
    (hr : (x.run s).resume = some s') : ∃ a, Q a s' := by
  refine finish_of_wp h ?_
  cases hx : x.run s with
  | ret a t =>
    rw [hx] at hr
    exact hr
  | halt e t =>
    rw [hx] at hret
    cases hret

/-- A result that is thrown away makes no difference to the process. -/
theorem resume_discard {x : Handler σ α} {s : σ} :
    ((x >>= fun _ => pure ⟨⟩ : Handler σ PUnit).run s).resume = (x.run s).resume := by
  rw [run_bind]
  cases x.run s with
  | ret a t => rfl
  | halt e t => cases e <;> rfl

/-- The same as a statement about the state that is left. -/
theorem wp_state_iff {x : Handler σ α} {I : σ → Prop} {s : σ} :
    wp x (fun _ => I) (fun _ => I) s ↔ I (x.run s).state := by
  unfold wp
  cases x.run s with
  | ret a t => exact Iff.rfl
  | halt e t => exact Iff.rfl

/-- The invariant rule for a loop over a list. -/
theorem wp_forM {ι : Type} {body : ι → Handler σ PUnit} {I : σ → Prop} {E : Halt → σ → Prop}
    {l : List ι} {s : σ} (h0 : I s)
    (hstep : ∀ i ∈ l, ∀ t, I t → wp (body i) (fun _ => I) E t) :
    wp (l.forM body) (fun _ => I) E s := by
  induction l generalizing s with
  | nil => exact h0
  | cons i l ih =>
    show wp (body i >>= fun _ => l.forM body) _ E s
    rw [wp_bind]
    refine wp_mono_ret (hstep i List.mem_cons_self s h0) fun _ t ht => ?_
    exact ih ht fun j hj => hstep j (List.mem_cons_of_mem _ hj)

/-! ## Threads, tasks and mutexes -/

/-- `x` in a thread of its own, in which nobody catches exceptions. -/
def inThread (x : Handler σ α) : Handler σ α := fun s => (x.run s).uncaught

/-- `x` as a task whose result is asked for later. If it blocks or throws, it is only then that
somebody else notices. -/
def task (x : Handler σ α) : Handler σ (Except Halt α) := fun s => (x.run s).future

/-- The results of tasks, asked for one after the other. The exception of a task that has thrown
leaves only when all the others have come to their end. -/
def results : List (Except Halt α) → Except Halt (List α)
  | [] => .ok []
  | .ok a :: tasks => (results tasks).map (a :: ·)
  | .error e :: tasks =>
    match results tasks with
    | .error .hang => .error .hang
    | _ => .error e

/-- Wait for tasks. -/
def collect (tasks : List (Except Halt α)) : Handler σ (List α) :=
  match results tasks with
  | .ok as => pure as
  | .error e => halt e

/-- `x` between the locking and the unlocking of a mutex. Nobody else looks at the mutex before `x`
is over, so it is marked as taken only when `x` does not come to the unlocking. -/
def locked (taken : σ → Bool) (keep : σ → σ) (x : Handler σ α) : Handler σ α := fun s =>
  if taken s then .halt .hang s else (x.run s).unlock keep

section Threads

variable {x : Handler σ α} {Q : α → σ → Prop} {E : Halt → σ → Prop} {s s' : σ} {a : α}

theorem run_inThread : (inThread x).run s = (x.run s).uncaught := rfl

theorem resume_inThread_discard :
    ((inThread (x >>= fun _ => pure ⟨⟩ : Handler σ PUnit)).run s).resume =
      (x.run s).uncaught.resume := by
  rw [run_inThread, run_bind]
  cases x.run s with
  | ret a t => rfl
  | halt e t => cases e <;> rfl

/-- Who catches what makes no difference to the state that is left. -/
theorem state_inThread : ((inThread x).run s).state = (x.run s).state := by
  rw [run_inThread]
  cases x.run s with
  | ret a s' => rfl
  | halt e s' => rfl

theorem wp_inThread : wp (inThread x) Q E s ↔ wp x Q (fun e s' => E e.uncaught s') s := by
  unfold wp
  rw [run_inThread]
  cases x.run s with
  | ret a s' => exact Iff.rfl
  | halt e s' => exact Iff.rfl

theorem run_task : (task x).run s = (x.run s).future := rfl

theorem run_task_eq_ok {a : α} :
    (task x).run s = .ret (.ok a) s' ↔ x.run s = .ret a s' := by
  rw [run_task]
  cases x.run s with
  | ret b t =>
    constructor
    · intro h
      cases h
      rfl
    · intro h
      cases h
      rfl
  | halt e t => cases e <;> exact ⟨nofun, nofun⟩

/-- There are results only if every task has come to its end. -/
theorem results_eq_ok {tasks : List (Except Halt α)} {as : List α} :
    results tasks = .ok as ↔ tasks = as.map .ok := by
  induction tasks generalizing as with
  | nil =>
    cases as with
    | nil => exact ⟨fun _ => rfl, fun _ => rfl⟩
    | cons a as => exact ⟨nofun, nofun⟩
  | cons t tasks ih =>
    cases t with
    | error e =>
      constructor
      · intro h
        rw [results] at h
        split at h <;> cases h
      · intro h
        cases as <;> cases h
    | ok a =>
      rw [results]
      cases as with
      | nil =>
        constructor
        · intro h
          cases hr : results tasks <;> rw [hr] at h <;> cases h
        · nofun
      | cons b as =>
        rw [List.map_cons, List.cons.injEq, Except.ok.injEq, ← ih]
        cases hr : results tasks with
        | error e => exact ⟨nofun, nofun⟩
        | ok bs =>
          show Except.ok (a :: bs) = .ok (b :: as) ↔ _
          rw [Except.ok.injEq, List.cons.injEq, Except.ok.injEq]

theorem run_locked_of_free {taken : σ → Bool} {keep : σ → σ} (h : taken s = false) :
    (locked taken keep x).run s = (x.run s).unlock keep := by
  show locked taken keep x s = _
  unfold locked
  rw [h]
  rfl

theorem run_locked_of_taken {taken : σ → Bool} {keep : σ → σ} (h : taken s = true) :
    (locked taken keep x).run s = .halt .hang s := by
  show locked taken keep x s = _
  unfold locked
  rw [if_pos h]

theorem wp_locked {taken : σ → Bool} {keep : σ → σ} :
    wp (locked taken keep x) Q E s ↔
      if taken s then E .hang s else wp x Q (fun e s' => E e (keep s')) s := by
  unfold wp
  cases h : taken s with
  | true =>
    rw [run_locked_of_taken h]
    exact Iff.rfl
  | false =>
    rw [run_locked_of_free h]
    cases x.run s with
    | ret a s' => exact Iff.rfl
    | halt e s' => exact Iff.rfl

end Threads

/-! ## What a handler returns -/

/-- Whatever `x` returns meets `P`. -/
def Yields (P : α → Prop) (x : Handler σ α) : Prop := ∀ s, wp x (fun a _ => P a) (fun _ _ => True) s

section Yields

variable {P : α → Prop}

theorem yields_pure {a : α} (h : P a) : Yields P (pure a : Handler σ α) := fun _ => h

theorem yields_ite {c : Prop} [Decidable c] {x y : Handler σ α} (hx : Yields P x)
    (hy : Yields P y) : Yields P (if c then x else y) := by
  split
  · exact hx
  · exact hy

/-- Only the last part of a sequence returns to the caller. -/
theorem yields_bind {x : Handler σ β} {f : β → Handler σ α} (hf : ∀ b, Yields P (f b)) :
    Yields P (x >>= f) := by
  intro s
  rw [wp_bind]
  unfold wp
  cases x.run s with
  | ret b s' => exact hf b s'
  | halt e s' => trivial

theorem yields_locked {taken : σ → Bool} {keep : σ → σ} {x : Handler σ α} (hx : Yields P x) :
    Yields P (locked taken keep x) := by
  intro s
  rw [wp_locked]
  split
  · trivial
  · exact hx s

theorem Yields.of_run {x : Handler σ α} (h : Yields P x) {s s' : σ} {a : α}
    (hrun : x.run s = .ret a s') : P a := (wp_of_run hrun).mp (h s)

end Yields

/-! ## Handlers that move within a preorder

A frame condition ("whatever happens, this much is unchanged") is a preorder on states. A handler
keeps to it when each of its parts does. -/

/-- Whatever the outcome of `x`, its state is `R`-reachable from where it started. -/
def Keeps (R : σ → σ → Prop) (x : Handler σ α) : Prop := ∀ s, R s (x.run s).state

theorem keeps_of_wp {R : σ → σ → Prop} {x : Handler σ α}
    (h : ∀ s, wp x (fun _ => R s) (fun _ => R s) s) : Keeps R x := by
  intro s
  have hs := h s
  unfold wp at hs
  cases hrun : x.run s with
  | ret a t => rw [hrun] at hs; exact hs
  | halt e t => rw [hrun] at hs; exact hs

theorem Keeps.of_finish {R : σ → σ → Prop} {x : Handler σ α} {s s' : σ} (h : Keeps R x)
    (hf : (x.run s).finish = some s') : R s s' := by
  have hs := h s
  cases hrun : x.run s with
  | ret a t =>
    rw [hrun] at hs hf
    cases hf
    exact hs
  | halt e t =>
    rw [hrun] at hf
    cases hf

theorem keeps_modify {R : σ → σ → Prop} {f : σ → σ} (hf : ∀ s, R s (f s)) :
    Keeps R (modify f : Handler σ PUnit) := hf

theorem keeps_inThread {R : σ → σ → Prop} {x : Handler σ α} (hx : Keeps R x) :
    Keeps R (inThread x) := by
  intro s
  rw [state_inThread]
  exact hx s

theorem keeps_task {R : σ → σ → Prop} {x : Handler σ α} (hx : Keeps R x) : Keeps R (task x) := by
  intro s
  have h := hx s
  rw [run_task]
  cases hrun : x.run s with
  | ret a s' =>
    rw [hrun] at h
    exact h
  | halt e s' =>
    rw [hrun] at h
    cases e <;> exact h

theorem keeps_ite {R : σ → σ → Prop} {c : Prop} [Decidable c] {x y : Handler σ α}
    (hx : Keeps R x) (hy : Keeps R y) : Keeps R (if c then x else y) := by
  split
  · exact hx
  · exact hy

theorem Keeps.wp {R : σ → σ → Prop} {x : Handler σ α} (h : Keeps R x) (s : σ) :
    wp x (fun _ => R s) (fun _ => R s) s := by
  have hs := h s
  unfold Handler.wp
  cases hrun : x.run s with
  | ret a t => rw [hrun] at hs; exact hs
  | halt e t => rw [hrun] at hs; exact hs

section Preorder

variable {R : σ → σ → Prop} [IsPreorder σ R]

theorem keeps_pure (a : α) : Keeps R (pure a : Handler σ α) := fun s => refl_of R s

theorem keeps_halt (e : Halt) : Keeps R (halt e : Handler σ α) := fun s => refl_of R s

theorem keeps_get : Keeps R (get : Handler σ σ) := fun s => refl_of R s

theorem keeps_bind {x : Handler σ β} {f : β → Handler σ α} (hx : Keeps R x)
    (hf : ∀ b, Keeps R (f b)) : Keeps R (x >>= f) := by
  intro s
  have h := hx s
  rw [run_bind]
  cases hrun : x.run s with
  | ret b s' =>
    rw [hrun] at h
    exact trans_of R h (hf b s')
  | halt e s' =>
    rw [hrun] at h
    exact h

theorem keeps_collect (tasks : List (Except Halt α)) :
    Keeps R (collect tasks : Handler σ (List α)) := by
  unfold collect
  split
  · exact keeps_pure _
  · exact keeps_halt _

theorem keeps_locked {taken : σ → Bool} {keep : σ → σ} {x : Handler σ α}
    (hkeep : ∀ s, R s (keep s)) (hx : Keeps R x) : Keeps R (locked taken keep x) := by
  intro s
  have h := hx s
  cases hs : taken s with
  | true =>
    rw [run_locked_of_taken hs]
    exact refl_of R s
  | false =>
    rw [run_locked_of_free hs]
    cases hrun : x.run s with
    | ret a s' =>
      rw [hrun] at h
      exact h
    | halt e s' =>
      rw [hrun] at h
      exact trans_of R h (hkeep s')

theorem keeps_forM {ι : Type} {body : ι → Handler σ PUnit} (l : List ι)
    (h : ∀ i, Keeps R (body i)) : Keeps R (l.forM body) := by
  induction l with
  | nil => exact keeps_pure _
  | cons i l ih => exact keeps_bind (h i) fun _ => ih

end Preorder

end Handler

end EcGcm
