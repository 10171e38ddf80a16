import EcGcm.Lib.System

/-!
# Threads that interleave

Threads over one shared state: each is at a point of its program (`θ`), and a step of a thread
takes it to the next point and changes the shared state (`σ`), in one piece. A thread whose step
is not possible now, because it is done or waits for a lock, does not move. `Pool.interleaving`
has every order of the threads' steps.

The rule for conservation laws is `Pool.balance_of_run`. A thread in the middle of a transfer
*owes*: it has taken an amount out of one place and has not put it into the other. What the shared
state holds and what the threads owe is one sum, and a run keeps it when each step does. What a
step has to find in the shared state for that, its side condition, is a parameter (`Pool.Moving`).

Threads that keep out of each other's way are followed one by one: `Pool.each_of_run` asks of a
step that it keeps its own thread's assertion and does not touch those of threads with another key.
If moreover every thread that is not at its end can move, and moves only so often, any run can be
brought to its end (`Pool.exists_run_to_end`).

`Pool.alone` runs one thread by itself, which is how an interleaved program is compared with a
sequential one.
-/

set_option autoImplicit false

namespace EcGcm

/-- A shared state and the points the threads have reached. -/
structure Pool (σ θ : Type) where
  shared : σ
  threads : List θ

namespace Pool

variable {σ θ : Type} {step : θ → σ → Option (θ × σ)} {p p' : Pool σ θ} {i : ℕ}

/-- Thread `i` makes one step. -/
def move (step : θ → σ → Option (θ × σ)) (i : ℕ) (p : Pool σ θ) : Option (Pool σ θ) :=
  p.threads[i]?.bind fun t => (step t p.shared).map fun r => ⟨r.2, p.threads.set i r.1⟩

/-- All orders of the threads' steps; an event is the number of the thread that moves. -/
def interleaving (step : θ → σ → Option (θ × σ)) : System (Pool σ θ) ℕ :=
  ⟨fun _ _ => True, move step⟩

instance (p : Pool σ θ) (i : ℕ) : Decidable ((interleaving step).enabled p i) := .isTrue trivial

/-- The thread that moves meets `ok`. -/
def Moving (ok : θ → σ → Prop) (p : Pool σ θ) (i : ℕ) : Prop := ∀ t ∈ p.threads[i]?, ok t p.shared

instance {ok : θ → σ → Prop} [∀ t s, Decidable (ok t s)] (p : Pool σ θ) (i : ℕ) :
    Decidable (Moving ok p i) :=
  inferInstanceAs (Decidable (∀ t ∈ _, _))

instance {ok : θ → σ → Prop} [∀ t s, Decidable (ok t s)] (p : Pool σ θ) (i : ℕ) :
    Decidable (((interleaving step).only (Moving ok)).enabled p i) :=
  inferInstanceAs (Decidable (True ∧ Moving ok p i))

theorem move_eq_some : move step i p = some p' ↔
    ∃ t t' s', p.threads[i]? = some t ∧ step t p.shared = some (t', s') ∧
      p' = ⟨s', p.threads.set i t'⟩ := by
  unfold move
  rw [Option.bind_eq_some_iff]
  constructor
  · rintro ⟨t, ht, hmap⟩
    obtain ⟨⟨t', s'⟩, hstep, rfl⟩ := Option.map_eq_some_iff.mp hmap
    exact ⟨t, t', s', ht, hstep, rfl⟩
  · rintro ⟨t, t', s', ht, hstep, rfl⟩
    exact ⟨t, ht, by rw [hstep]; rfl⟩

/-- Every thread is at the point `t`. -/
def AllAt (t : θ) (p : Pool σ θ) : Prop := ∀ t' ∈ p.threads, t' = t

instance [DecidableEq θ] (t : θ) (p : Pool σ θ) : Decidable (AllAt t p) :=
  inferInstanceAs (Decidable (∀ t' ∈ _, _))

/-! ## Conservation -/

/-- What the shared state holds, and what the threads owe it. -/
def balance (held : σ → ℤ) (owes : θ → ℤ) (p : Pool σ θ) : ℤ :=
  held p.shared + (p.threads.map owes).sum

theorem sum_map_set {l : List θ} {t : θ} (f : θ → ℤ) (h : l[i]? = some t) (t' : θ) :
    ((l.set i t').map f).sum = (l.map f).sum - f t + f t' := by
  induction l generalizing i with
  | nil => cases h
  | cons a l ih =>
    cases i with
    | zero =>
      cases h
      simp only [List.set_cons_zero, List.map_cons, List.sum_cons]
      omega
    | succ i =>
      simp only [List.set_cons_succ, List.map_cons, List.sum_cons, ih h]
      omega

theorem countP_set_add {l : List θ} {t : θ} (p : θ → Bool) (h : l[i]? = some t) (t' : θ) :
    (l.set i t').countP p + (if p t then 1 else 0) = l.countP p + if p t' then 1 else 0 := by
  induction l generalizing i with
  | nil => cases h
  | cons a l ih =>
    cases i with
    | zero =>
      cases h
      simp only [List.set_cons_zero, List.countP_cons]
      omega
    | succ i =>
      have htail := ih h
      simp only [List.set_cons_succ, List.countP_cons]
      omega

/-- **The conservation rule.** -/
theorem balance_of_run {held : σ → ℤ} {owes : θ → ℤ} {ok : θ → σ → Prop}
    (hstep : ∀ t s t' s', ok t s → step t s = some (t', s') →
      held s' + owes t' = held s + owes t)
    (hrun : ((interleaving step).only (Moving ok)).Run p p') :
    p'.balance held owes = p.balance held owes := by
  refine System.invariant (I := fun q => q.balance held owes = p.balance held owes) rfl
    (fun i q q' hq hen hnext => ?_) hrun
  obtain ⟨t, t', s', ht, hmove, rfl⟩ := move_eq_some.mp hnext
  have hbal := hstep t q.shared t' s' (hen.2 t ht) hmove
  rw [← hq]
  unfold balance
  dsimp only
  rw [sum_map_set owes ht]
  omega

/-- Where all threads owe nothing, the balance is what is held. -/
theorem balance_of_owes_nothing {held : σ → ℤ} {owes : θ → ℤ}
    (h : ∀ t ∈ p.threads, owes t = 0) : p.balance held owes = held p.shared := by
  have hsum : (p.threads.map owes).sum = 0 := by
    refine List.sum_eq_zero fun x hx => ?_
    obtain ⟨t, ht, rfl⟩ := List.mem_map.mp hx
    exact h t ht
  unfold balance
  omega

/-! ## Threads that do not interfere -/

section Independent

variable {κ : Type} {key : θ → κ} {I : θ → σ → Prop}

/-- What each thread does to its own assertion, and to those of the others. -/
structure Independent (step : θ → σ → Option (θ × σ)) (key : θ → κ) (I : θ → σ → Prop) : Prop where
  keeps_key : ∀ {t s t' s'}, step t s = some (t', s') → key t' = key t
  own : ∀ {t s t' s'}, I t s → step t s = some (t', s') → I t' s'
  others : ∀ {t s t' s' u}, I t s → step t s = some (t', s') → key u ≠ key t → I u s → I u s'

theorem Independent.map_key_move (h : Independent step key I) (hmove : move step i p = some p') :
    p'.threads.map key = p.threads.map key := by
  obtain ⟨t, t', s', ht, hstep, rfl⟩ := move_eq_some.mp hmove
  have hkey : (p.threads.map key)[i]? = some (key t') := by
    rw [List.getElem?_map, ht, h.keeps_key hstep]
    rfl
  show (p.threads.set i t').map key = _
  rw [List.map_set]
  obtain ⟨hlt, heq⟩ := List.getElem?_eq_some_iff.mp hkey
  rw [← heq, List.set_getElem_self]

theorem Independent.each_move (h : Independent step key I) (hnodup : (p.threads.map key).Nodup)
    (hall : ∀ t ∈ p.threads, I t p.shared) (hmove : move step i p = some p') :
    ∀ t ∈ p'.threads, I t p'.shared := by
  obtain ⟨t, t', s', ht, hstep, rfl⟩ := move_eq_some.mp hmove
  have hI := hall t (List.mem_of_getElem? ht)
  intro u hu
  obtain ⟨j, hj⟩ := List.mem_iff_getElem?.mp hu
  by_cases hij : i = j
  · subst hij
    have hlt := (List.getElem?_eq_some_iff.mp ht).1
    rw [List.getElem?_set_self hlt] at hj
    cases hj
    exact h.own hI hstep
  · rw [List.getElem?_set_ne hij] at hj
    refine h.others hI hstep (fun heq => hij ?_) (hall u (List.mem_of_getElem? hj))
    -- two places with one key
    have hlt : i < (p.threads.map key).length := by
      rw [List.length_map]
      exact (List.getElem?_eq_some_iff.mp ht).1
    refine (List.getElem?_inj hlt hnodup).mp ?_
    rw [List.getElem?_map, List.getElem?_map, ht, hj, Option.map_some, Option.map_some, heq]

/-- **The rule for threads that do not interfere.** -/
theorem Independent.each_of_run (h : Independent step key I) (hnodup : (p.threads.map key).Nodup)
    (hall : ∀ t ∈ p.threads, I t p.shared) (hrun : (interleaving step).Run p p') :
    p'.threads.map key = p.threads.map key ∧ ∀ t ∈ p'.threads, I t p'.shared := by
  refine System.invariant
    (I := fun q => q.threads.map key = p.threads.map key ∧ ∀ t ∈ q.threads, I t q.shared)
    ⟨rfl, hall⟩ (fun i q q' hq _ hmove => ?_) hrun
  obtain ⟨hkeys, heach⟩ := hq
  exact ⟨(h.map_key_move hmove).trans hkeys, h.each_move (hkeys ▸ hnodup) heach hmove⟩

/-- **The rule for coming to an end.** `rank` bounds how often a thread can still move. -/
theorem Independent.exists_run_to_end (h : Independent step key I) (rank : θ → ℕ)
    {final : θ → Prop}
    (hrank : ∀ {t s t' s'}, I t s → step t s = some (t', s') → rank t' < rank t)
    (hmoves : ∀ {t s}, I t s → ¬ final t → ∃ r, step t s = some r)
    (hnodup : (p.threads.map key).Nodup) (hall : ∀ t ∈ p.threads, I t p.shared) :
    ∃ p', (interleaving step).Run p p' ∧ ∀ t ∈ p'.threads, final t := by
  induction hn : (p.threads.map rank).sum using Nat.strong_induction_on generalizing p with
  | _ n ih =>
    by_cases hend : ∀ t ∈ p.threads, final t
    · exact ⟨p, .refl, hend⟩
    · push Not at hend
      obtain ⟨t, ht, hnot⟩ := hend
      obtain ⟨i, hi⟩ := List.mem_iff_getElem?.mp ht
      obtain ⟨⟨t', s'⟩, hstep⟩ := hmoves (hall t ht) hnot
      have hmove : move step i p = some ⟨s', p.threads.set i t'⟩ :=
        move_eq_some.mpr ⟨t, t', s', hi, hstep, rfl⟩
      have hless : ((p.threads.set i t').map rank).sum < n := by
        obtain ⟨hlt, heq⟩ := List.getElem?_eq_some_iff.mp hi
        have hlt' := hrank (hall t ht) hstep
        have hset := sum_map_set (fun t => (rank t : ℤ)) hi t'
        have hcast : ∀ l : List θ, (l.map fun t => (rank t : ℤ)).sum = ((l.map rank).sum : ℕ) :=
          fun l => by rw [Nat.cast_list_sum, List.map_map]; rfl
        rw [hcast, hcast] at hset
        omega
      obtain ⟨p', hrun, hfinal⟩ := ih _ hless ((h.map_key_move hmove).symm ▸ hnodup)
        (h.each_move hnodup hall hmove) rfl
      exact ⟨p', .head ⟨i, trivial, hmove⟩ hrun, hfinal⟩

end Independent

/-- What every step does to the shared state, a run does. -/
theorem shared_of_run {R : σ → σ → Prop} [IsPreorder σ R]
    (hstep : ∀ {t s t' s'}, step t s = some (t', s') → R s s')
    (hrun : (interleaving step).Run p p') : R p.shared p'.shared := by
  refine System.invariant (I := fun q => R p.shared q.shared) (refl_of R _)
    (fun i q q' hq _ hmove => ?_) hrun
  obtain ⟨t, t', s', _, hmoved, rfl⟩ := move_eq_some.mp hmove
  exact trans_of R hq (hstep hmoved)

/-! ## One thread by itself -/

/-- At most `n` steps of a thread that nothing interrupts. -/
def alone (step : θ → σ → Option (θ × σ)) : ℕ → θ × σ → θ × σ
  | 0, x => x
  | n + 1, x =>
    match step x.1 x.2 with
    | some y => alone step n y
    | none => x

theorem alone_succ {n : ℕ} {t : θ} {s : σ} {y : θ × σ} (h : step t s = some y) :
    alone step (n + 1) (t, s) = alone step n y := by
  unfold alone
  dsimp only
  rw [h]
  cases n <;> rfl

/-- A thread by itself is one of the interleavings. -/
theorem run_of_alone {n : ℕ} {t t' : θ} {s s' : σ} (h : alone step n (t, s) = (t', s')) :
    (interleaving step).Run ⟨s, [t]⟩ ⟨s', [t']⟩ := by
  induction n generalizing t s with
  | zero =>
    cases h
    exact .refl
  | succ n ih =>
    unfold alone at h
    dsimp only at h
    cases hstep : step t s with
    | none =>
      rw [hstep] at h
      cases h
      exact .refl
    | some y =>
      rw [hstep] at h
      refine .head ⟨0, trivial, ?_⟩ (ih h)
      show move step 0 ⟨s, [t]⟩ = some ⟨y.2, [y.1]⟩
      exact move_eq_some.mpr ⟨t, y.1, y.2, rfl, hstep, rfl⟩

theorem set_self {t : θ} (ht : p.threads[i]? = some t) :
    (⟨p.shared, p.threads.set i t⟩ : Pool σ θ) = p := by
  obtain ⟨hlt, heq⟩ := List.getElem?_eq_some_iff.mp ht
  rw [← heq, List.set_getElem_self]

/-- A thread that nothing interrupts, in the company of others. -/
theorem run_of_alone_at {n : ℕ} {t t' : θ} {s' : σ} (ht : p.threads[i]? = some t)
    (h : alone step n (t, p.shared) = (t', s')) :
    (interleaving step).Run p ⟨s', p.threads.set i t'⟩ := by
  induction n generalizing p t with
  | zero =>
    cases h
    rw [set_self ht]
    exact .refl
  | succ n ih =>
    cases hstep : step t p.shared with
    | none =>
      unfold alone at h
      dsimp only at h
      rw [hstep] at h
      cases h
      rw [set_self ht]
      exact .refl
    | some y =>
      have hmove : move step i p = some ⟨y.2, p.threads.set i y.1⟩ :=
        move_eq_some.mpr ⟨t, y.1, y.2, ht, hstep, rfl⟩
      have hat : (p.threads.set i y.1)[i]? = some y.1 :=
        List.getElem?_set_self (List.getElem?_eq_some_iff.mp ht).1
      rw [alone_succ hstep] at h
      have hrest : (interleaving step).Run ⟨y.2, p.threads.set i y.1⟩
        ⟨s', (p.threads.set i y.1).set i t'⟩ := ih hat h
      rw [List.set_set] at hrest
      exact .head ⟨i, trivial, hmove⟩ hrest

theorem run_of_step {t t' : θ} {s' : σ} (ht : p.threads[i]? = some t)
    (hstep : step t p.shared = some (t', s')) :
    (interleaving step).Run p ⟨s', p.threads.set i t'⟩ :=
  .single ⟨i, trivial, move_eq_some.mpr ⟨t, t', s', ht, hstep, rfl⟩⟩

end Pool

end EcGcm
