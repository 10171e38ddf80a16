import EcGcm.Lib.Threads

/-!
# Threads that work on what they have read

A thread reads an account, works something out, and writes a new value back. In between it has a
*snapshot*. While it does, others may write the account; then the snapshot is no longer current,
and the write takes away what the thread has never seen.

`Pool.Snapshots` is what such threads have in common: a snapshot is what was read, and nobody
writes an account without having a snapshot of it. Nothing is asked of what they work out. There are
two rules for what is conserved.

* `balance_of_drifting_run` keeps count. Whatever the order of the steps, the books are off by the
  sum of what each single step puts them off by.
* `Snapshots.balance_of_run` says when that is nothing: as long as no two threads have a snapshot of
  one account at the same time, every write finds what was read.
-/

set_option autoImplicit false

namespace EcGcm.Pool

variable {σ θ κ α : Type} {step : θ → σ → Option (θ × σ)} {seen : θ → Option (κ × α)}
  {val : κ → σ → α} {I : θ → σ → Prop} {p p' : Pool σ θ} {i : ℕ} {t t' u : θ} {s s' : σ}
  {held : σ → ℤ} {owes : θ → ℤ} {ok : θ → σ → Prop}

/-! ## Books that drift -/

/-- The interleavings, with a count of what the steps put the books off by. -/
def drifting (step : θ → σ → Option (θ × σ)) (drift : θ → σ → ℤ) :
    System (Pool σ θ × ℤ) ℕ where
  enabled _ _ := True
  next i q := (move step i q.1).map fun p' =>
    (p', q.2 + ((q.1.threads[i]?).map (drift · q.1.shared)).getD 0)

/-- The thread that moves meets `ok`. -/
def MovingIn (ok : θ → σ → Prop) (q : Pool σ θ × ℤ) (i : ℕ) : Prop := Moving ok q.1 i

instance {ok : θ → σ → Prop} [∀ t s, Decidable (ok t s)] (q : Pool σ θ × ℤ) (i : ℕ) :
    Decidable (MovingIn ok q i) :=
  inferInstanceAs (Decidable (Moving ok q.1 i))

instance {drift : θ → σ → ℤ} (q : Pool σ θ × ℤ) (i : ℕ) :
    Decidable ((drifting step drift).enabled q i) := .isTrue trivial

theorem balance_set (ht : p.threads[i]? = some t) :
    Pool.balance held owes ⟨s', p.threads.set i t'⟩ =
      p.balance held owes + (held s' + owes t' - (held p.shared + owes t)) := by
  unfold balance
  dsimp only
  rw [sum_map_set owes ht]
  omega

/-- Every thread keeps the assertion `I` of every thread. -/
structure Carried (step : θ → σ → Option (θ × σ)) (I : θ → σ → Prop) : Prop where
  own : ∀ {t s t' s'}, I t s → step t s = some (t', s') → I t' s'
  others : ∀ {t s t' s' u}, I t s → step t s = some (t', s') → I u s → I u s'

theorem carried_trivial : Carried step fun _ _ => True := ⟨fun _ _ => trivial, fun _ _ _ => trivial⟩

theorem Carried.move (h : Carried step I) (hall : ∀ t ∈ p.threads, I t p.shared)
    (hmove : move step i p = some p') : ∀ t ∈ p'.threads, I t p'.shared := by
  obtain ⟨t, t', s', ht, hstep, rfl⟩ := move_eq_some.mp hmove
  have hI := hall t (List.mem_of_getElem? ht)
  intro u hu
  rcases List.mem_or_eq_of_mem_set hu with hold | rfl
  · exact h.others hI hstep (hall u hold)
  · exact h.own hI hstep

/-- **The rule that keeps count.** -/
theorem Carried.balance_of_drifting_run {drift : θ → σ → ℤ} {d d' : ℤ} (h : Carried step I)
    (hstep : ∀ t s t' s', ok t s → I t s → step t s = some (t', s') →
      held s' + owes t' = held s + owes t + drift t s)
    (hall : ∀ t ∈ p.threads, I t p.shared)
    (hrun : ((drifting step drift).only (MovingIn ok)).Run (p, d) (p', d')) :
    p'.balance held owes = p.balance held owes + (d' - d) := by
  have hinv : ∀ q, ((drifting step drift).only (MovingIn ok)).Run (p, d) q →
      q.1.balance held owes = p.balance held owes + (q.2 - d) ∧
        ∀ t ∈ q.1.threads, I t q.1.shared := by
    intro q hq
    refine System.invariant
      (I := fun q => q.1.balance held owes = p.balance held owes + (q.2 - d) ∧
        ∀ t ∈ q.1.threads, I t q.1.shared) ⟨by simp, hall⟩ (fun i q q' hq' hen hnext => ?_) hq
    obtain ⟨r, hmove, rfl⟩ := Option.map_eq_some_iff.mp hnext
    refine ⟨?_, h.move hq'.2 hmove⟩
    obtain ⟨t, t', s', ht, hmoved, rfl⟩ := move_eq_some.mp hmove
    have hbal := hstep t q.1.shared t' s' (hen.2 t ht) (hq'.2 t (List.mem_of_getElem? ht)) hmoved
    dsimp only
    rw [balance_set ht, ht, Option.map_some, Option.getD_some, hq'.1]
    omega
  exact (hinv (p', d') hrun).1

/-! ## Snapshots -/

/-- `seen t` is the snapshot of `t`, and `val k` reads the account `k`. -/
structure Snapshots (step : θ → σ → Option (θ × σ)) (I : θ → σ → Prop)
    (seen : θ → Option (κ × α)) (val : κ → σ → α) : Prop extends Carried step I where
  /-- A snapshot that is new is what the account holds, and one that is kept was not written. -/
  taken : ∀ {t s t' s' k x}, I t s → step t s = some (t', s') → seen t' = some (k, x) →
    (seen t = some (k, x) → val k s = x) → val k s' = x
  written : ∀ {t s t' s' k}, I t s → step t s = some (t', s') → val k s' ≠ val k s →
    ∃ x, seen t = some (k, x)

/-- The snapshots of two threads are of different accounts. -/
def Apart (seen : θ → Option (κ × α)) (t u : θ) : Prop := ∀ a ∈ seen t, ∀ b ∈ seen u, a.1 ≠ b.1

instance [DecidableEq κ] (t u : θ) : Decidable (Apart seen t u) :=
  inferInstanceAs (Decidable (∀ a ∈ _, ∀ b ∈ _, _))

theorem Apart.symm (h : Apart seen t u) : Apart seen u t :=
  fun b hb a ha heq => h a ha b hb heq.symm

/-- No two threads have a snapshot of one account. -/
def Exclusive (seen : θ → Option (κ × α)) (p : Pool σ θ) : Prop := p.threads.Pairwise (Apart seen)

instance [DecidableEq κ] (p : Pool σ θ) : Decidable (Exclusive seen p) :=
  inferInstanceAs (Decidable (List.Pairwise _ _))

theorem Exclusive.apart (h : Exclusive seen p) {j : ℕ} (hi : p.threads[i]? = some t)
    (hj : p.threads[j]? = some u) (hne : i ≠ j) : Apart seen t u := by
  obtain ⟨hilt, rfl⟩ := List.getElem?_eq_some_iff.mp hi
  obtain ⟨hjlt, rfl⟩ := List.getElem?_eq_some_iff.mp hj
  rcases Nat.lt_or_gt_of_ne hne with hlt | hgt
  · exact List.pairwise_iff_getElem.mp h i j hilt hjlt hlt
  · exact (List.pairwise_iff_getElem.mp h j i hjlt hilt hgt).symm

/-- The account still holds what the thread has read. -/
def Fresh (seen : θ → Option (κ × α)) (val : κ → σ → α) (t : θ) (s : σ) : Prop :=
  ∀ k x, seen t = some (k, x) → val k s = x

/-- All snapshots are current. -/
def Current (seen : θ → Option (κ × α)) (val : κ → σ → α) (p : Pool σ θ) : Prop :=
  ∀ t ∈ p.threads, Fresh seen val t p.shared

theorem Snapshots.current_move (h : Snapshots step I seen val)
    (hall : ∀ t ∈ p.threads, I t p.shared) (hex : Exclusive seen p) (hcur : Current seen val p)
    (hmove : move step i p = some p') : Current seen val p' := by
  obtain ⟨t, t', s', ht, hstep, rfl⟩ := move_eq_some.mp hmove
  have hI := hall t (List.mem_of_getElem? ht)
  intro u hu k x hx
  obtain ⟨j, hj⟩ := List.mem_iff_getElem?.mp hu
  by_cases hij : i = j
  · subst hij
    rw [List.getElem?_set_self (List.getElem?_eq_some_iff.mp ht).1] at hj
    cases hj
    exact h.taken hI hstep hx (hcur t (List.mem_of_getElem? ht) k x)
  · rw [List.getElem?_set_ne hij] at hj
    by_contra hne
    have hold : val k p.shared = x := hcur u (List.mem_of_getElem? hj) k x hx
    -- somebody has written the account: the thread that moved
    have hwrote : val k s' ≠ val k p.shared := fun heq => hne (heq.trans hold)
    obtain ⟨y, hy⟩ := h.written hI hstep hwrote
    exact hex.apart ht hj hij (k, y) hy (k, x) hx rfl

/-- No two threads work on one account, and the one that moves meets `ok`. -/
def Careful (seen : θ → Option (κ × α)) (ok : θ → σ → Prop) (p : Pool σ θ) (i : ℕ) : Prop :=
  Exclusive seen p ∧ Moving ok p i

instance [DecidableEq κ] {ok : θ → σ → Prop} [∀ t s, Decidable (ok t s)] (p : Pool σ θ) (i : ℕ) :
    Decidable (Careful seen ok p i) :=
  inferInstanceAs (Decidable (_ ∧ _))

/-- **The conservation rule for snapshots.** A step that puts the books off only where its snapshot
is stale keeps them as long as no two threads have the same account. -/
theorem Snapshots.balance_of_run {drift : θ → σ → ℤ} (h : Snapshots step I seen val)
    (hstep : ∀ t s t' s', ok t s → I t s → step t s = some (t', s') →
      held s' + owes t' = held s + owes t + drift t s)
    (hfresh : ∀ t s, ok t s → I t s → Fresh seen val t s → drift t s = 0)
    (hall : ∀ t ∈ p.threads, I t p.shared) (hcur : Current seen val p)
    (hrun : ((interleaving step).only (Careful seen ok)).Run p p') :
    p'.balance held owes = p.balance held owes := by
  refine (System.invariant
    (I := fun q => q.balance held owes = p.balance held owes ∧
      (∀ t ∈ q.threads, I t q.shared) ∧ Current seen val q) ⟨rfl, hall, hcur⟩
    (fun i q q' hq hen hnext => ?_) hrun).1
  obtain ⟨hold, hI, hcurrent⟩ := hq
  obtain ⟨-, hex, hok⟩ := hen
  refine ⟨?_, h.move hI hnext, h.current_move hI hex hcurrent hnext⟩
  obtain ⟨t, t', s', ht, hmoved, rfl⟩ := move_eq_some.mp hnext
  have hmem := List.mem_of_getElem? ht
  have hbal := hstep t q.shared t' s' (hok t ht) (hI t hmem) hmoved
  have hzero := hfresh t q.shared (hok t ht) (hI t hmem) (hcurrent t hmem)
  rw [balance_set ht, hold]
  omega

end EcGcm.Pool
