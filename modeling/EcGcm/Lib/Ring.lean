import Mathlib

/-!
# Rings of slots

A ring is a list of `size` slots that is written in turn: write number `n` goes to slot
`n % size`. What a ring holds is described by `recent`, the values written since it was last
cleared, newest first: the slot written `a` writes ago has entry `a` of `recent`, and a zero where
`recent` has no such entry.

`Ring.Holds` is kept by a write (`Holds.write`) and brought back by clearing (`holds_zeros`). The
next slot to be written has the oldest value that is still there (`Holds.next`), and the sum over
all slots is the sum of the last `size` values, however often the ring has gone round.
-/

set_option autoImplicit false

namespace EcGcm.Ring

variable {α : Type} [AddCommGroup α] {slots recent : List α} {size n i : ℕ}

/-- After `n` writes, of which `recent` has those since the slots were last cleared. -/
structure Holds (slots : List α) (size n : ℕ) (recent : List α) : Prop where
  length : slots.length = size
  slot : ∀ a < size, slots.getD ((n + size - a) % size) 0 = recent.getD a 0
  sum : slots.sum = (recent.take size).sum

/-- Zeros hold nothing, wherever the next write goes. -/
theorem holds_zeros : Holds (List.replicate size (0 : α)) size n [] where
  length := List.length_replicate
  slot a _ := by
    rw [List.getD_nil]
    rcases Nat.lt_or_ge ((n + size - a) % size) size with hlt | hge
    · exact List.getD_replicate _ hlt
    · exact List.getD_eq_default _ _ (by rw [List.length_replicate]; exact hge)
  sum := by rw [List.sum_replicate, smul_zero, List.take_nil, List.sum_nil]

/-- The slot the next write goes to has the oldest value. -/
theorem Holds.next (h : Holds slots size n recent) (hsize : 0 < size) :
    slots.getD ((n + 1) % size) 0 = recent.getD (size - 1) 0 := by
  have hslot := h.slot (size - 1) (by omega)
  rwa [show n + size - (size - 1) = n + 1 by omega] at hslot

/-- Slots of different ages are different slots. -/
theorem slot_ne {a : ℕ} (h0 : 0 < a) (ha : a < size) :
    (n + size - a) % size ≠ n % size := by
  intro heq
  have hdvd : size ∣ (n + size - (n + size - a)) :=
    (Nat.modEq_iff_dvd' (by omega)).mp (heq.trans (Nat.add_mod_right n size).symm)
  rw [show n + size - (n + size - a) = a by omega] at hdvd
  exact absurd (Nat.le_of_dvd h0 hdvd) (by omega)

theorem sum_take_cons (x : α) (hsize : 0 < size) :
    ((x :: recent).take size).sum = (recent.take size).sum - recent.getD (size - 1) 0 + x := by
  obtain ⟨k, rfl⟩ : ∃ k, size = k + 1 := ⟨size - 1, by omega⟩
  rw [List.take_succ_cons, List.sum_cons, List.take_add_one, List.sum_append, Nat.add_sub_cancel]
  rcases Nat.lt_or_ge k recent.length with hlt | hge
  · rw [List.getD_eq_getElem _ _ hlt, List.getElem?_eq_getElem hlt, Option.toList_some,
      List.sum_singleton]
    abel
  · rw [List.getD_eq_default _ _ hge, List.getElem?_eq_none hge, Option.toList_none, List.sum_nil]
    abel

/-- The next write. -/
theorem Holds.write (h : Holds slots size n recent) (hsize : 0 < size) (x : α) :
    Holds (slots.set ((n + 1) % size) x) size (n + 1) (x :: recent) where
  length := by rw [List.length_set, h.length]
  slot a ha := by
    rcases Nat.eq_zero_or_pos a with rfl | h0
    · rw [Nat.sub_zero, Nat.add_mod_right, List.getD_cons_zero]
      have hlt : (n + 1) % size < (slots.set ((n + 1) % size) x).length := by
        rw [List.length_set, h.length]
        exact Nat.mod_lt _ hsize
      rw [List.getD_eq_getElem _ _ hlt, List.getElem_set_self]
    · -- every other slot has grown older by one
      obtain ⟨b, rfl⟩ : ∃ b, a = b + 1 := ⟨a - 1, by omega⟩
      have hne := slot_ne (n := n + 1) h0 ha
      have hslot := h.slot b (by omega)
      rw [List.getD_cons_succ, ← hslot, List.getD_eq_getElem?_getD,
        List.getElem?_set_ne hne.symm, ← List.getD_eq_getElem?_getD,
        show n + 1 + size - (b + 1) = n + size - b by omega]
  sum := by
    have hlt : (n + 1) % size < slots.length := by
      rw [h.length]
      exact Nat.mod_lt _ hsize
    rw [List.sum_set', dif_pos hlt, sum_take_cons x hsize, ← h.next hsize, ← h.sum,
      List.getD_eq_getElem _ _ hlt]
    abel

/-- Every slot has an age. -/
theorem exists_age (hi : i < size) : ∃ a < size, (n + size - a) % size = i := by
  have hsize : 0 < size := by omega
  have hlt := Nat.mod_lt (n + size - i) hsize
  refine ⟨(n + size - i) % size, hlt, ?_⟩
  have hdiv := Nat.div_add_mod (n + size - i) size
  rw [show n + size - (n + size - i) % size = i + size * ((n + size - i) / size) by omega,
    Nat.add_mul_mod_self_left, Nat.mod_eq_of_lt hi]

end EcGcm.Ring
