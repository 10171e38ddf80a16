import Mathlib

/-!
# Bytes of a stream

What a program rests on that reads fixed-size records off a byte stream.

* A word in memory is its bytes, least significant first: `leBytes` writes it, `leNat` reads it.
* A stream of records of one size `k` reaches the reader in pieces of at most `k` bytes, cut by
  somebody who knows nothing of the records. There are as many pieces as records exactly when
  every piece is whole (`length_eq_iff_whole`); then the pieces are the records (`eq_of_whole`).
-/

set_option autoImplicit false

namespace EcGcm.Bytes

/-- The number with the given bytes. -/
def leNat : List UInt8 → ℕ
  | [] => 0
  | b :: bs => b.toNat + 256 * leNat bs

/-- The lowest `k` bytes of a number. -/
def leBytes : ℕ → ℕ → List UInt8
  | 0, _ => []
  | k + 1, n => .ofNat n :: leBytes k (n / 256)

@[simp] theorem length_leBytes (k n : ℕ) : (leBytes k n).length = k := by
  induction k generalizing n with
  | zero => rfl
  | succ k ih => rw [leBytes, List.length_cons, ih]

theorem leNat_leBytes (k n : ℕ) : leNat (leBytes k n) = n % 256 ^ k := by
  induction k generalizing n with
  | zero => rw [pow_zero, Nat.mod_one]; rfl
  | succ k ih =>
    have hlow : (UInt8.ofNat n).toNat = n % 256 := UInt8.toNat_ofNat'
    rw [leBytes, leNat, ih, hlow, pow_succ', Nat.mod_mul]

theorem uint32_leNat_leBytes (w : UInt32) : UInt32.ofNat (leNat (leBytes 4 w.toNat)) = w := by
  have hlt : w.toNat < 256 ^ 4 := w.toNat_lt
  rw [leNat_leBytes, Nat.mod_eq_of_lt hlt, UInt32.ofNat_toNat]

theorem uint64_leNat_leBytes (w : UInt64) : UInt64.ofNat (leNat (leBytes 8 w.toNat)) = w := by
  have hlt : w.toNat < 256 ^ 8 := w.toNat_lt
  rw [leNat_leBytes, Nat.mod_eq_of_lt hlt, UInt64.ofNat_toNat]

/-! ## Pieces and records -/

section Pieces

variable {α : Type} {k : ℕ} {pieces records : List (List α)}

theorem length_flatten_of_whole (h : ∀ r ∈ records, r.length = k) :
    records.flatten.length = k * records.length := by
  rw [List.length_flatten, List.map_eq_replicate_iff.mpr h, List.sum_replicate, smul_eq_mul,
    Nat.mul_comm]

theorem length_flatten_le (h : ∀ p ∈ pieces, p.length ≤ k) :
    pieces.flatten.length ≤ k * pieces.length := by
  induction pieces with
  | nil => exact Nat.zero_le _
  | cons p ps ih =>
    have hp := h p List.mem_cons_self
    have hps := ih fun q hq => h q (List.mem_cons_of_mem p hq)
    rw [List.flatten_cons, List.length_append, List.length_cons, Nat.mul_succ]
    omega

/-- Pieces that carry all they can are whole. -/
theorem whole_of_length_flatten (hle : ∀ p ∈ pieces, p.length ≤ k)
    (hfull : k * pieces.length ≤ pieces.flatten.length) : ∀ p ∈ pieces, p.length = k := by
  induction pieces with
  | nil => exact fun p hp => absurd hp List.not_mem_nil
  | cons q ps ih =>
    have hq := hle q List.mem_cons_self
    have hle' : ∀ p ∈ ps, p.length ≤ k := fun p hp => hle p (List.mem_cons_of_mem q hp)
    have hps := length_flatten_le hle'
    rw [List.flatten_cons, List.length_append, List.length_cons, Nat.mul_succ] at hfull
    intro p hp
    rcases List.mem_cons.mp hp with rfl | hp
    · omega
    · exact ih hle' (by omega) p hp

/-- Two streams of whole records with the same bytes have the same records. -/
theorem eq_of_whole (hk : 0 < k) (hp : ∀ p ∈ pieces, p.length = k)
    (hr : ∀ r ∈ records, r.length = k) (h : pieces.flatten = records.flatten) :
    pieces = records := by
  have hlen : k * pieces.length = k * records.length := by
    rw [← length_flatten_of_whole hp, ← length_flatten_of_whole hr, h]
  refine List.eq_iff_flatten_eq.mpr ⟨h, ?_⟩
  rw [List.map_eq_replicate_iff.mpr hp, List.map_eq_replicate_iff.mpr hr,
    Nat.eq_of_mul_eq_mul_left hk hlen]

/-- **A cut has as many pieces as records exactly when no record was cut.** -/
theorem length_eq_iff_whole (hk : 0 < k) (hle : ∀ p ∈ pieces, p.length ≤ k)
    (hr : ∀ r ∈ records, r.length = k) (h : pieces.flatten = records.flatten) :
    pieces.length = records.length ↔ ∀ p ∈ pieces, p.length = k := by
  constructor
  · intro hlen
    refine whole_of_length_flatten hle ?_
    rw [h, length_flatten_of_whole hr, hlen]
  · exact fun hp => congrArg List.length (eq_of_whole hk hp hr h)

end Pieces

end EcGcm.Bytes
