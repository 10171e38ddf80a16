import EcGcm.Lib.Ring
import EcGcm.Lib.System
import EcGcm.Stats.Window

/-!
# The mean of a window is the mean of its samples

A window never adds its samples up. While it fills, the mean is averaged with the new sample; once
it is full, a `winsize`-th of the difference between the sample that comes and the one that goes is
added. `flush` clears samples and mean and leaves the counter, so the two formulas meet rings that
are cleared at any phase.

What is constant through all this is `mean * min n winsize`: it is the sum of the ring
(`Window.Averages`). The formula for a filling window has to forget nothing, and it does not,
because a ring that has been written `n < winsize` times has a zero in the slot it overwrites.

The clamp at 0.001 does not disturb the sum as long as a mean is either zero or at least
`1 / winsize`. Samples are whole numbers here, windows have at most 1000 slots, and doubles are read
as exact rationals (`Rounding.exact`).
-/

set_option autoImplicit false

namespace EcGcm

namespace Window

/-- The window between the two halves of `insert`. -/
def store (w : Window) (element : ℚ) : Window :=
  let slot := (w.periodsElapsed % w.winsize).toNat
  { w with
    popped := w.winstat.getD slot 0
    winstat := w.winstat.set slot element }

theorem mean_insert (R : Rounding) (w : Window) (x : ℚ) :
    (w.insert R x).mean =
      if (w.store x).nextMean R x < R.fl (1 / 1000) then 0 else (w.store x).nextMean R x := rfl

/-- The ring after `n` samples, of which `recent` are those since the last flush. -/
structure Tracks (w : Window) (n : ℕ) (recent : List ℚ) : Prop where
  periods : w.periodsElapsed.toNat = n + 1
  ring : Ring.Holds w.winstat w.winsize.toNat n recent
  within : recent.length ≤ n

section Ring

variable {R : Rounding} {w : Window} {n : ℕ} {recent : List ℚ} {x : ℚ}

theorem tracks_new (winsize : UInt32) : Tracks (.new winsize) 0 [] where
  periods := rfl
  ring := Ring.holds_zeros
  within := le_rfl

theorem Tracks.flush (h : Tracks w n recent) : Tracks w.flush n [] where
  periods := h.periods
  ring := by
    show Ring.Holds (w.winstat.map fun _ => 0) w.winsize.toNat n []
    rw [List.map_const', h.ring.length]
    exact Ring.holds_zeros
  within := Nat.zero_le n

theorem Tracks.slot_eq (h : Tracks w n recent) :
    (w.periodsElapsed % w.winsize).toNat = (n + 1) % w.winsize.toNat := by
  rw [UInt32.toNat_mod, h.periods]

theorem Tracks.ring_store (h : Tracks w n recent) (hsize : 0 < w.winsize.toNat) :
    Ring.Holds (w.store x).winstat w.winsize.toNat (n + 1) (x :: recent) := by
  show Ring.Holds (w.winstat.set (w.periodsElapsed % w.winsize).toNat x) _ _ _
  rw [h.slot_eq]
  exact h.ring.write hsize x

theorem Tracks.insert (h : Tracks w n recent) (hsize : 0 < w.winsize.toNat)
    (hn : n + 2 < 2 ^ 32) : Tracks (w.insert R x) (n + 1) (x :: recent) where
  periods := by
    show (w.periodsElapsed + 1).toNat = n + 2
    rw [UInt32.toNat_add, h.periods]
    exact Nat.mod_eq_of_lt hn
  ring := h.ring_store hsize
  within := by
    rw [List.length_cons]
    exact Nat.succ_le_succ h.within

/-- The slot that is overwritten has the oldest sample. -/
theorem Tracks.popped_store (h : Tracks w n recent) (hsize : 0 < w.winsize.toNat) :
    (w.store x).popped = recent.getD (w.winsize.toNat - 1) 0 := by
  show w.winstat.getD (w.periodsElapsed % w.winsize).toNat 0 = _
  rw [h.slot_eq]
  exact h.ring.next hsize

/-- A window that is not full yet. -/
theorem Tracks.nextMean_of_filling (h : Tracks w n recent) (hn : n + 1 ≤ w.winsize.toNat) :
    (w.store x).nextMean R x = R.div (R.add (R.mul n w.mean) x) (n + 1 : ℕ) := by
  have hle : w.periodsElapsed ≤ w.winsize := by
    rw [UInt32.le_iff_toNat_le, h.periods]
    exact hn
  have hprev : (w.periodsElapsed - 1).toNat = n := by
    have h1 : (1 : UInt32).toNat = 1 := rfl
    have hlt := w.periodsElapsed.toNat_lt
    rw [h.periods] at hlt
    rw [UInt32.toNat_sub, h1, h.periods]
    omega
  show (if w.periodsElapsed ≤ w.winsize then _ else _) = _
  rw [if_pos hle]
  show R.div (R.add (R.mul (R.ofNat (w.periodsElapsed - 1).toNat) w.mean) x)
    (R.ofNat w.periodsElapsed.toNat) = _
  rw [R.ofNat_toUInt32, R.ofNat_toUInt32, hprev, h.periods]

/-- A full one. -/
theorem Tracks.nextMean_of_full (h : Tracks w n recent) (hsize : 0 < w.winsize.toNat)
    (hn : w.winsize.toNat ≤ n) :
    (w.store x).nextMean R x =
      R.add w.mean (R.div (R.sub x (recent.getD (w.winsize.toNat - 1) 0)) w.winsize.toNat) := by
  have hgt : ¬ w.periodsElapsed ≤ w.winsize := by
    rw [UInt32.le_iff_toNat_le, h.periods]
    omega
  show (if w.periodsElapsed ≤ w.winsize then _ else _) = _
  rw [if_neg hgt, h.popped_store hsize, R.ofNat_toUInt32]
  rfl

end Ring

/-! ## Sums -/

section Mean

variable {w : Window} {n : ℕ} {recent : List ℚ} {x : ℚ}

/-- The next mean is again a mean of samples, if the last one was. -/
theorem Tracks.nextMean_eq (h : Tracks w n recent) (hsize : 0 < w.winsize.toNat)
    (hmean : w.mean = (recent.take w.winsize.toNat).sum / (min n w.winsize.toNat : ℕ)) :
    (w.store x).nextMean .exact x =
      ((x :: recent).take w.winsize.toNat).sum / (min (n + 1) w.winsize.toNat : ℕ) := by
  rw [Ring.sum_take_cons x hsize]
  rcases Nat.lt_or_ge n w.winsize.toNat with hfill | hfull
  · -- nothing has been overwritten so far
    have hlast : recent.getD (w.winsize.toNat - 1) 0 = 0 :=
      List.getD_eq_default _ _ (by have := h.within; omega)
    have hsum : (n : ℚ) * w.mean = (recent.take w.winsize.toNat).sum := by
      rw [hmean, Nat.min_eq_left hfill.le]
      rcases Nat.eq_zero_or_pos n with rfl | hpos
      · have hnil : recent = [] := List.length_eq_zero_iff.mp (Nat.le_zero.mp h.within)
        rw [hnil, List.take_nil, List.sum_nil, zero_div, mul_zero]
      · exact mul_div_cancel₀ _ (Nat.cast_ne_zero.mpr hpos.ne')
    rw [h.nextMean_of_filling hfill, Rounding.exact_div, Rounding.exact_add, Rounding.exact_mul,
      hsum, hlast, Nat.min_eq_left hfill, sub_zero]
  · rw [h.nextMean_of_full hsize hfull, Rounding.exact_add, Rounding.exact_div,
      Rounding.exact_sub, hmean, Nat.min_eq_right hfull, Nat.min_eq_right (by omega), ← add_div]
    congr 1
    ring

/-- A quotient of whole numbers by at most 1000 is zero or escapes the clamp. -/
theorem clamp_of_nat {s d : ℕ} (hd : d ≤ 1000) (hlt : (s : ℚ) / d < 1 / 1000) :
    (s : ℚ) / d = 0 := by
  rcases Nat.eq_zero_or_pos s with rfl | hs
  · rw [Nat.cast_zero, zero_div]
  · rcases Nat.eq_zero_or_pos d with rfl | hpos
    · rw [Nat.cast_zero, div_zero]
    · exfalso
      rw [div_lt_div_iff₀ (Nat.cast_pos.mpr hpos) (by norm_num), one_mul] at hlt
      have hle : d ≤ s * 1000 := hd.trans (Nat.le_mul_of_pos_left 1000 hs)
      exact absurd hlt (not_lt.mpr (by exact_mod_cast hle))

end Mean

/-- The mean of whole samples is that of the ring. -/
structure Averages (w : Window) (n : ℕ) (recent : List ℕ) : Prop where
  tracks : w.Tracks n (recent.map fun x : ℕ => (x : ℚ))
  mean : w.mean = ((recent.take w.winsize.toNat).sum : ℕ) / (min n w.winsize.toNat : ℕ)

section Averages

variable {w : Window} {n : ℕ} {recent : List ℕ} {x : ℕ}

theorem sum_take_cast (k : ℕ) :
    ((recent.map fun x : ℕ => (x : ℚ)).take k).sum = ((recent.take k).sum : ℕ) := by
  rw [← List.map_take, Nat.cast_list_sum]

theorem averages_new (winsize : UInt32) : Averages (.new winsize) 0 [] where
  tracks := tracks_new winsize
  mean := by
    rw [List.take_nil, List.sum_nil, Nat.cast_zero, zero_div]
    rfl

theorem Averages.flush (h : Averages w n recent) : Averages w.flush n [] where
  tracks := h.tracks.flush
  mean := by
    rw [List.take_nil, List.sum_nil, Nat.cast_zero, zero_div]
    rfl

theorem Averages.nextMean_eq (h : Averages w n recent) (hsize : 0 < w.winsize.toNat) :
    (w.store x).nextMean .exact x =
      (((x :: recent).take w.winsize.toNat).sum : ℕ) / (min (n + 1) w.winsize.toNat : ℕ) := by
  rw [h.tracks.nextMean_eq hsize (by rw [sum_take_cast]; exact h.mean), ← sum_take_cast]
  rfl

/-- The clamp changes no mean but zero, which it leaves zero. -/
theorem Averages.clamp (h : Averages w n recent) (hsize : 0 < w.winsize.toNat)
    (hsmall : w.winsize.toNat ≤ 1000) (hlt : (w.store x).nextMean .exact x < 1 / 1000) :
    (w.store x).nextMean .exact x = 0 := by
  rw [h.nextMean_eq hsize] at hlt ⊢
  exact clamp_of_nat ((Nat.min_le_right _ _).trans hsmall) hlt

theorem Averages.mean_insert (h : Averages w n recent) (hsize : 0 < w.winsize.toNat)
    (hsmall : w.winsize.toNat ≤ 1000) :
    (w.insert .exact x).mean =
      (((x :: recent).take w.winsize.toNat).sum : ℕ) / (min (n + 1) w.winsize.toNat : ℕ) := by
  rw [← h.nextMean_eq hsize, Window.mean_insert, Rounding.exact_fl]
  split
  · rename_i hlt
    exact (h.clamp hsize hsmall hlt).symm
  · rfl

/-- The step lemma. -/
theorem Averages.insert (h : Averages w n recent) (hsize : 0 < w.winsize.toNat)
    (hsmall : w.winsize.toNat ≤ 1000) (hn : n + 2 < 2 ^ 32) :
    Averages (w.insert .exact x) (n + 1) (x :: recent) where
  tracks := h.tracks.insert hsize hn
  mean := h.mean_insert hsize hsmall

end Averages

end Window

/-! ## A window in use -/

/-- A window, all samples that have been inserted, oldest first, and how many there were at the
last flush. -/
structure Sampled where
  window : Window
  samples : List ℕ
  flushedAt : ℕ

namespace Sampled

/-- What is done to a window. -/
inductive Call
  | insert (x : ℕ)
  | flush

/-- A window that has just been constructed. -/
def new (winsize : UInt32) : Sampled := ⟨.new winsize, [], 0⟩

/-- Inserts and flushes in any order. -/
def calls : System Sampled Call where
  enabled _ _ := True
  next
    | .insert x, s => some
      { s with window := s.window.insert .exact x, samples := s.samples ++ [x] }
    | .flush, s => some { s with window := s.window.flush, flushedAt := s.samples.length }

instance (s : Sampled) (c : Call) : Decidable (calls.enabled s c) := .isTrue trivial

/-- The samples since the last flush, newest first. -/
def recent (s : Sampled) : List ℕ := (s.samples.drop s.flushedAt).reverse

variable {s s' : Sampled} {winsize : UInt32}

/-- Where a window of this size can be, as long as its counter has not come round. -/
structure SampledInv (winsize : UInt32) (s : Sampled) : Prop where
  winsize : s.window.winsize = winsize
  flushed : s.flushedAt ≤ s.samples.length
  averages : s.samples.length + 1 < 2 ^ 32 → s.window.Averages s.samples.length s.recent

theorem sampledInv_new : SampledInv winsize (new winsize) where
  winsize := rfl
  flushed := le_rfl
  averages _ := Window.averages_new winsize

/-- The step lemma. -/
theorem SampledInv.next {c : Call} (h : SampledInv winsize s) (hsize : 0 < winsize.toNat)
    (hsmall : winsize.toNat ≤ 1000) (hnext : calls.next c s = some s') :
    SampledInv winsize s' := by
  cases c with
  | insert x =>
    cases hnext
    have hlength : (s.samples ++ [x]).length = s.samples.length + 1 := List.length_append
    refine ⟨h.winsize, ?_, fun hn => ?_⟩
    · dsimp only
      have := h.flushed
      omega
    · dsimp only at hn ⊢
      have hrecent : ({ s with window := s.window.insert .exact x, samples := s.samples ++ [x] } :
          Sampled).recent = x :: s.recent := by
        show ((s.samples ++ [x]).drop s.flushedAt).reverse = _
        rw [List.drop_append_of_le_length h.flushed, List.reverse_append]
        rfl
      rw [hrecent, hlength]
      have hw := h.winsize
      exact (h.averages (by omega)).insert (by rw [hw]; exact hsize) (by rw [hw]; exact hsmall)
        (by omega)
  | flush =>
    cases hnext
    refine ⟨h.winsize, le_rfl, fun hn => ?_⟩
    have hrecent : ({ s with window := s.window.flush, flushedAt := s.samples.length } :
        Sampled).recent = [] := by
      show (s.samples.drop s.samples.length).reverse = []
      rw [List.drop_length, List.reverse_nil]
    rw [hrecent]
    exact (h.averages hn).flush

/-- The run lemma. -/
theorem sampledInv_of_run (hsize : 0 < winsize.toNat) (hsmall : winsize.toNat ≤ 1000)
    (hrun : calls.Run (new winsize) s) : SampledInv winsize s :=
  System.invariant sampledInv_new (fun _ _ _ ht _ hnext => ht.next hsize hsmall hnext) hrun

/-- Insert number `i`, counted from one, is one of the last `winsize`. -/
def InRing (s : Sampled) (i : ℕ) : Prop :=
  1 ≤ i ∧ i ≤ s.samples.length ∧ s.samples.length < i + s.window.winsize.toNat

/-- The ring has the samples that count, and the mean is theirs. -/
structure Exact (s : Sampled) : Prop where
  /-- Of the last `winsize` inserts, those since the last flush are in their slots. -/
  slots : ∀ i, s.InRing i → s.window.winstat[i % s.window.winsize.toNat]? =
    some (if s.flushedAt < i then (s.samples.getD (i - 1) 0 : ℚ) else 0)
  /-- Every other slot is empty. -/
  others : ∀ slot < s.window.winsize.toNat,
    (∀ i, s.InRing i → i % s.window.winsize.toNat ≠ slot) → s.window.winstat[slot]? = some 0
  length : s.window.winstat.length = s.window.winsize.toNat
  mean : 1 ≤ s.samples.length → s.window.mean = s.window.winstat.sum /
    (min (s.window.periodsElapsed.toNat - 1) s.window.winsize.toNat : ℕ)
  /-- The clamp of the next insert changes no mean but zero. -/
  clamp : ∀ x : ℕ, (s.window.store x).nextMean .exact x < 1 / 1000 →
    (s.window.store x).nextMean .exact x = 0

theorem getD_recent (s : Sampled) {a : ℕ} (ha : a < s.samples.length) :
    s.recent.getD a 0 =
      if s.flushedAt < s.samples.length - a then s.samples.getD (s.samples.length - a - 1) 0
      else 0 := by
  have hlength : s.recent.length = s.samples.length - s.flushedAt := by
    show (s.samples.drop s.flushedAt).reverse.length = _
    rw [List.length_reverse, List.length_drop]
  split
  · rename_i hlt
    have hdrop : a < (s.samples.drop s.flushedAt).length := by
      rw [List.length_drop]
      omega
    unfold recent
    rw [List.getD_eq_getElem?_getD, List.getElem?_reverse hdrop, List.getElem?_drop,
      List.length_drop, ← List.getD_eq_getElem?_getD]
    congr 1
    omega
  · rename_i hnot
    exact List.getD_eq_default _ _ (by omega)

/-- A slot by the age of what was last written to it. -/
theorem SampledInv.slot (h : SampledInv winsize s) (hn : s.samples.length + 1 < 2 ^ 32) {a : ℕ}
    (ha : a < s.window.winsize.toNat) :
    s.window.winstat[(s.samples.length + s.window.winsize.toNat - a) %
      s.window.winsize.toNat]? = some (s.recent.getD a 0 : ℚ) := by
  have hring := (h.averages hn).tracks.ring
  have hslot := hring.slot a ha
  have hlt : (s.samples.length + s.window.winsize.toNat - a) % s.window.winsize.toNat <
      s.window.winstat.length := by
    rw [hring.length]
    exact Nat.mod_lt _ (by omega)
  rw [List.getD_eq_getElem _ _ hlt] at hslot
  rw [List.getElem?_eq_getElem hlt, hslot]
  rw [← Nat.cast_zero, List.getD_map (f := fun x : ℕ => (x : ℚ))]

theorem SampledInv.exact (h : SampledInv winsize s) (hsize : 0 < winsize.toNat)
    (hsmall : winsize.toNat ≤ 1000) (hn : s.samples.length + 1 < 2 ^ 32) : s.Exact := by
  have hw := h.winsize
  have haverages := h.averages hn
  constructor
  · rintro i ⟨h1, hle, hlast⟩
    have hslot := h.slot hn (a := s.samples.length - i) (by omega)
    rw [show s.samples.length + s.window.winsize.toNat - (s.samples.length - i) =
      i + s.window.winsize.toNat by omega, Nat.add_mod_right, getD_recent s (by omega),
      show s.samples.length - (s.samples.length - i) = i by omega] at hslot
    rw [hslot]
    split
    · rfl
    · exact congrArg some Nat.cast_zero
  · intro slot hslot hnot
    obtain ⟨a, ha, hage⟩ := Ring.exists_age (n := s.samples.length) hslot
    have hvalue := h.slot hn ha
    rw [hage] at hvalue
    have hold : s.samples.length ≤ a := by
      by_contra hlt
      refine hnot (s.samples.length - a) ⟨by omega, by omega, by omega⟩ ?_
      rw [← hage, ← Nat.add_mod_right]
      congr 1
      omega
    have hnone : s.recent.getD a 0 = 0 :=
      List.getD_eq_default _ _ (by
        have hwithin := haverages.tracks.within
        rw [List.length_map] at hwithin
        omega)
    rw [hvalue, hnone]
    exact congrArg some Nat.cast_zero
  · exact haverages.tracks.ring.length
  · intro _
    rw [haverages.mean, haverages.tracks.ring.sum, Window.sum_take_cast,
      haverages.tracks.periods, Nat.add_sub_cancel]
  · exact fun x hlt => haverages.clamp (by rw [hw]; exact hsize) (by rw [hw]; exact hsmall) hlt

/-- **The incremental mean is exact.** -/
theorem window_mean_exact (hsize : 1 ≤ winsize.toNat) (hsmall : winsize.toNat ≤ 1000)
    (hrun : calls.Run (new winsize) s) (hcount : s.samples.length ≤ 2 ^ 32 - 2) : s.Exact :=
  (sampledInv_of_run hsize hsmall hrun).exact hsize hsmall (by omega)

/-- Two samples, a flush, and one more: the ring has 9 in slot 3, and the mean is 3. -/
theorem window_mean_exact_of_flush :
    ∃ s, calls.Run (new 10) s ∧ s.samples = [5, 7, 9] ∧ s.flushedAt = 2 ∧ s.window.mean = 3 ∧
      s.Exact := by
  have hreplay : ((calls.replay [.insert 5, .insert 7, .flush, .insert 9] (new 10)).any fun s =>
      decide (s.samples = [5, 7, 9] ∧ s.flushedAt = 2 ∧ s.window.mean = 3)) = true := by
    decide +kernel
  obtain ⟨s, hrun, htest⟩ := System.exists_run_of_replay hreplay
  obtain ⟨hsamples, hflushed, hmean⟩ := of_decide_eq_true htest
  exact ⟨s, hrun, hsamples, hflushed, hmean,
    window_mean_exact (by decide) (by decide) hrun (by rw [hsamples]; decide)⟩

end Sampled

end EcGcm
