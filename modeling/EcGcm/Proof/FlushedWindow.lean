import EcGcm.Proof.SlidingMean

/-!
# A flushed window is not a new one

The constructor sets every field of a window and `flush` all of them but one: `periods_elapsed`
goes on. That counter picks the slot, which does not matter in a ring of zeros, and it is the
divisor while the window fills. So the first samples after a flush are divided by the number of
all samples so far, or by `winsize`, where a new window divides by one, two, three.

The two runs are compared sample by sample (`Window.Later`). Their rings have the same samples at
different places, and from sample number `winsize` on they also use the same divisor. Before that
they agree for one reason only: both means are below the clamp and forgotten. For whole samples and
the ten slots of the source this says that the first nine samples are zero
(`actsAsNew_number_iff`).

All this holds of doubles as they are, rounded at every operation: two quotients of one sample by
different counts stay apart (`Rounding.div_lt_div`), and where the two windows compute the same
mean they compute it in the same way.
-/

set_option autoImplicit false

namespace EcGcm.Window

/-- What is done to a window. -/
inductive Call (R : Rounding)
  | insert (x : R.Number)
  | flush

def call {R : Rounding} (w : Window) : Call R → Window
  | .insert x => w.insert R x
  | .flush => w.flush

variable {R : Rounding}

/-- The window after a history of calls. -/
def after (w : Window) (history : List (Call R)) : Window := history.foldl call w

/-- How many of the calls are inserts. -/
def inserts : List (Call R) → ℕ
  | [] => 0
  | .insert _ :: calls => inserts calls + 1
  | .flush :: calls => inserts calls

/-- What `insert` returns for one sample after the other. No number comes back from an empty
window, which takes a remainder by zero, nor from a counter that has come round to 0: dividing by
it leaves an infinity or no number at all, and neither goes away before the next flush. -/
def means : Window → List R.Number → List (Option ℚ)
  | _, [] => []
  | w, x :: xs =>
    if w.winsize = 0 ∨ w.periodsElapsed = 0 then (x :: xs).map fun _ => none
    else some (w.insert R x).mean :: means (w.insert R x) xs

/-! ## Histories -/

section History

variable {w : Window} {history : List (Call R)}

theorem winsize_after : (w.after history).winsize = w.winsize := by
  induction history generalizing w with
  | nil => rfl
  | cons c history ih =>
    show ((w.call c).after history).winsize = w.winsize
    rw [ih]
    cases c <;> rfl

theorem length_after : (w.after history).winstat.length = w.winstat.length := by
  induction history generalizing w with
  | nil => rfl
  | cons c history ih =>
    show ((w.call c).after history).winstat.length = w.winstat.length
    rw [ih]
    cases c with
    | insert x => exact List.length_set
    | flush => exact List.length_map _

/-- Only inserts are counted, and nothing takes the count back. -/
theorem periodsElapsed_after :
    (w.after history).periodsElapsed = w.periodsElapsed + UInt32.ofNat (inserts history) := by
  induction history generalizing w with
  | nil => exact (UInt32.add_zero _).symm
  | cons c history ih =>
    show ((w.call c).after history).periodsElapsed = _
    rw [ih]
    cases c with
    | insert x =>
      show w.periodsElapsed + 1 + UInt32.ofNat (inserts history) =
        w.periodsElapsed + UInt32.ofNat (inserts history + 1)
      rw [UInt32.ofNat_add, UInt32.add_assoc, UInt32.add_comm 1]
      rfl
    | flush => rfl

end History

variable {winsize : UInt32} {history : List (Call R)}

/-- The ring of a flushed window is that of a new one. -/
theorem flush_after_new :
    ((new winsize).after history).flush =
      { new winsize with periodsElapsed := 1 + UInt32.ofNat (inserts history) } := by
  have hlength : ((new winsize).after history).winstat.length = winsize.toNat :=
    length_after.trans List.length_replicate
  have hzeros : (((new winsize).after history).winstat.map fun _ => (0 : ℚ)) =
      List.replicate winsize.toNat 0 := by rw [List.map_const', hlength]
  unfold flush
  rw [hzeros, winsize_after, periodsElapsed_after]
  rfl

/-! ## Where no number comes back -/

section Means

variable {w : Window} {x : R.Number} {xs : List R.Number}

theorem means_of_empty (h : w.winsize = 0) : w.means xs = xs.map fun _ => none := by
  cases xs with
  | nil => rfl
  | cons x xs => exact if_pos (.inl h)

theorem means_of_round (h : w.periodsElapsed = 0) : w.means xs = xs.map fun _ => none := by
  cases xs with
  | nil => rfl
  | cons x xs => exact if_pos (.inr h)

theorem means_cons (hsize : w.winsize ≠ 0) (hperiods : w.periodsElapsed ≠ 0) :
    w.means (x :: xs) = some (w.insert R x).mean :: (w.insert R x).means xs :=
  if_neg (by rintro (h | h); exacts [hsize h, hperiods h])

theorem Tracks.periods_ne_zero {n : ℕ} {recent : List ℚ} (h : w.Tracks n recent) :
    w.periodsElapsed ≠ 0 := by
  intro h0
  have hperiods := h.periods
  rw [h0] at hperiods
  exact absurd hperiods (by simp)

end Means

/-! ## Two means, one clamp -/

section Clamp

variable {x : ℚ} {a b : ℕ}

theorem clamp_pos (R : Rounding) : 0 < R.fl (1 / 1000) := R.fl_pos (by norm_num)

/-- Two clamped quotients of one sample by different divisors agree below the clamp and nowhere
else. -/
theorem clamped_eq_iff (ha : 0 < a) (hab : a < b) (hb : b ≤ 2 ^ 52) :
    (if R.div x b < R.fl (1 / 1000) then 0 else R.div x b) =
        (if R.div x a < R.fl (1 / 1000) then 0 else R.div x a) ↔
      R.div x a < R.fl (1 / 1000) := by
  have hclamp := clamp_pos R
  have hnonpos : ∀ d : ℕ, x ≤ 0 → R.div x d ≤ 0 := fun d hx =>
    R.fl_nonpos (div_nonpos_of_nonpos_of_nonneg hx (Nat.cast_nonneg d))
  by_cases hsmall : R.div x a < R.fl (1 / 1000)
  · have hlt : R.div x b < R.fl (1 / 1000) := by
      rcases le_or_gt x 0 with hx | hx
      · exact (hnonpos b hx).trans_lt hclamp
      · exact (R.div_lt_div hx ha hab hb).trans hsmall
    rw [if_pos hlt, if_pos hsmall]
    exact iff_of_true rfl hsmall
  · have hx : 0 < x := by
      by_contra hnot
      exact hsmall ((hnonpos a (not_lt.mp hnot)).trans_lt hclamp)
    rw [if_neg hsmall]
    refine iff_of_false ?_ hsmall
    split
    · exact (hclamp.trans_le (not_lt.mp hsmall)).ne
    · exact (R.div_lt_div hx ha hab hb).ne

/-- For whole samples and counts of 32 bits the rounding does not matter to the clamp. -/
theorem div_lt_clamp_iff {x : ℕ} (ha : 0 < a) (hlt : a < 2 ^ 32) :
    R.div (R.ofNat x) a < R.fl (1 / 1000) ↔ 1000 * x < a := by
  have haq : (0 : ℚ) < a := by exact_mod_cast ha
  by_cases hsmall : 1000 * x < a
  · have hof : R.ofNat x = x := R.fl_natCast (by omega)
    have hgap : (1000 * x : ℚ) + 1 ≤ a := by exact_mod_cast hsmall
    have hbound : (a : ℚ) < 2 ^ 32 := by exact_mod_cast hlt
    refine iff_of_true ?_ hsmall
    rw [hof]
    calc R.div x a ≤ x / a * (1 + 1 / 2 ^ 53) := R.fl_le_mul (by positivity)
      _ < 1 / 1000 * (1 - 1 / 2 ^ 53) := by
          rw [div_mul_eq_mul_div, div_lt_iff₀ haq]
          linarith
      _ ≤ R.fl (1 / 1000) := R.mul_le_fl (by norm_num)
  · refine iff_of_false (not_lt.mpr (R.mono ?_)) hsmall
    rw [div_le_div_iff₀ (by norm_num) haq, one_mul]
    -- a sample of 53 bits and more is far above the clamp, and rounding does not bring it near
    have hround : (x : ℚ) * (1 - 1 / 2 ^ 53) ≤ R.ofNat x := R.mul_le_fl (Nat.cast_nonneg x)
    rcases le_or_gt x (2 ^ 53) with hfits | hlarge
    · have hof : R.ofNat x = x := R.fl_natCast hfits
      rw [hof]
      exact_mod_cast (not_lt.mp hsmall).trans_eq (Nat.mul_comm _ _)
    · have hbig : (2 : ℚ) ^ 53 < x := by exact_mod_cast hlarge
      have hbound : (a : ℚ) < 2 ^ 32 := by exact_mod_cast hlt
      linarith

end Clamp

/-- A window whose mean is zero, and from which nothing but zero goes. -/
theorem Tracks.nextMean_of_zero {w : Window} {n : ℕ} {recent : List ℚ} {x : R.Number}
    (h : w.Tracks n recent) (hsize : 0 < w.winsize.toNat) (hmean : w.mean = 0)
    (hlast : recent.getD (w.winsize.toNat - 1) 0 = 0) :
    (w.store x).nextMean R x = R.div x (min (n + 1) w.winsize.toNat : ℕ) := by
  rcases Nat.lt_or_ge n w.winsize.toNat with hfill | hfull
  · have hsum : R.add (R.mul n 0) x = x := by
      rw [Rounding.mul, mul_zero, R.fl_zero, Rounding.add, zero_add, x.2]
    rw [h.nextMean_of_filling hfill, hmean, hsum, Nat.min_eq_left hfill]
  · have hdiff : R.sub x 0 = x := by rw [Rounding.sub, sub_zero, x.2]
    have hquot : R.add 0 (R.div x w.winsize.toNat) = R.div x w.winsize.toNat := by
      rw [Rounding.add, zero_add, Rounding.div, R.idem]
    rw [h.nextMean_of_full hsize hfull, hmean, hlast, hdiff, hquot, Nat.min_eq_right (by omega)]

/-! ## The two runs -/

/-- `F` has been flushed after `k` samples, `N` is new, and both have taken in the same `j` samples
since, with the same means so far. -/
structure Later (F N : Window) (k j : ℕ) (recent : List ℚ) : Prop where
  winsize : F.winsize = N.winsize
  fresh : N.Tracks j recent
  old : k + j + 1 < 2 ^ 32 → F.Tracks (k + j) recent
  round : k + j + 1 = 2 ^ 32 → F.periodsElapsed = 0
  mean : F.mean = N.mean
  /-- A mean that is not zero would have given the flushed window away. -/
  filling : j < N.winsize.toNat → N.mean = 0

section Later

variable {F N : Window} {k j : ℕ} {recent : List ℚ} {x : R.Number}

/-- The next means agree if the new window is about to be full, or the clamp hides both. -/
theorem Later.mean_insert_iff (h : Later F N k j recent) (hk : 0 < k) (hsize : 0 < N.winsize.toNat)
    (hround : k + j + 1 < 2 ^ 32) :
    (F.insert R x).mean = (N.insert R x).mean ↔
      (j + 1 < N.winsize.toNat → R.div x (j + 1 : ℕ) < R.fl (1 / 1000)) := by
  have hF := h.old hround
  have hw := h.winsize
  rw [Window.mean_insert, Window.mean_insert]
  rcases Nat.lt_or_ge j N.winsize.toNat with hfill | hfull
  · have hlast : recent.getD (N.winsize.toNat - 1) 0 = 0 :=
      List.getD_eq_default _ _ (by have := h.fresh.within; omega)
    have hmeanN := h.filling hfill
    rw [hF.nextMean_of_zero (by rw [hw]; exact hsize) (h.mean.trans hmeanN)
      (by rw [hw]; exact hlast), h.fresh.nextMean_of_zero hsize hmeanN hlast, hw,
      Nat.min_eq_left hfill]
    rcases Nat.lt_or_ge (j + 1) N.winsize.toNat with hlt | hge
    · have hbound := N.winsize.toNat_lt
      rw [clamped_eq_iff (by omega) (by omega) (by omega), imp_iff_right hlt]
    · -- the tenth sample of ten: both divide by ten
      have hlength : j + 1 = N.winsize.toNat := by omega
      rw [Nat.min_eq_right (by omega), ← hlength]
      exact iff_of_true rfl fun hlt => absurd hlt (Nat.lt_irrefl _)
  · have hnext : (F.store x).nextMean R x = (N.store x).nextMean R x := by
      rw [hF.nextMean_of_full (by rw [hw]; exact hsize) (by rw [hw]; omega),
        h.fresh.nextMean_of_full hsize hfull, h.mean, hw]
    rw [hnext]
    exact iff_of_true rfl fun hlt => absurd hlt (by omega)

/-- The step lemma. -/
theorem Later.insert (h : Later F N k j recent) (hk : 0 < k) (hsize : 0 < N.winsize.toNat)
    (hround : k + j + 1 < 2 ^ 32) (hmean : (F.insert R x).mean = (N.insert R x).mean) :
    Later (F.insert R x) (N.insert R x) k (j + 1) (x :: recent) where
  winsize := h.winsize
  fresh := h.fresh.insert hsize (by omega)
  old hlt := (h.old hround).insert (by rw [h.winsize]; exact hsize) (by omega)
  round heq := by
    have hperiods := (h.old hround).periods
    show F.periodsElapsed + 1 = 0
    rw [← UInt32.toNat_inj, UInt32.toNat_add, hperiods]
    have h1 : (1 : UInt32).toNat = 1 := rfl
    have h0 : (0 : UInt32).toNat = 0 := rfl
    rw [h1, h0]
    omega
  mean := hmean
  filling hlt := by
    have hsmall := (h.mean_insert_iff hk hsize hround).mp hmean hlt
    have hlt' : j < N.winsize.toNat := Nat.lt_of_succ_lt hlt
    have hlast : recent.getD (N.winsize.toNat - 1) 0 = 0 :=
      List.getD_eq_default _ _ (by have := h.fresh.within; omega)
    rw [Window.mean_insert, h.fresh.nextMean_of_zero hsize (h.filling hlt') hlast,
      Nat.min_eq_left hlt']
    exact if_pos hsmall

end Later

/-- The samples with numbers below `winsize` are hidden by the clamp; `j` of them have come. -/
def Hidden (winsize j : ℕ) (xs : List R.Number) : Prop :=
  ∀ i, j + i + 1 < winsize → ∀ x ∈ xs[i]?, R.div x (j + i + 1 : ℕ) < R.fl (1 / 1000)

theorem hidden_cons {winsize j : ℕ} {x : R.Number} {xs : List R.Number} :
    Hidden winsize j (x :: xs) ↔
      (j + 1 < winsize → R.div x (j + 1 : ℕ) < R.fl (1 / 1000)) ∧ Hidden winsize (j + 1) xs := by
  constructor
  · intro h
    refine ⟨fun hlt => h 0 hlt x rfl, fun i hi y hy => ?_⟩
    have := h (i + 1) (by omega) y hy
    rwa [show j + (i + 1) = j + 1 + i by omega] at this
  · rintro ⟨hx, hxs⟩ i hi y hy
    cases i with
    | zero =>
      cases hy
      exact hx hi
    | succ i =>
      have := hxs i (by omega) y hy
      rwa [show j + 1 + i = j + (i + 1) by omega] at this

/-- The run lemma: the two runs agree as long as all is hidden and the counter does not come
round. -/
theorem Later.means_iff {F N : Window} {k j : ℕ} {recent : List ℚ} {xs : List R.Number}
    (h : Later F N k j recent) (hk : 0 < k) (hsize : 0 < N.winsize.toNat)
    (hround : k + j + 1 ≤ 2 ^ 32) :
    F.means xs = N.means xs ↔ k + j + xs.length < 2 ^ 32 ∧ Hidden N.winsize.toNat j xs := by
  have hnonzero : N.winsize ≠ 0 := by
    intro h0
    rw [h0] at hsize
    exact absurd hsize (by simp)
  induction xs generalizing F N j recent with
  | nil =>
    refine iff_of_true rfl ⟨?_, fun i _ x hx => absurd hx (by simp)⟩
    rw [List.length_nil]
    omega
  | cons x xs ih =>
    have hN : N.means (x :: xs) = some (N.insert R x).mean :: (N.insert R x).means xs :=
      means_cons hnonzero h.fresh.periods_ne_zero
    rw [List.length_cons, hN]
    rcases Nat.lt_or_ge (k + j + 1) (2 ^ 32) with hlt | hge
    · rw [means_cons (by rw [h.winsize]; exact hnonzero) (h.old hlt).periods_ne_zero, hidden_cons,
        List.cons.injEq, Option.some.injEq]
      constructor
      · rintro ⟨hhead, htail⟩
        have hnext := h.insert hk hsize hlt hhead
        obtain ⟨hlength, hhidden⟩ := (ih hnext hsize (by omega) hnonzero).mp htail
        exact ⟨by omega, (h.mean_insert_iff hk hsize hlt).mp hhead, hhidden⟩
      · rintro ⟨hlength, hx, hhidden⟩
        have hhead := (h.mean_insert_iff hk hsize hlt).mpr hx
        have hnext := h.insert hk hsize hlt hhead
        exact ⟨hhead, (ih hnext hsize (by omega) hnonzero).mpr ⟨by omega, hhidden⟩⟩
    · -- the counter of the flushed window has come round, that of the new one has not
      rw [means_of_round (h.round (by omega)), List.map_cons, List.cons.injEq]
      exact iff_of_false (fun heq => absurd heq.1 (by simp)) fun hlength =>
        absurd hlength.1 (by omega)

/-! ## The condition -/

/-- Nothing has been inserted, as far as the counter knows; or all that comes while a new window
would fill is hidden by the clamp, and the counter does not come round. -/
def ActsAsNew (winsize : UInt32) (history : List (Call R)) (xs : List R.Number) : Prop :=
  winsize = 0 ∨ inserts history % 2 ^ 32 = 0 ∨
    (inserts history % 2 ^ 32 + xs.length < 2 ^ 32 ∧
      ∀ i, i + 1 < winsize.toNat → ∀ x ∈ xs[i]?, R.div x (i + 1 : ℕ) < R.fl (1 / 1000))

/-- Whole samples in a window of at most 1000: the first ones are zero. -/
theorem actsAsNew_number_iff {winsize : UInt32} {history : List (Call R)} {xs : List ℕ}
    (hsmall : winsize.toNat ≤ 1000) :
    ActsAsNew winsize history (xs.map R.number) ↔
      winsize = 0 ∨ inserts history % 2 ^ 32 = 0 ∨
        (inserts history % 2 ^ 32 + xs.length < 2 ^ 32 ∧
          ∀ i, i + 1 < winsize.toNat → ∀ x ∈ xs[i]?, x = 0) := by
  have hzero : ∀ i, i + 1 < winsize.toNat → ∀ x : ℕ,
      R.div (R.number x) (i + 1 : ℕ) < R.fl (1 / 1000) ↔ x = 0 := by
    intro i hi x
    exact (div_lt_clamp_iff (by omega) (by omega)).trans (by omega)
  unfold ActsAsNew
  rw [List.length_map]
  refine or_congr_right (or_congr_right (and_congr_right fun _ => ?_))
  refine forall_congr' fun i => imp_congr_right fun hi => ?_
  rw [List.getElem?_map]
  cases xs[i]? with
  | none => exact iff_of_true (fun _ h => by cases h) (fun _ h => by cases h)
  | some x =>
    constructor
    · rintro h _ ⟨⟩
      exact (hzero i hi x).mp (h _ rfl)
    · rintro h _ ⟨⟩
      exact (hzero i hi x).mpr (h x rfl)

theorem hidden_zero_iff {winsize : ℕ} {xs : List R.Number} :
    Hidden winsize 0 xs ↔
      ∀ i, i + 1 < winsize → ∀ x ∈ xs[i]?, R.div x (i + 1 : ℕ) < R.fl (1 / 1000) := by
  unfold Hidden
  simp only [Nat.zero_add]

theorem later_flushed {winsize : UInt32} {k : ℕ} (hk : k < 2 ^ 32) :
    Later { new winsize with periodsElapsed := 1 + UInt32.ofNat k } (new winsize) k 0 [] where
  winsize := rfl
  fresh := tracks_new winsize
  old hlt :=
    { periods := by
        show (1 + UInt32.ofNat k).toNat = k + 1
        rw [UInt32.toNat_add, UInt32.toNat_ofNat']
        have h1 : (1 : UInt32).toNat = 1 := rfl
        rw [h1]
        omega
      ring := Ring.holds_zeros
      within := Nat.zero_le _ }
  round heq := by
    show 1 + UInt32.ofNat k = 0
    rw [← UInt32.toNat_inj, UInt32.toNat_add, UInt32.toNat_ofNat']
    have h1 : (1 : UInt32).toNat = 1 := rfl
    have h0 : (0 : UInt32).toNat = 0 := rfl
    rw [h1, h0]
    omega
  mean := rfl
  filling _ := rfl

/-- **A flushed window behaves like a new one** when nothing has been inserted, or when the clamp
hides all that differs. -/
theorem flushed_means_iff (winsize : UInt32) (history : List (Call R)) (xs : List R.Number) :
    ((new winsize).after history).flush.means xs = (new winsize).means xs ↔
      ActsAsNew winsize history xs := by
  unfold ActsAsNew
  rw [flush_after_new]
  by_cases hempty : winsize = 0
  · refine iff_of_true ?_ (.inl hempty)
    rw [means_of_empty hempty, means_of_empty hempty]
  · rw [or_iff_right hempty]
    have hcount : UInt32.ofNat (inserts history) = UInt32.ofNat (inserts history % 2 ^ 32) := by
      rw [← UInt32.toNat_inj, UInt32.toNat_ofNat', UInt32.toNat_ofNat', Nat.mod_mod]
    have hlt : inserts history % 2 ^ 32 < 2 ^ 32 := Nat.mod_lt _ (Nat.two_pow_pos 32)
    rw [hcount]
    generalize inserts history % 2 ^ 32 = k at hlt ⊢
    rcases Nat.eq_zero_or_pos k with rfl | hk
    · exact iff_of_true rfl (.inl rfl)
    · have hsize : 0 < winsize.toNat := by
        refine Nat.pos_of_ne_zero fun h0 => hempty ?_
        rw [← UInt32.toNat_inj, h0]
        rfl
      rw [or_iff_right hk.ne', ← hidden_zero_iff]
      exact (later_flushed hlt).means_iff hk hsize (by omega)

/-- One sample, a flush, and a sample of 100: the mean is 50, and a new window says 100. -/
theorem flushed_window_halves :
    ¬ ∀ (winsize : UInt32) (history : List (Call .binary64)) (xs : List Rounding.binary64.Number),
      ((new winsize).after history).flush.means xs = (new winsize).means xs := by
  intro hclaim
  have hnot : ((new 10).after [.insert (Rounding.number .binary64 5)]).flush.means
      [Rounding.number .binary64 100] ≠ (new 10).means [Rounding.number .binary64 100] := by
    decide +kernel
  exact hnot (hclaim 10 [.insert (Rounding.number .binary64 5)] [Rounding.number .binary64 100])

end EcGcm.Window
