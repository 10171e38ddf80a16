import Mathlib

/-!
# Rounding to a floating-point format

An operation on floating-point numbers returns the exact result, rounded. A `Rounding` is what
arguments about such operations need to know of the rounding: it is monotone, it is off by a
relative `2 ^ -53` at most, and it leaves a number alone that has a significand of 53 bits.

Two roundings matter. `binary64` is the one of IEEE doubles, to the nearest number and in a tie to
the even significand; the range of exponents is not bounded here, so it is the rounding of the
numbers that neither overflow nor come close to zero. `exact` does not round at all.
-/

set_option autoImplicit false

namespace EcGcm

structure Rounding where
  fl : ℚ → ℚ
  mono : Monotone fl
  near (x : ℚ) : |fl x - x| ≤ |x| / 2 ^ 53
  fix (m e : ℤ) : |m| ≤ 2 ^ 53 → fl (m * 2 ^ e) = m * 2 ^ e
  idem (x : ℚ) : fl (fl x) = fl x

namespace Rounding

/-! ## The operations -/

section Operations

variable (R : Rounding)

def add (x y : ℚ) : ℚ := R.fl (x + y)

def sub (x y : ℚ) : ℚ := R.fl (x - y)

def mul (x y : ℚ) : ℚ := R.fl (x * y)

def div (x y : ℚ) : ℚ := R.fl (x / y)

/-- An integer, converted. -/
def ofNat (n : ℕ) : ℚ := R.fl n

/-- A number of the format. -/
abbrev Number : Type := {x : ℚ // R.fl x = x}

/-- A natural number, converted. -/
def number (n : ℕ) : R.Number := ⟨R.ofNat n, R.idem n⟩

end Operations

/-! ## No rounding -/

/-- Every number is a number of the format. -/
def exact : Rounding where
  fl := id
  mono := monotone_id
  near x := by
    rw [id, sub_self, abs_zero]
    positivity
  fix _ _ _ := rfl
  idem _ := rfl

section Exact

variable (x y : ℚ)

@[simp] theorem exact_fl : exact.fl x = x := rfl

@[simp] theorem exact_add : exact.add x y = x + y := rfl

@[simp] theorem exact_sub : exact.sub x y = x - y := rfl

@[simp] theorem exact_mul : exact.mul x y = x * y := rfl

@[simp] theorem exact_div : exact.div x y = x / y := rfl

end Exact

/-! ## The nearest integer -/

/-- The nearest integer; between two, the even one. -/
def nearestEven (x : ℚ) : ℤ :=
  if Int.fract x < 1 / 2 then ⌊x⌋
  else if 1 / 2 < Int.fract x then ⌊x⌋ + 1
  else if Even ⌊x⌋ then ⌊x⌋ else ⌊x⌋ + 1

section NearestEven

variable {x y : ℚ}

theorem floor_le_nearestEven (x : ℚ) : ⌊x⌋ ≤ nearestEven x := by
  unfold nearestEven
  split_ifs <;> omega

theorem nearestEven_le_floor (x : ℚ) : nearestEven x ≤ ⌊x⌋ + 1 := by
  unfold nearestEven
  split_ifs <;> omega

theorem abs_nearestEven_sub_le (x : ℚ) : |(nearestEven x : ℚ) - x| ≤ 1 / 2 := by
  have hsum := Int.floor_add_fract x
  have hnonneg := Int.fract_nonneg x
  have hlt := Int.fract_lt_one x
  rw [abs_le]
  unfold nearestEven
  split_ifs <;> push_cast <;> constructor <;> linarith

theorem nearestEven_intCast (n : ℤ) : nearestEven n = n := by
  unfold nearestEven
  rw [Int.fract_intCast, if_pos (by norm_num), Int.floor_intCast]

theorem nearestEven_mono : Monotone nearestEven := by
  intro x y h
  rcases (Int.floor_le_floor h).lt_or_eq with hlt | heq
  · calc nearestEven x ≤ ⌊x⌋ + 1 := nearestEven_le_floor x
      _ ≤ ⌊y⌋ := hlt
      _ ≤ nearestEven y := floor_le_nearestEven y
  · -- the same integer below both: the fractions are in order
    have hfract : Int.fract x ≤ Int.fract y := by
      unfold Int.fract
      rw [heq]
      linarith
    unfold nearestEven
    rw [heq]
    split_ifs <;> first | omega | linarith

theorem nearestEven_le {n : ℤ} (h : x ≤ n) : nearestEven x ≤ n :=
  (nearestEven_mono h).trans_eq (nearestEven_intCast n)

theorem le_nearestEven {n : ℤ} (h : (n : ℚ) ≤ x) : n ≤ nearestEven x :=
  (nearestEven_intCast n).symm.trans_le (nearestEven_mono h)

end NearestEven

/-! ## The nearest multiple of a power of two -/

/-- `x`, rounded to a multiple of `2 ^ e`. -/
def onGrid (e : ℤ) (x : ℚ) : ℚ := nearestEven (x / 2 ^ e) * 2 ^ e

section OnGrid

variable {e : ℤ} {x : ℚ}

theorem onGrid_mono (e : ℤ) : Monotone (onGrid e) := by
  intro x y h
  have hpos : (0 : ℚ) < 2 ^ e := by positivity
  refine mul_le_mul_of_nonneg_right ?_ hpos.le
  exact_mod_cast nearestEven_mono (div_le_div_of_nonneg_right h hpos.le)

theorem onGrid_intCast_mul (n e : ℤ) : onGrid e (n * 2 ^ e) = n * 2 ^ e := by
  unfold onGrid
  rw [mul_div_cancel_right₀ _ (by positivity), nearestEven_intCast]

theorem abs_onGrid_sub_le (e : ℤ) (x : ℚ) : |onGrid e x - x| ≤ 2 ^ e / 2 := by
  have hpos : (0 : ℚ) < 2 ^ e := by positivity
  have hscale : onGrid e x - x = (nearestEven (x / 2 ^ e) - x / 2 ^ e) * 2 ^ e := by
    rw [onGrid, sub_mul, div_mul_cancel₀ _ hpos.ne']
  rw [hscale, abs_mul, abs_of_pos hpos]
  calc |(nearestEven (x / 2 ^ e) : ℚ) - x / 2 ^ e| * 2 ^ e ≤ 1 / 2 * 2 ^ e :=
        mul_le_mul_of_nonneg_right (abs_nearestEven_sub_le _) hpos.le
    _ = 2 ^ e / 2 := by ring

end OnGrid

/-! ## Doubles -/

/-- The exponent of the last of 53 bits. -/
def lastBit (x : ℚ) : ℤ := Int.log 2 |x| - 52

section LastBit

variable {x y : ℚ}

theorem two_zpow_le_abs (hx : x ≠ 0) : (2 : ℚ) ^ 52 * 2 ^ lastBit x ≤ |x| := by
  have h := Int.zpow_log_le_self (b := 2) (by norm_num) (abs_pos.mpr hx)
  have hsplit : (2 : ℚ) ^ 52 * 2 ^ lastBit x = 2 ^ Int.log 2 |x| := by
    rw [← zpow_natCast, ← zpow_add₀ (by norm_num)]
    unfold lastBit
    congr 1
    push_cast
    ring
  rw [hsplit]
  exact_mod_cast h

theorem abs_lt_two_zpow (x : ℚ) : |x| < (2 : ℚ) ^ 53 * 2 ^ lastBit x := by
  have h := Int.lt_zpow_succ_log_self (b := 2) (by norm_num) |x|
  have hsplit : (2 : ℚ) ^ 53 * 2 ^ lastBit x = 2 ^ (Int.log 2 |x| + 1) := by
    rw [← zpow_natCast, ← zpow_add₀ (by norm_num)]
    unfold lastBit
    congr 1
    push_cast
    ring
  rw [hsplit]
  exact_mod_cast h

theorem lastBit_le (hx : x ≠ 0) (h : |x| ≤ |y|) : lastBit x ≤ lastBit y :=
  sub_le_sub_right (Int.log_mono_right (abs_pos.mpr hx) h) 52

/-- From one binade to the next: the end of the lower is not beyond the start of the upper. -/
theorem binade_le {e f : ℤ} (h : e < f) : (2 : ℚ) ^ 53 * 2 ^ e ≤ 2 ^ 52 * 2 ^ f := by
  calc (2 : ℚ) ^ 53 * 2 ^ e = 2 ^ 52 * 2 ^ (e + 1) := by
        rw [zpow_add_one₀ (by norm_num)]
        ring
    _ ≤ 2 ^ 52 * 2 ^ f := by
        refine mul_le_mul_of_nonneg_left ?_ (by positivity)
        exact zpow_le_zpow_right₀ (by norm_num) h

end LastBit

/-- The nearest number with a significand of 53 bits. -/
def toBinary64 (x : ℚ) : ℚ := onGrid (lastBit x) x

section ToBinary64

variable {x y : ℚ}

/-- A power of two of either sign is on the grid of both binades it separates. -/
theorem onGrid_binade (n : ℕ) (e : ℤ) :
    onGrid e ((2 : ℚ) ^ n * 2 ^ e) = 2 ^ n * 2 ^ e ∧
      onGrid e (-(2 ^ n * 2 ^ e)) = -((2 : ℚ) ^ n * 2 ^ e) := by
  have hpos := onGrid_intCast_mul (2 ^ n) e
  have hneg := onGrid_intCast_mul (-2 ^ n) e
  push_cast at hpos hneg
  rw [neg_mul] at hneg
  exact ⟨hpos, hneg⟩

theorem toBinary64_mono_of_pos (hx : 0 < x) (h : x ≤ y) : toBinary64 x ≤ toBinary64 y := by
  have hy := hx.trans_le h
  have hbit : lastBit x ≤ lastBit y :=
    lastBit_le hx.ne' (by rwa [abs_of_pos hx, abs_of_pos hy])
  unfold toBinary64
  rcases hbit.lt_or_eq with hlt | heq
  · have hend := abs_lt_two_zpow x
    have hstart := two_zpow_le_abs hy.ne'
    rw [abs_of_pos hx] at hend
    rw [abs_of_pos hy] at hstart
    calc onGrid (lastBit x) x ≤ onGrid (lastBit x) (2 ^ 53 * 2 ^ lastBit x) :=
          onGrid_mono _ hend.le
      _ = 2 ^ 53 * 2 ^ lastBit x := (onGrid_binade 53 _).1
      _ ≤ 2 ^ 52 * 2 ^ lastBit y := binade_le hlt
      _ = onGrid (lastBit y) (2 ^ 52 * 2 ^ lastBit y) := (onGrid_binade 52 _).1.symm
      _ ≤ onGrid (lastBit y) y := onGrid_mono _ hstart
  · rw [heq]
    exact onGrid_mono _ h

theorem toBinary64_mono_of_neg (hy : y < 0) (h : x ≤ y) : toBinary64 x ≤ toBinary64 y := by
  have hx := h.trans_lt hy
  have hbit : lastBit y ≤ lastBit x := by
    refine lastBit_le hy.ne ?_
    rw [abs_of_neg hx, abs_of_neg hy]
    exact neg_le_neg h
  unfold toBinary64
  rcases hbit.lt_or_eq with hlt | heq
  · have hend := abs_lt_two_zpow y
    have hstart := two_zpow_le_abs hx.ne
    rw [abs_of_neg hy] at hend
    rw [abs_of_neg hx] at hstart
    calc onGrid (lastBit x) x ≤ onGrid (lastBit x) (-(2 ^ 52 * 2 ^ lastBit x)) :=
          onGrid_mono _ (by linarith)
      _ = -(2 ^ 52 * 2 ^ lastBit x) := (onGrid_binade 52 _).2
      _ ≤ -(2 ^ 53 * 2 ^ lastBit y) := neg_le_neg (binade_le hlt)
      _ = onGrid (lastBit y) (-(2 ^ 53 * 2 ^ lastBit y)) := (onGrid_binade 53 _).2.symm
      _ ≤ onGrid (lastBit y) y := onGrid_mono _ (by linarith)
  · rw [heq]
    exact onGrid_mono _ h

theorem toBinary64_nonneg (hx : 0 ≤ x) : 0 ≤ toBinary64 x := by
  have hzero := onGrid_intCast_mul 0 (lastBit x)
  rw [Int.cast_zero, zero_mul] at hzero
  exact hzero.symm.trans_le (onGrid_mono _ hx)

theorem toBinary64_nonpos (hx : x ≤ 0) : toBinary64 x ≤ 0 := by
  have hzero := onGrid_intCast_mul 0 (lastBit x)
  rw [Int.cast_zero, zero_mul] at hzero
  exact (onGrid_mono _ hx).trans_eq hzero

theorem toBinary64_mono : Monotone toBinary64 := by
  intro x y h
  rcases lt_or_ge 0 x with hx | hx
  · exact toBinary64_mono_of_pos hx h
  · rcases lt_or_ge y 0 with hy | hy
    · exact toBinary64_mono_of_neg hy h
    · exact (toBinary64_nonpos hx).trans (toBinary64_nonneg hy)

theorem toBinary64_near (x : ℚ) : |toBinary64 x - x| ≤ |x| / 2 ^ 53 := by
  rcases eq_or_ne x 0 with rfl | hx
  · have hzero : toBinary64 0 = 0 :=
      le_antisymm (toBinary64_nonpos le_rfl) (toBinary64_nonneg le_rfl)
    rw [hzero, sub_self, abs_zero, zero_div]
  · calc |toBinary64 x - x| ≤ 2 ^ lastBit x / 2 := abs_onGrid_sub_le _ x
      _ = 2 ^ 52 * 2 ^ lastBit x / 2 ^ 53 := by ring
      _ ≤ |x| / 2 ^ 53 := div_le_div_of_nonneg_right (two_zpow_le_abs hx) (by positivity)

/-- A number with a significand of 53 bits is on its own grid. -/
theorem toBinary64_fix (m e : ℤ) (hm : |m| ≤ 2 ^ 53) :
    toBinary64 (m * 2 ^ e) = m * 2 ^ e := by
  rcases eq_or_ne m 0 with rfl | hm0
  · rw [Int.cast_zero, zero_mul]
    exact le_antisymm (toBinary64_nonpos le_rfl) (toBinary64_nonneg le_rfl)
  · have hpow : (0 : ℚ) < 2 ^ e := by positivity
    have hx : (m : ℚ) * 2 ^ e ≠ 0 := mul_ne_zero (Int.cast_ne_zero.mpr hm0) hpow.ne'
    have habs : |(m : ℚ) * 2 ^ e| = |(m : ℚ)| * 2 ^ e := by rw [abs_mul, abs_of_pos hpow]
    obtain ⟨n, hn⟩ : ∃ n : ℤ, (m : ℚ) * 2 ^ e = n * 2 ^ lastBit (m * 2 ^ e) := by
      have hstart := two_zpow_le_abs hx
      generalize lastBit (m * 2 ^ e) = f at hstart ⊢
      rw [habs] at hstart
      rcases le_or_gt f e with hle | hgt
      · obtain ⟨k, rfl⟩ := Int.exists_add_of_le hle
        refine ⟨m * 2 ^ k, ?_⟩
        rw [zpow_add₀ (by norm_num), zpow_natCast]
        push_cast
        ring
      · -- one bit too few, and so a power of two
        have hmq : |(m : ℚ)| ≤ 2 ^ 53 := by exact_mod_cast hm
        have hup : (2 : ℚ) ^ 53 * 2 ^ e ≤ |(m : ℚ)| * 2 ^ e := (binade_le hgt).trans hstart
        have hfull : |(m : ℚ)| = 2 ^ 53 := le_antisymm hmq (le_of_mul_le_mul_right hup hpow)
        have hf : f = e + 1 := by
          by_contra hne
          have hbinade := binade_le (e := e + 1) (f := f) (by omega)
          rw [zpow_add_one₀ (by norm_num)] at hbinade
          rw [hfull] at hstart
          nlinarith
        subst hf
        rcases abs_eq_abs.mp (hfull.trans (abs_of_pos (by positivity)).symm) with hpos | hneg
        · refine ⟨2 ^ 52, ?_⟩
          rw [hpos, zpow_add_one₀ (by norm_num)]
          push_cast
          ring
        · refine ⟨-2 ^ 52, ?_⟩
          rw [hneg, zpow_add_one₀ (by norm_num)]
          push_cast
          ring
    calc toBinary64 (m * 2 ^ e)
        = onGrid (lastBit (m * 2 ^ e)) (n * 2 ^ lastBit (m * 2 ^ e)) := by
          rw [toBinary64, ← hn]
      _ = n * 2 ^ lastBit (m * 2 ^ e) := onGrid_intCast_mul _ _
      _ = m * 2 ^ e := hn.symm

theorem toBinary64_idem (x : ℚ) : toBinary64 (toBinary64 x) = toBinary64 x := by
  refine toBinary64_fix _ (lastBit x) ?_
  have hpow : (0 : ℚ) < 2 ^ lastBit x := by positivity
  have hlt : |x / 2 ^ lastBit x| < 2 ^ 53 := by
    rw [abs_div, abs_of_pos hpow, div_lt_iff₀ hpow]
    exact abs_lt_two_zpow x
  obtain ⟨hlow, hhigh⟩ := abs_lt.mp hlt
  rw [abs_le]
  constructor
  · refine le_nearestEven ?_
    push_cast
    exact hlow.le
  · refine nearestEven_le ?_
    push_cast
    exact hhigh.le

end ToBinary64

/-- The rounding of IEEE doubles. -/
def binary64 : Rounding where
  fl := toBinary64
  mono := toBinary64_mono
  near := toBinary64_near
  fix := toBinary64_fix
  idem := toBinary64_idem

example : binary64.ofNat 9007199254740993 = 9007199254740992 := by decide +kernel

/-! ## What rounding keeps -/

section Bounds

variable (R : Rounding) {x y a b : ℚ}

/-- A natural number of at most 53 bits is a number of the format. -/
theorem fl_natCast {n : ℕ} (hn : n ≤ 2 ^ 53) : R.fl n = n := by
  have h := R.fix n 0 (by rw [Nat.abs_cast]; exact_mod_cast hn)
  rw [zpow_zero, mul_one, Int.cast_natCast] at h
  exact h

/-- So is a word of 32 bits. -/
theorem ofNat_toUInt32 (w : UInt32) : R.ofNat w.toNat = w.toNat :=
  R.fl_natCast (w.toNat_lt.le.trans (by norm_num))

theorem fl_two_pow (n : ℕ) : R.fl (2 ^ n) = 2 ^ n := by
  have h := R.fix 1 n (by norm_num)
  rw [Int.cast_one, one_mul, zpow_natCast] at h
  exact h

theorem fl_zero : R.fl 0 = 0 := by
  have h := R.fl_natCast (n := 0) (by norm_num)
  rwa [Nat.cast_zero] at h

theorem fl_one : R.fl 1 = 1 := by
  have h := R.fl_natCast (n := 1) (by norm_num)
  rwa [Nat.cast_one] at h

theorem fl_ofNat (n : ℕ) : R.fl (R.ofNat n) = R.ofNat n := R.idem n

theorem ofNat_nonneg (n : ℕ) : 0 ≤ R.ofNat n :=
  R.fl_zero.symm.trans_le (R.mono (Nat.cast_nonneg n))

theorem ofNat_mono {m n : ℕ} (h : m ≤ n) : R.ofNat m ≤ R.ofNat n :=
  R.mono (by exact_mod_cast h)

theorem ofNat_eq {n : ℕ} (hn : n ≤ 2 ^ 53) : R.ofNat n = n := R.fl_natCast hn

theorem fl_nonneg (h : 0 ≤ x) : 0 ≤ R.fl x := R.fl_zero.symm.trans_le (R.mono h)

theorem fl_nonpos (h : x ≤ 0) : R.fl x ≤ 0 := (R.mono h).trans_eq R.fl_zero

/-- A bound that is a number of the format is kept. -/
theorem fl_le (hy : R.fl y = y) (h : x ≤ y) : R.fl x ≤ y := (R.mono h).trans_eq hy

theorem le_fl (hy : R.fl y = y) (h : y ≤ x) : y ≤ R.fl x := hy.symm.trans_le (R.mono h)

theorem fl_le_mul (h : 0 ≤ x) : R.fl x ≤ x * (1 + 1 / 2 ^ 53) := by
  have hnear := (abs_le.mp (R.near x)).2
  rw [abs_of_nonneg h] at hnear
  linarith

theorem mul_le_fl (h : 0 ≤ x) : x * (1 - 1 / 2 ^ 53) ≤ R.fl x := by
  have hnear := (abs_le.mp (R.near x)).1
  rw [abs_of_nonneg h] at hnear
  linarith

theorem fl_pos (h : 0 < x) : 0 < R.fl x :=
  (mul_pos h (by norm_num)).trans_le (R.mul_le_fl h.le)

/-- Up to `2 ^ 64` a number moves by at most `2 ^ 11`. -/
theorem fl_le_add (h0 : 0 ≤ x) (h : x ≤ 2 ^ 64) : R.fl x ≤ x + 2 ^ 11 := by
  have hle := R.fl_le_mul h0
  linarith

theorem le_fl_add (h0 : 0 ≤ x) (h : x ≤ 2 ^ 64) : x ≤ R.fl x + 2 ^ 11 := by
  have hle := R.mul_le_fl h0
  linarith

theorem div_le_one (h : x ≤ y) (hy : 0 ≤ y) : R.div x y ≤ 1 :=
  R.fl_le R.fl_one (div_le_one_of_le₀ h hy)

/-- A part of a number of the format is at most that number. -/
theorem mul_le_right (hx : x ≤ 1) (h0 : 0 ≤ y) (hy : R.fl y = y) : R.mul x y ≤ y :=
  R.fl_le hy (mul_le_of_le_one_left h0 hx)

theorem sub_le (h0 : 0 ≤ y) (hx : R.fl x = x) : R.sub x y ≤ x :=
  R.fl_le hx (sub_le_self x h0)

/-- A quotient times a part of its divisor is at most the dividend, rounded up once. -/
theorem div_mul_le {d f s : ℚ} (hd : 0 ≤ d) (hf : 0 < f) (h0 : 0 ≤ s) (hs : s ≤ f) :
    R.div d f * s ≤ d * (1 + 1 / 2 ^ 53) := by
  have hpart : s / f ≤ 1 := div_le_one_of_le₀ hs hf.le
  calc R.div d f * s ≤ d / f * (1 + 1 / 2 ^ 53) * s :=
        mul_le_mul_of_nonneg_right (R.fl_le_mul (div_nonneg hd hf.le)) h0
    _ = d * (1 + 1 / 2 ^ 53) * (s / f) := by ring
    _ ≤ d * (1 + 1 / 2 ^ 53) := mul_le_of_le_one_right (by positivity) hpart

/-- Quotients by different divisors of 32 bits stay apart. -/
theorem div_lt_div {a b : ℕ} (hx : 0 < x) (ha : 0 < a) (hab : a < b) (hb : b ≤ 2 ^ 52) :
    R.div x b < R.div x a := by
  have haq : (0 : ℚ) < a := by exact_mod_cast ha
  have hbq : (0 : ℚ) < b := by exact_mod_cast ha.trans hab
  have hgap : (a : ℚ) + 1 ≤ b := by exact_mod_cast hab
  have hsmall : (b : ℚ) ≤ 2 ^ 52 := by exact_mod_cast hb
  have hcross : (a : ℚ) * (1 + 1 / 2 ^ 53) < b * (1 - 1 / 2 ^ 53) := by linarith
  calc R.div x b ≤ x / b * (1 + 1 / 2 ^ 53) := R.fl_le_mul (div_pos hx hbq).le
    _ < x / a * (1 - 1 / 2 ^ 53) := by
        rw [div_mul_eq_mul_div, div_mul_eq_mul_div, div_lt_div_iff₀ hbq haq]
        calc x * (1 + 1 / 2 ^ 53) * a = x * (a * (1 + 1 / 2 ^ 53)) := by ring
          _ < x * (b * (1 - 1 / 2 ^ 53)) := mul_lt_mul_of_pos_left hcross hx
          _ = x * (1 - 1 / 2 ^ 53) * b := by ring
    _ ≤ R.div x a := R.mul_le_fl (div_pos hx haq).le

end Bounds

end Rounding

end EcGcm
