import Mathlib

/-!
# 64-bit words read as signed amounts

A counter kept in an unsigned 64-bit word is often decremented through a signed comparison:
`(int64_t) a - (int64_t) d < 0` decides whether the decrement saturates at zero. The same word
may also carry a *negative* amount, as the wrapped difference of two words. Both uses become one
once an amount is read through its signed value:

    amount d  :=  (int64_t) d

`satSub` and `+` are then plain subtraction and addition of `amount d`, as long as the result
stays where the word can hold it (`satSub_toNat`, `add_toNat`), and the difference of two words
is the amount it looks like (`amount_sub`).

The last section is the same for signed 64-bit counters that take unsigned increments.
-/

set_option autoImplicit false

namespace EcGcm.Word

/-- The signed value of a word, `(int64_t) d`. -/
def amount (d : UInt64) : Int := d.toInt64.toInt

theorem amount_eq_bmod (d : UInt64) : amount d = (d.toNat : Int).bmod (2 ^ 64) := by
  unfold amount
  rw [← Int64.toInt_toBitVec, UInt64.toBitVec_toInt64, BitVec.toInt_eq_toNat_bmod,
    UInt64.toNat_toBitVec]

theorem amount_of_lt {d : UInt64} (h : d.toNat < 2 ^ 63) : amount d = d.toNat := by
  rw [amount_eq_bmod, Int.bmod_def]
  omega

theorem amount_lt (d : UInt64) : amount d < 2 ^ 63 := Int64.toInt_lt _

theorem le_amount (d : UInt64) : -2 ^ 63 ≤ amount d := Int64.le_toInt _

/-- A wrapped difference carries the true difference of its operands. -/
theorem amount_sub {a b : UInt64} (ha : a.toNat < 2 ^ 63) (hb : b.toNat < 2 ^ 63) :
    amount (a - b) = (a.toNat : Int) - b.toNat := by
  rw [amount_eq_bmod, UInt64.toNat_sub, Int.bmod_def]
  omega

/-- Adding a word adds its amount, when the sum is a word. -/
theorem add_toNat {a d : UInt64} (h0 : 0 ≤ (a.toNat : Int) + amount d)
    (h1 : (a.toNat : Int) + amount d < 2 ^ 64) :
    ((a + d).toNat : Int) = a.toNat + amount d := by
  have := a.toNat_lt
  have := d.toNat_lt
  rw [amount_eq_bmod, Int.bmod_def] at *
  rw [UInt64.toNat_add]
  omega

theorem add_toNat_of_lt {a d : UInt64} (h : a.toNat + d.toNat < 2 ^ 64) :
    (a + d).toNat = a.toNat + d.toNat := by
  rw [UInt64.toNat_add, Nat.mod_eq_of_lt h]

theorem ne_zero_of_lt {a b : UInt64} (h : a < b) : b ≠ 0 := by
  rintro rfl
  exact Nat.not_lt_zero _ (UInt64.lt_iff_toNat_lt.mp h)

theorem toNat_min (a b : UInt64) : (min a b).toNat = min a.toNat b.toNat := by
  show (if a ≤ b then a else b).toNat = _
  by_cases h : a ≤ b
  · rw [if_pos h, min_eq_left (UInt64.le_iff_toNat_le.mp h)]
  · rw [if_neg h]
    rw [UInt64.le_iff_toNat_le] at h
    omega

theorem toNat_max (a b : UInt64) : (max a b).toNat = max a.toNat b.toNat := by
  show (if a ≤ b then b else a).toNat = _
  by_cases h : a ≤ b
  · rw [if_pos h, max_eq_right (UInt64.le_iff_toNat_le.mp h)]
  · rw [if_neg h]
    rw [UInt64.le_iff_toNat_le] at h
    omega

/-! ## Saturating decrement -/

/-- `(int64_t) a - (int64_t) d < 0`: the test in front of every decrement. The difference is
taken in `ℤ`, where it cannot overflow. -/
def clips (a d : UInt64) : Bool := amount a - amount d < 0

/-- Decrement that stops at zero. -/
def satSub (a d : UInt64) : UInt64 := if clips a d then 0 else a - d

theorem clips_eq_false {a d : UInt64} (ha : a.toNat < 2 ^ 63) (h : amount d ≤ a.toNat) :
    clips a d = false := by
  have := amount_of_lt ha
  simp only [clips, decide_eq_false_iff_not]
  omega

/-- A decrement that does not clip subtracts the amount. -/
theorem satSub_toNat {a d : UInt64} (ha : a.toNat < 2 ^ 63) (h : amount d ≤ a.toNat) :
    ((satSub a d).toNat : Int) = a.toNat - amount d := by
  have hd := le_amount d
  have := d.toNat_lt
  rw [satSub, clips_eq_false ha h]
  simp only [Bool.false_eq_true, if_false]
  rw [amount_eq_bmod, Int.bmod_def] at *
  rw [UInt64.toNat_sub]
  omega

theorem amount_le_of_le {a d : UInt64} (ha : a.toNat < 2 ^ 63) (h : d.toNat ≤ a.toNat) :
    amount d ≤ a.toNat := by
  rw [amount_of_lt (by omega)]
  omega

/-- The decrement, for every pair of words. A word from `2^63` on looks negative to the test. -/
theorem toNat_satSub (a d : UInt64) :
    (satSub a d).toNat =
      if d.toNat ≤ a.toNat then
        if a.toNat < 2 ^ 63 ∨ 2 ^ 63 ≤ d.toNat then a.toNat - d.toNat else 0
      else if a.toNat < 2 ^ 63 ∧ 2 ^ 63 ≤ d.toNat then a.toNat + 2 ^ 64 - d.toNat else 0 := by
  have ha := a.toNat_lt
  have hd := d.toNat_lt
  have hclips : clips a d = true ↔ amount a < amount d := by
    simp only [clips, decide_eq_true_eq]
    omega
  rw [amount_eq_bmod, amount_eq_bmod, Int.bmod_def, Int.bmod_def] at hclips
  unfold satSub
  by_cases hc : clips a d = true
  · rw [if_pos hc]
    have hlt := hclips.mp hc
    show 0 = _
    split_ifs <;> omega
  · rw [if_neg hc, UInt64.toNat_sub]
    rw [hclips] at hc
    split_ifs <;> omega

/-- A word that can be taken from a counter exactly. -/
def Draws (a d : UInt64) : Prop :=
  d.toNat ≤ a.toNat ∧ (a.toNat < 2 ^ 63 ∨ 2 ^ 63 ≤ d.toNat)

instance (a d : UInt64) : Decidable (Draws a d) := inferInstanceAs (Decidable (_ ∧ _))

theorem draws_iff {a d : UInt64} : Draws a d ↔ (satSub a d).toNat + d.toNat = a.toNat := by
  have ha := a.toNat_lt
  have hd := d.toNat_lt
  rw [toNat_satSub]
  unfold Draws
  split_ifs <;> omega

/-! ## Many decrements -/

def wordSum (ds : List UInt64) : ℕ := (ds.map UInt64.toNat).sum

theorem wordSum_cons (d : UInt64) (ds : List UInt64) :
    wordSum (d :: ds) = d.toNat + wordSum ds := by
  unfold wordSum
  rw [List.map_cons, List.sum_cons]

theorem foldl_satSub_of_lt {a : UInt64} {ds : List UInt64} (ha : a.toNat < 2 ^ 63)
    (hsum : wordSum ds ≤ a.toNat) : (ds.foldl satSub a).toNat + wordSum ds = a.toNat := by
  induction ds generalizing a with
  | nil => rfl
  | cons d ds ih =>
    rw [wordSum_cons] at hsum
    have hd : (satSub a d).toNat + d.toNat = a.toNat := draws_iff.mp ⟨by omega, .inl ha⟩
    have hrest := ih (a := satSub a d) (by omega) (by omega)
    rw [List.foldl_cons, wordSum_cons]
    omega

/-- No decrement takes away more than it is asked to, as long as the counter looks positive. -/
theorem le_foldl_satSub {a : UInt64} {ds : List UInt64} (ha : a.toNat < 2 ^ 63) :
    a.toNat ≤ (ds.foldl satSub a).toNat + wordSum ds := by
  induction ds generalizing a with
  | nil => exact Nat.le_refl _
  | cons d ds ih =>
    rw [List.foldl_cons, wordSum_cons]
    by_cases hd : d.toNat < 2 ^ 63
    · have hsat := toNat_satSub a d
      split_ifs at hsat
      all_goals
        have := ih (a := satSub a d) (by omega)
        omega
    · omega

/-- Decrements that leave an empty counter empty: `2^63` looks negative, so the counter jumps to
`2^63`, and the next decrement sets it back. -/
def Drained (ds : List UInt64) : Prop :=
  (∀ d ∈ ds, d.toNat ≤ 2 ^ 63) ∧ ∀ d ∈ ds.getLast?, d.toNat ≠ 2 ^ 63

instance (ds : List UInt64) : Decidable (Drained ds) :=
  inferInstanceAs (Decidable ((∀ d ∈ ds, _) ∧ ∀ d ∈ ds.getLast?, _))

theorem drained_cons {d : UInt64} {ds : List UInt64} :
    Drained (d :: ds) ↔ d.toNat ≤ 2 ^ 63 ∧ (ds = [] → d.toNat ≠ 2 ^ 63) ∧ Drained ds := by
  unfold Drained
  cases ds with
  | nil => simp
  | cons d' ds =>
    rw [List.forall_mem_cons, List.getLast?_cons_cons]
    simp only [reduceCtorEq, IsEmpty.forall_iff, true_and]
    exact and_assoc

theorem foldl_satSub_of_drained {a : UInt64} {ds : List UInt64} (h : Drained ds)
    (ha : a.toNat = 0 ∨ a.toNat = 2 ^ 63 ∧ ds ≠ []) : (ds.foldl satSub a).toNat = 0 := by
  induction ds generalizing a with
  | nil =>
    rcases ha with hzero | ⟨-, hne⟩
    · exact hzero
    · exact absurd rfl hne
  | cons d ds ih =>
    obtain ⟨hd, hlast, hrest⟩ := drained_cons.mp h
    rw [List.foldl_cons]
    refine ih hrest ?_
    have hsat := toNat_satSub a d
    by_cases hds : ds = []
    · have hne := hlast hds
      left
      rw [hsat]
      split_ifs <;> omega
    · rw [hsat]
      split_ifs <;> first | exact .inl (by omega) | exact .inr ⟨by omega, hds⟩

/-- The other way round: an empty counter that comes out right has been left empty. -/
theorem drained_of_foldl_satSub {a : UInt64} {ds : List UInt64}
    (ha : a.toNat = 0 ∧ (ds.foldl satSub a).toNat + wordSum ds < 2 ^ 64 ∨
      a.toNat = 2 ^ 63 ∧ (ds.foldl satSub a).toNat + wordSum ds < 2 ^ 63) :
    (ds.foldl satSub a).toNat = 0 ∧ Drained ds := by
  induction ds generalizing a with
  | nil =>
    rcases ha with ⟨hzero, -⟩ | ⟨hlarge, hlt⟩
    · exact ⟨hzero, nofun, nofun⟩
    · rw [List.foldl_nil] at hlt
      omega
  | cons d ds ih =>
    rw [List.foldl_cons, wordSum_cons] at *
    have hsat := toNat_satSub a d
    rcases ha with ⟨hzero, hlt⟩ | ⟨hlarge, hlt⟩
    · rcases Nat.lt_trichotomy d.toNat (2 ^ 63) with hd | hd | hd
      · have hnext : (satSub a d).toNat = 0 := by
          rw [hsat]
          split_ifs <;> omega
        obtain ⟨hend, hrest⟩ := ih (.inl ⟨hnext, by omega⟩)
        exact ⟨hend, drained_cons.mpr ⟨hd.le, fun _ => hd.ne, hrest⟩⟩
      · have hnext : (satSub a d).toNat = 2 ^ 63 := by
          rw [hsat]
          split_ifs <;> omega
        obtain ⟨hend, hrest⟩ := ih (.inr ⟨hnext, by omega⟩)
        refine ⟨hend, drained_cons.mpr ⟨hd.le, ?_, hrest⟩⟩
        rintro rfl
        rw [List.foldl_nil] at hend
        omega
      · have hnext : (satSub a d).toNat = 2 ^ 64 - d.toNat := by
          rw [hsat]
          split_ifs <;> omega
        have hle : (satSub a d).toNat ≤ (ds.foldl satSub (satSub a d)).toNat + wordSum ds :=
          le_foldl_satSub (by omega)
        omega
    · have hnext : (satSub a d).toNat = 0 := by
        rw [hsat]
        split_ifs <;> omega
      obtain ⟨hend, hrest⟩ := ih (.inl ⟨hnext, by omega⟩)
      exact ⟨hend, drained_cons.mpr ⟨by omega, fun _ => by omega, hrest⟩⟩

/-- Decrements that add up to no more than the counter holds and are all taken from it exactly. -/
structure DrawsAll (a : UInt64) (ds : List UInt64) : Prop where
  le : wordSum ds ≤ a.toNat
  sign : a.toNat < 2 ^ 63 ∨ (∀ d ∈ ds.head?, 2 ^ 63 ≤ d.toNat) ∨ wordSum ds = a.toNat ∧ Drained ds

instance (a : UInt64) (ds : List UInt64) : Decidable (DrawsAll a ds) :=
  decidable_of_iff (wordSum ds ≤ a.toNat ∧ (a.toNat < 2 ^ 63 ∨ (∀ d ∈ ds.head?, 2 ^ 63 ≤ d.toNat) ∨
    wordSum ds = a.toNat ∧ Drained ds)) ⟨fun h => ⟨h.1, h.2⟩, fun h => ⟨h.le, h.sign⟩⟩

theorem drawsAll_iff {a : UInt64} {ds : List UInt64} :
    DrawsAll a ds ↔ (ds.foldl satSub a).toNat + wordSum ds = a.toNat := by
  by_cases ha : a.toNat < 2 ^ 63
  · exact ⟨fun h => foldl_satSub_of_lt ha h.le, fun h => ⟨by omega, .inl ha⟩⟩
  · have halt := a.toNat_lt
    cases ds with
    | nil => exact ⟨fun _ => rfl, fun _ => ⟨Nat.zero_le _, .inr (.inl nofun)⟩⟩
    | cons d ds =>
      have hsat := toNat_satSub a d
      by_cases hd : 2 ^ 63 ≤ d.toNat
      · -- after the first decrement the counter looks positive
        have hsign : ∀ d' ∈ (d :: ds).head?, 2 ^ 63 ≤ d'.toNat := by
          rintro d' ⟨⟩
          exact hd
        refine ⟨fun h => ?_, fun h => ⟨by omega, .inr (.inl hsign)⟩⟩
        have hle := h.le
        rw [List.foldl_cons, wordSum_cons] at *
        have hnext : (satSub a d).toNat = a.toNat - d.toNat := by
          rw [hsat]
          split_ifs <;> omega
        have hrest : (ds.foldl satSub (satSub a d)).toNat + wordSum ds = (satSub a d).toNat :=
          foldl_satSub_of_lt (by omega) (by omega)
        omega
      · -- the first decrement empties the counter
        have hnext : (satSub a d).toNat = 0 := by
          rw [hsat]
          split_ifs <;> omega
        constructor
        · rintro ⟨hle, hlt | hhead | ⟨hsum, hdrained⟩⟩
          · exact absurd hlt ha
          · exact absurd (hhead d rfl) hd
          · rw [List.foldl_cons,
              foldl_satSub_of_drained (drained_cons.mp hdrained).2.2 (.inl hnext)]
            omega
        · intro h
          rw [List.foldl_cons, wordSum_cons] at h
          obtain ⟨hend, hrest⟩ : (ds.foldl satSub (satSub a d)).toNat = 0 ∧ Drained ds :=
            drained_of_foldl_satSub (.inl ⟨hnext, by omega⟩)
          have hsum : wordSum (d :: ds) = a.toNat := by
            rw [wordSum_cons]
            omega
          have hdrained : Drained (d :: ds) :=
            drained_cons.mpr ⟨by omega, fun _ => by omega, hrest⟩
          exact ⟨hsum.le, .inr (.inr ⟨hsum, hdrained⟩)⟩

/-! ## Signed counters

A counter kept in a signed word that takes unsigned increments and decrements: the sum is formed
on the unsigned side and read back as signed. -/

theorem toInt_toInt64_of_lt {d : UInt64} (h : d.toNat < 2 ^ 63) : d.toInt64.toInt = d.toNat :=
  amount_of_lt h

theorem pos_iff_toInt_pos {a : Int64} : a > 0 ↔ 0 < a.toInt := by
  rw [gt_iff_lt, Int64.lt_iff_toInt_lt, Int64.toInt_zero]

theorem neg_iff_toInt_neg {a : Int64} : a < 0 ↔ a.toInt < 0 := by
  rw [Int64.lt_iff_toInt_lt, Int64.toInt_zero]

/-- Adding a word to a signed counter adds its unsigned value, when the sum fits. -/
theorem toInt_add_toInt64 {a : Int64} {d : UInt64} (h : a.toInt + d.toNat < 2 ^ 63) :
    (a + d.toInt64).toInt = a.toInt + d.toNat := by
  have := a.le_toInt
  have := d.toNat_lt
  have hd := amount_eq_bmod d
  unfold amount at hd
  rw [Int64.toInt_add, hd, Int.bmod_def, Int.bmod_def]
  omega

theorem toInt_add_word {a : Int64} {d : UInt64} (h : a.toInt + d.toNat < 2 ^ 63) :
    (a.toUInt64 + d).toInt64.toInt = a.toInt + d.toNat := by
  rw [UInt64.toInt64_add, Int64.toInt64_toUInt64, toInt_add_toInt64 h]

/-- A sum that does not fit wraps downwards. -/
theorem toInt_add_word_le {a : Int64} {d : UInt64} :
    (a.toUInt64 + d).toInt64.toInt ≤ a.toInt + d.toNat := by
  by_cases h : a.toInt + d.toNat < 2 ^ 63
  · exact (toInt_add_word h).le
  · have := (a.toUInt64 + d).toInt64.toInt_lt
    omega

theorem toInt_sub_word {a : Int64} {d : UInt64} (h : (d.toNat : Int) ≤ a.toInt) :
    (a.toUInt64 - d).toInt64.toInt = a.toInt - d.toNat := by
  have := a.toInt_lt
  rw [UInt64.toInt64_sub, Int64.toInt64_toUInt64, Int64.toInt_sub,
    toInt_toInt64_of_lt (by omega), Int.bmod_def]
  omega

/-- The unsigned reading of a signed counter. -/
theorem toNat_toUInt64 (a : Int64) : (a.toUInt64.toNat : Int) = a.toInt % 2 ^ 64 := by
  have hsigned : a.toUInt64.toInt64.toInt = a.toInt := by rw [Int64.toInt64_toUInt64]
  have hamount := amount_eq_bmod a.toUInt64
  unfold amount at hamount
  have := a.toUInt64.toNat_lt
  rw [hsigned, Int.bmod_def] at hamount
  omega

theorem toUInt64_toNat {a : Int64} (h : 0 ≤ a.toInt) : (a.toUInt64.toNat : Int) = a.toInt := by
  have hlt := a.toInt_lt
  rw [toNat_toUInt64, Int.emod_eq_of_lt h (by omega)]

end EcGcm.Word
