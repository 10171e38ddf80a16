import EcGcm.Manager.CpuReport

/-!
# What a transfer does to the counters

The accessors of `Global.Cpu` wrap and saturate. A transfer is **exact** when neither happens,
and then it moves the allocated total, the pool and the overrun by three integers
(`Cpu.Moved`). Every balance argument about CPU is a statement about those three integers:
the books `alloc + pool = total + overrun` survive a move whenever the first two add up to the
third.

The amount of a transfer is read as a *signed* word throughout. That is what the wake-up branch
needs: there `take` is handed the wrapped difference of a smaller new quota and a larger old
one, and acts as the opposite transfer.
-/

set_option autoImplicit false

namespace EcGcm

open Word

/-- `c'` is `c` after the three counters have moved, with no decrement clipped on the way. -/
structure Global.Cpu.Moved (c c' : Global.Cpu) (dAlloc dPool dOverrun : Int) : Prop where
  allocRt : (c'.allocRt.toNat : Int) = c.allocRt.toNat + dAlloc
  unallocatedRt : (c'.unallocatedRt.toNat : Int) = c.unallocatedRt.toNat + dPool
  overrun : (c'.overrun.toNat : Int) = c.overrun.toNat + dOverrun
  totalCpu : c'.totalCpu = c.totalCpu
  sliceSize : c'.sliceSize = c.sliceSize
  clipped : c'.clipped = c.clipped

namespace Transfer

variable {c : Global.Cpu} {d : UInt64}

theorem take_moved (hU : c.unallocatedRt.toNat < 2 ^ 63) (hd : amount d ≤ c.unallocatedRt.toNat)
    (h0 : 0 ≤ (c.allocRt.toNat : Int) + amount d)
    (h1 : (c.allocRt.toNat : Int) + amount d < 2 ^ 64) :
    c.Moved ((take d).apply c) (amount d) (-amount d) 0 where
  allocRt := add_toNat h0 h1
  unallocatedRt := satSub_toNat hU hd
  overrun := (add_zero _).symm
  totalCpu := rfl
  sliceSize := rfl
  clipped := by
    show c.clipped + (clips c.unallocatedRt d).toNat = c.clipped
    rw [clips_eq_false hU hd]
    rfl

theorem give_moved (hA : c.allocRt.toNat < 2 ^ 63) (hd : amount d ≤ c.allocRt.toNat)
    (h0 : 0 ≤ (c.unallocatedRt.toNat : Int) + amount d)
    (h1 : (c.unallocatedRt.toNat : Int) + amount d < 2 ^ 64) :
    c.Moved ((give d).apply c) (-amount d) (amount d) 0 where
  allocRt := satSub_toNat hA hd
  unallocatedRt := add_toNat h0 h1
  overrun := (add_zero _).symm
  totalCpu := rfl
  sliceSize := rfl
  clipped := by
    show c.clipped + (clips c.allocRt d).toNat = c.clipped
    rw [clips_eq_false hA hd]
    rfl

theorem borrow_moved (hO : c.overrun.toNat + d.toNat < 2 ^ 64)
    (hA : c.allocRt.toNat + d.toNat < 2 ^ 64) :
    c.Moved ((borrow d).apply c) d.toNat 0 d.toNat where
  allocRt := by
    show ((c.allocRt + d).toNat : Int) = _
    rw [add_toNat_of_lt hA]
    exact Int.natCast_add _ _
  unallocatedRt := (add_zero _).symm
  overrun := by
    show ((c.overrun + d).toNat : Int) = _
    rw [add_toNat_of_lt hO]
    exact Int.natCast_add _ _
  totalCpu := rfl
  sliceSize := rfl
  clipped := rfl

theorem shed_moved (hO : c.overrun.toNat < 2 ^ 63) (hA : c.allocRt.toNat < 2 ^ 63)
    (hdO : d.toNat ≤ c.overrun.toNat) (hdA : d.toNat ≤ c.allocRt.toNat) :
    c.Moved ((shed d).apply c) (-d.toNat) 0 (-d.toNat) where
  allocRt := by
    have := satSub_toNat hA (amount_le_of_le hA hdA)
    rw [amount_of_lt (by omega)] at this
    exact this
  unallocatedRt := (add_zero _).symm
  overrun := by
    have := satSub_toNat hO (amount_le_of_le hO hdO)
    rw [amount_of_lt (by omega)] at this
    exact this
  totalCpu := rfl
  sliceSize := rfl
  clipped := by
    show c.clipped + (clips c.overrun d).toNat + (clips c.allocRt d).toNat = c.clipped
    rw [clips_eq_false hO (amount_le_of_le hO hdO), clips_eq_false hA (amount_le_of_le hA hdA)]
    rfl

end Transfer

/-- What is less than one above a whole number goes in the cast. -/
theorem truncToUInt64_le_of_lt {x : ℚ} {n : ℕ} (h : x < n + 1) :
    (Local.truncToUInt64 x).toNat ≤ n := by
  have hx : ⌊x⌋.toNat ≤ n := by
    rw [Int.toNat_le]
    exact Int.floor_le_iff.mpr (by exact_mod_cast h)
  calc (Local.truncToUInt64 x).toNat
      = ⌊x⌋.toNat % 2 ^ 64 := UInt64.toNat_ofNat'
    _ ≤ ⌊x⌋.toNat := Nat.mod_le _ _
    _ ≤ n := hx

/-- `truncToUInt64` never rounds up. -/
theorem truncToUInt64_le {x : ℚ} {n : ℕ} (h : x ≤ n) : (Local.truncToUInt64 x).toNat ≤ n :=
  truncToUInt64_le_of_lt (h.trans_lt (lt_add_one _))

/-- A number that fits is rounded down to at least any integer below it. -/
theorem le_truncToUInt64 {x : ℚ} {n : ℕ} (h : n ≤ x) (hlt : x < 2 ^ 64) :
    n ≤ (Local.truncToUInt64 x).toNat := by
  have hfloor : n ≤ ⌊x⌋.toNat := by
    rw [Int.le_toNat (Int.floor_nonneg.mpr (le_trans (Nat.cast_nonneg n) h))]
    exact Int.le_floor.mpr (by exact_mod_cast h)
  have hfits : ⌊x⌋.toNat < 2 ^ 64 := by
    rw [Int.toNat_lt (Int.floor_nonneg.mpr (le_trans (Nat.cast_nonneg n) h))]
    exact Int.floor_lt.mpr (by exact_mod_cast hlt)
  calc n ≤ ⌊x⌋.toNat := hfloor
    _ = ⌊x⌋.toNat % 2 ^ 64 := (Nat.mod_eq_of_lt hfits).symm
    _ = (Local.truncToUInt64 x).toNat := UInt64.toNat_ofNat'.symm

theorem le_truncToUInt64_iff {x : ℚ} {n : ℕ} (hn : 0 < n) (hlt : x < 2 ^ 64) :
    n ≤ (Local.truncToUInt64 x).toNat ↔ n ≤ x := by
  refine ⟨fun h => ?_, fun h => le_truncToUInt64 h hlt⟩
  by_contra hx
  have hpred : ((n - 1 : ℕ) : ℚ) + 1 = n := by
    rw [Nat.cast_sub hn, Nat.cast_one, sub_add_cancel]
  have hle := truncToUInt64_le_of_lt (n := n - 1) (hpred.symm ▸ not_le.mp hx)
  omega

end EcGcm
