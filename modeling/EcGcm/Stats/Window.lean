import EcGcm.Lib.Rounding

/-!
# `Window<T, K>`: a sliding mean

`stats/window/Window.h`, `stats/window/Window_impl.h`, at `K = double`. A double is the rational it
stands for, and every operation rounds: with `Rounding.binary64` as the code does, with
`Rounding.exact` not at all. `trend` and `offset` are written by `flush` and read by nothing that
runs (`update_trend` has no caller), so they are left out.

`flush` clears the samples and the mean, and leaves `periods_elapsed` where it was.
-/

set_option autoImplicit false

namespace EcGcm

structure Window where
  winsize : UInt32
  mean : ℚ
  periodsElapsed : UInt32
  popped : ℚ
  winstat : List ℚ
  deriving DecidableEq

namespace Window

/-- `Window(_winsize)`. -/
def new (winsize : UInt32) : Window where
  winsize := winsize
  mean := 0
  periodsElapsed := 1
  popped := 0
  winstat := List.replicate winsize.toNat 0

/-- The new mean, before the clamp: an average while the window fills up, an increment after. -/
def nextMean (R : Rounding) (w : Window) (element : ℚ) : ℚ :=
  if w.periodsElapsed ≤ w.winsize then
    R.div (R.add (R.mul (R.ofNat (w.periodsElapsed - 1).toNat) w.mean) element)
      (R.ofNat w.periodsElapsed.toNat)
  else
    R.add w.mean (R.div (R.sub element w.popped) (R.ofNat w.winsize.toNat))

/-- `update_stats`. -/
def updateStats (R : Rounding) (w : Window) (element : ℚ) : Window :=
  let mean := w.nextMean R element
  { w with
    mean := if mean < R.fl (1 / 1000) then 0 else mean
    periodsElapsed := w.periodsElapsed + 1 }

/-- `insert`; the value it returns is the `mean` of the result. -/
def insert (R : Rounding) (w : Window) (element : ℚ) : Window :=
  let slot := (w.periodsElapsed % w.winsize).toNat
  updateStats R
    { w with
      popped := w.winstat.getD slot 0
      winstat := w.winstat.set slot element }
    element

/-- `flush`. -/
def flush (w : Window) : Window :=
  { w with
    winstat := w.winstat.map fun _ => 0
    mean := 0
    popped := 0 }

end Window

end EcGcm
