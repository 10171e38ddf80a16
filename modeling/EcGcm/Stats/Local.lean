import EcGcm.Stats.Window

/-!
# Per-container statistics

`stats/local/cpu_l.cpp`, `stats/local/mem_l.cpp`. The memory record is one number, the recorded
limit, and lives in `SubContainer` directly (`current_usage` is never read).
-/

set_option autoImplicit false

namespace EcGcm.Local

/-- `__WINDOW_STAT_SIZE_`. -/
def windowStatSize : UInt32 := 10

/-- A `double` converted to `uint64_t`. Out of range the conversion is undefined in the source; it
wraps here. -/
def truncToUInt64 (x : ℚ) : UInt64 := UInt64.ofNat ⌊x⌋.toNat

/-- `ec::local::stats::cpu`. -/
structure Cpu where
  quota : UInt64
  seqNum : UInt64
  nrThrottled : UInt32
  rtWinstats : Window
  thWinstats : Window
  setQuotaFlag : Bool
  deriving DecidableEq

namespace Cpu

/-- `cpu(_quota, _nr_throttled)`. -/
def new (quota : UInt64) (nrThrottled : UInt32) : Cpu where
  quota := quota
  seqNum := 0
  nrThrottled := nrThrottled
  rtWinstats := .new windowStatSize
  thWinstats := .new windowStatSize
  setQuotaFlag := false

/-- The increase of the kernel's cumulative counter, modulo `2^32`. -/
def getThrottleIncrease (c : Cpu) (throttled : UInt32) : UInt32 := throttled - c.nrThrottled

/-- `insert_rt_stats`: the sample goes in, the mean comes out as an integer. -/
def insertRtStats (R : Rounding) (c : Cpu) (element : UInt64) : UInt64 × Cpu :=
  let w := c.rtWinstats.insert R (R.ofNat element.toNat)
  (truncToUInt64 w.mean, { c with rtWinstats := w })

/-- `insert_th_stats`: the *increase* goes in, then the counter is remembered. -/
def insertThStats (R : Rounding) (c : Cpu) (element : UInt32) : ℚ × Cpu :=
  let w := c.thWinstats.insert R (R.ofNat (c.getThrottleIncrease element).toNat)
  (w.mean, { c with thWinstats := w, nrThrottled := element })

def flush (c : Cpu) : Cpu :=
  { c with rtWinstats := c.rtWinstats.flush, thWinstats := c.thWinstats.flush }

end Cpu

end EcGcm.Local
