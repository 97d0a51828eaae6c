import RangeKeeper.Duration
import RangeKeeper.Fault

/-!
The settings of the parts, with their customary values as defaults, and what
makes them acceptable. A limit is checked by the comparison that refuses it, so
a NaN is refused only where the comparison is written the other way round.
-/

namespace RangeKeeper

structure BackoffSettings where
  initial : Duration := Duration.ofMillis 10
  max : Duration := Duration.ofSeconds 5
  multiplier : Double := Double.ofNat 2
  deriving DecidableEq, Repr

def BackoffSettings.validate (s : BackoffSettings) : Except SettingsFault Unit :=
  if s.multiplier.lt .one || !s.multiplier.isFinite then .error (.multiplier s.multiplier)
  else if s.max.toNanos < s.initial.toNanos then .error .initialAboveMax
  else .ok ()

/-- How a range follows its committed log. Without `applyBackoff` a failed apply
is tried again at once; a `stallThreshold` of zero never reports the range as
stalled. -/
structure ReplaySettings where
  maxFetchBytes : UInt64 := 10485760
  fetchRetryDelay : Duration := .zero
  applyBackoff : Option BackoffSettings := none
  stallThreshold : UInt64 := 100
  deriving DecidableEq, Repr

def ReplaySettings.validate (s : ReplaySettings) : Except SettingsFault Unit :=
  if s.maxFetchBytes = 0 then .error .noFetchBudget
  else match s.applyBackoff with
    | none => .ok ()
    | some backoff => backoff.validate

structure SplitSettings where
  hintType : String := "kv_io_mutation"
  maxAwaiting : UInt64 := 30
  cpuLimit : Double := ⟨0x3FE999999999999A⟩
  densityThreshold : Double := Double.ofNat 30
  latencyThreshold : Double := Double.ofNat 30000
  deriving DecidableEq, Repr

def SplitSettings.validate (s : SplitSettings) : Except SettingsFault Unit :=
  if s.hintType = "" then .error .noHintType
  else if !(Double.zero.le s.cpuLimit && s.cpuLimit.le .one) then .error (.cpuLimit s.cpuLimit)
  else if s.densityThreshold.lt .zero || s.latencyThreshold.le .zero then .error .thresholds
  else .ok ()

structure ControlSettings where
  interval : Duration := Duration.ofSeconds 5
  retryDelay : Duration := Duration.ofSeconds 1
  deriving DecidableEq, Repr

def ControlSettings.validate (s : ControlSettings) : Except SettingsFault Unit :=
  if s.interval.isZero then .error .noInterval else .ok ()

end RangeKeeper
