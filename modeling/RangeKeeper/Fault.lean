import RangeKeeper.Text.Utf8
import RangeKeeper.Double.Decimal

/-!
Everything that can go wrong, by cause. The wording of each cause stands in one
`message` function and is nowhere else. A cause whose text was chosen by another
party, such as the sink of commands or the state machine behind a log, carries
that text.
-/

namespace RangeKeeper

/-- Why bytes are not the wire form of a value. -/
inductive WireFault where
  /-- The bytes end inside a number or before a tag. -/
  | endOfInput
  /-- A string of bytes claims to be longer than what is left. -/
  | lengthPastInput
  | optionTag (tag : UInt8)
  /-- An alternative is numbered past the `count` there are. -/
  | alternative (index : UInt32) (count : Nat)
  | text (flaw : Utf8.Flaw)
  /-- The seconds of a span, with the nanoseconds carried into them, exceed 64
  bits. -/
  | spanTooLong
  | described (reason : String)
  deriving DecidableEq, Repr

def WireFault.message : WireFault → String
  | .endOfInput => "io error: unexpected end of file"
  | .lengthPastInput => "io error: "
  | .optionTag tag => s!"tag for enum is not valid, found {tag}"
  | .alternative index count =>
    s!"invalid value: integer \x60{index}\x60, expected variant index 0 <= i < {count}"
  | .text flaw => "string is not valid utf8: " ++ flaw.message
  | .spanTooLong => "overflow deserializing Duration"
  | .described reason => reason

inductive SettingsFault where
  | noFetchBudget
  | multiplier (given : Double)
  | initialAboveMax
  | noHintType
  | cpuLimit (given : Double)
  | thresholds
  | noInterval
  | described (reason : String)
  deriving DecidableEq, Repr

def SettingsFault.message : SettingsFault → String
  | .noFetchBudget => "max_fetch_bytes must be positive"
  | .multiplier given => "backoff multiplier must be >= 1.0, got " ++ given.render
  | .initialAboveMax => "backoff initial delay exceeds max delay"
  | .noHintType => "hint_type must not be empty"
  | .cpuLimit given => "cpu_usage_limit must be within [0, 1], got " ++ given.render
  | .thresholds => "load thresholds must be positive"
  | .noInterval => "interval must be positive"
  | .described reason => reason

inductive LogFault where
  /-- The requested index is gone; `first` is the first one still kept. -/
  | compacted (requested first : UInt64)
  | readFailed (reason : String)
  | applyFailed (index : UInt64) (reason : String)
  | installFailed (reason : String)
  deriving DecidableEq, Repr

def LogFault.message : LogFault → String
  | .compacted requested first =>
    s!"log compacted: requested index {requested}, first available {first}"
  | .readFailed reason => "read failed: " ++ reason
  | .applyFailed index reason => s!"failed to apply index {index}: {reason}"
  | .installFailed reason => "snapshot install failed: " ++ reason

inductive CommandFault where
  | rejected (reason : String)
  | unknownStore (store : String)
  deriving DecidableEq, Repr

def CommandFault.message : CommandFault → String
  | .rejected reason => "command rejected: " ++ reason
  | .unknownStore store => "unknown store: " ++ store

inductive Fault where
  | log (cause : LogFault)
  | command (cause : CommandFault)
  | settings (cause : SettingsFault)
  | cancelled
  | stopped
  | wire (cause : WireFault)
  | internal (reason : String)
  deriving DecidableEq, Repr

namespace Fault

def message : Fault → String
  | .log cause => "wal error: " ++ cause.message
  | .command cause => "balance error: " ++ cause.message
  | .settings cause => "config error: " ++ cause.message
  | .cancelled => "operation cancelled"
  | .stopped => "stopped"
  | .wire cause => "serialization error: " ++ cause.message
  | .internal reason => "internal error: " ++ reason

/-- A read below the first index that the log still keeps. Retrying it cannot
help. -/
def isCompaction : Fault → Bool
  | .log (.compacted _ _) => true
  | _ => false

def isCancelled : Fault → Bool
  | .cancelled => true
  | _ => false

end Fault

end RangeKeeper
