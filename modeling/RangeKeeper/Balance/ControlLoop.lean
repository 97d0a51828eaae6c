import RangeKeeper.Balance.Command
import RangeKeeper.Duration
import RangeKeeper.Settings

/-!
One control loop: where it is in its round and when its next tick is due. A tick
starts a round; the next tick is due one interval after the last one was due, or
one interval from now when the last one was taken more than five milliseconds
late. A round with a command lasts until the sink has answered. After a refusal
the loop pauses and then waits for a whole interval.
-/

namespace RangeKeeper

inductive LoopPhase where
  | awaitingTick
  | submitting (command : Command)
  | pausing (due : Instant)
  | ended
  deriving DecidableEq

structure ControlLoop where
  phase : LoopPhase := .awaitingTick
  nextTick : Instant
  deriving DecidableEq

namespace ControlLoop

/-- A tick that is taken later than this shifts all ticks after it. -/
def tolerance : Nat := 5000000

/-- When the tick after one taken at `now` is due. -/
def followingTick (l : ControlLoop) (settings : ControlSettings) (now : Instant) : Instant :=
  (if l.nextTick + tolerance < now then now else l.nextTick) + settings.interval.toNanos

def mayTick (l : ControlLoop) (now : Instant) : Bool :=
  decide (l.phase = .awaitingTick) && decide (l.nextTick ≤ now)

/-- Take a tick; the round brings a command for the sink or none. -/
def tick (l : ControlLoop) (settings : ControlSettings) (now : Instant)
    (command : Option Command) : ControlLoop :=
  ⟨command.elim .awaitingTick .submitting, l.followingTick settings now⟩

/-- The sink has answered; after a refusal comes a pause. -/
def onAnswer (l : ControlLoop) (settings : ControlSettings) (now : Instant) :
    Except Fault Unit → ControlLoop
  | .ok () => { l with phase := .awaitingTick }
  | .error _ => { l with phase := .pausing (now + settings.retryDelay.toNanos) }

def mayResume (l : ControlLoop) (now : Instant) : Bool :=
  match l.phase with
  | .pausing due => decide (due ≤ now)
  | _ => false

/-- The pause is over; the next tick is a whole interval away. -/
def resume (_ : ControlLoop) (settings : ControlSettings) (now : Instant) : ControlLoop :=
  ⟨.awaitingTick, now + settings.interval.toNanos⟩

def isSubmitting (l : ControlLoop) : Bool :=
  match l.phase with
  | .submitting _ => true
  | _ => false

/-- The loop waits, for a tick or in a pause, and can be cancelled. -/
def isWaiting (l : ControlLoop) : Bool :=
  match l.phase with
  | .awaitingTick | .pausing _ => true
  | _ => false

end ControlLoop

end RangeKeeper
