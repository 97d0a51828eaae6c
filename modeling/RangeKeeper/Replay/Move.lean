import RangeKeeper.Replay.Driver
import RangeKeeper.Replay.Worker

/-!
Every way in which a subscription changes, one labelled move at a time. Signals
come from outside and are always taken. The other moves are the driver's and the
worker's: what each does by itself, the calls that they make of the log and of
the state machine, and the answers that they get. Which answer a call gets is
left open, so what holds after all moves holds of every log and every state
machine. Neither of the two begins a call or hears an answer while there is
something that it can do by itself; this is how a stop and a snapshot go before
everything else.
-/

namespace RangeKeeper

inductive Signal where
  | commit (index : UInt64)
  | install (snapshot : Snapshot) (leader : String)
  /-- The requester of an install goes away. -/
  | abandon (ticket : Nat)
  | endCommits
  | endSnapshots
  | stop
  deriving DecidableEq, Repr

inductive Move where
  | receive (signal : Signal)
  /-- The driver does the next thing that it can do by itself. -/
  | drive
  | beginRead
  | endRead (answer : Except Fault (List LogEntry))
  /-- The worker does the next thing that it can do by itself. -/
  | work
  | beginApply
  | endApply (answer : Except Fault Unit)
  | beginInstall
  | endInstall (answer : Except Fault Snapshot)

namespace Subscription

def receive (s : Subscription) : Signal → Subscription
  | .commit index => s.publish index
  | .install snapshot leader => s.request snapshot leader
  | .abandon ticket => s.abandon ticket
  | .endCommits => { s with commitsOpen := false }
  | .endSnapshots => { s with snapshotsOpen := false }
  | .stop => s.stop

/-- The subscription after a move, if the move is possible at this moment. -/
def move? (s : Subscription) (now : Instant) : Move → Option Subscription
  | .receive signal => some (s.receive signal)
  | .drive => s.driverStep? now
  | .beginRead => if (s.driverStep? now).isSome then none else s.beginRead? now
  | .endRead answer => if (s.driverStep? now).isSome then none else s.endRead? answer
  | .work => s.workerStep? now
  | .beginApply => if (s.workerStep? now).isSome then none else s.beginApply? now
  | .endApply answer => if (s.workerStep? now).isSome then none else s.endApply? now answer
  | .beginInstall => if (s.workerStep? now).isSome then none else s.beginInstall?
  | .endInstall answer => if (s.workerStep? now).isSome then none else s.endInstall? answer

end Subscription

end RangeKeeper
