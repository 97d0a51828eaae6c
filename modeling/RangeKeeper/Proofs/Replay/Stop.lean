import Mathlib.Data.List.Induction
import RangeKeeper.Proofs.Replay.Accounting
import RangeKeeper.Proofs.Replay.Requests
import RangeKeeper.Rehearsal.Bench

/-!
The end of a subscription. Each task looks for a stop before it looks at
anything else, so after one there is little left to do: the driver leaves, and
the worker gives up what it holds and ends. No call is begun on the way, and
nobody is told that an install went well or badly; whoever still waits for one
learns that it was cancelled.

A call can also stop the subscription from inside, before it comes back. If it
comes back at once, its answer counts, and the stop is noticed right after it.
-/

namespace RangeKeeper

def Move.isOwn (m : Move) : Bool := m.actor != .outside

/-- How many moves a stopped worker is away from its end. -/
def Work.movesLeft : Work → Nat
  | .ended => 0
  | .idle => 1
  | .waiting _ _ _ | .applying _ _ | .preparing _ _ | .installing _ _ => 2

theorem Work.movesLeft_of_entry {w : Work} {entry : LogEntry} (hw : w.entry? = some entry) :
    w.movesLeft = 2 := by
  cases w with
  | waiting | applying => rfl
  | idle | preparing | installing | ended => cases hw

theorem Work.movesLeft_of_install {w : Work} {held : InstallTask × Nat}
    (hw : w.install? = some held) : w.movesLeft = 2 := by
  cases w with
  | preparing | installing => rfl
  | idle | waiting | applying | ended => cases hw

namespace Subscription

/-- Whether a call that stops the subscription now is the one that does. -/
def stopAnswer (s : Subscription) : Bool := !s.stopped

def movesLeft (s : Subscription) : Nat := s.driving.toNat + s.work.movesLeft

inductive LastStep (s : Subscription) : Move → Subscription → Prop where
  | receive (signal : Signal) : LastStep s (.receive signal) (s.receive signal)
  | leave : s.driving = true → LastStep s .drive s.leave
  | finish : s.work = .idle → LastStep s .work { s with work := .ended }
  | giveUp (entry : LogEntry) : s.work.entry? = some entry → LastStep s .work s.giveUpApply
  | abort (task : InstallTask) (seq : Nat) :
      s.work.install? = some (task, seq) → LastStep s .work (s.abortInstall task seq .cancelled)

variable {s s' : Subscription} {now : Instant} {m : Move} {ticket : Nat}

/-- Each move of its own brings a stopped subscription nearer to its end. -/
theorem LastStep.movesLeft (h : s.LastStep m s') :
    s'.movesLeft + m.isOwn.toNat = s.movesLeft := by
  cases h with
  | receive signal =>
      obtain ⟨_, _, _, _, _, _, _, _, heq⟩ := s.receive_eq signal
      rw [heq]
      rfl
  | leave hdriving =>
      have hleft : s.leave.movesLeft = s.work.movesLeft := by
        obtain ⟨_, heq⟩ := s.leave_eq
        rw [heq]
        exact Nat.zero_add _
      rw [hleft, Subscription.movesLeft, hdriving]
      exact Nat.add_comm _ _
  | finish hidle =>
      rw [Subscription.movesLeft, Subscription.movesLeft, hidle]
      rfl
  | giveUp entry hheld =>
      have hleft : s.work.movesLeft = 2 := Work.movesLeft_of_entry hheld
      rw [Subscription.movesLeft, Subscription.movesLeft, hleft]
      rfl
  | abort task seq hheld =>
      have hleft : s.work.movesLeft = 2 := Work.movesLeft_of_install hheld
      rw [Subscription.movesLeft, Subscription.movesLeft, hleft]
      rfl

end Subscription

/-- A rehearsal stops its subscription by the signal, and answers as the
subscription does. -/
theorem Bench.stop_eq (b : Bench) :
    b.stop.1 = b.subscription.stopAnswer ∧
      b.stop.2.subscription = b.subscription.receive .stop := by
  cases hstopped : b.subscription.stopped with
  | false => simp [Bench.stop, Bench.receive, Subscription.stopAnswer, hstopped]
  | true =>
      have hsame : b.subscription.receive .stop = b.subscription := by
        simp only [Subscription.receive, Subscription.stop, ← hstopped]
      simp [Bench.stop, Subscription.stopAnswer, hstopped, hsame]

open Subscription

namespace Run

variable {settings : ReplaySettings} {first : UInt64} {past earlier later : List Occurrence}
variable {now : Instant} {s : Subscription} {x : Occurrence}

theorem stopped_iff (h : Run Interleaved settings first past now s) :
    s.stopped = true ↔ ∃ y ∈ past, y.move = .receive .stop := by
  induction h with
  | start hstart => simp [start_eq hstart]
  | step _ _ hstep ih =>
      rw [hstep.stopped_iff, ih]
      simp [or_and_right, exists_or]

end Run

end RangeKeeper
