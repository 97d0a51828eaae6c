import RangeKeeper.Fault
import RangeKeeper.Log.Entry

/-!
A stand-in for a state machine. It records what it is given, fails applies and
installs on demand, and holds the apply of a chosen entry at a gate. It also
watches how many calls are inside it at once.
-/

namespace RangeKeeper

structure Recorder where
  /-- The indexes applied, the latest first. -/
  applied : List UInt64 := []
  attempts : Nat := 0
  installed : List Snapshot := []
  /-- How often the applies of an index are still to fail. -/
  failures : List (UInt64 × Nat) := []
  installFailure : Option String := none
  /-- The index whose apply waits at the gate. -/
  held : Option UInt64 := none
  gateOpen : Bool := true
  inFlight : Nat := 0
  maxInFlight : Nat := 0
  deriving Repr, Inhabited

namespace Recorder

def failApply (r : Recorder) (index : UInt64) (times : Nat) : Recorder :=
  { r with failures := (index, times) :: r.failures.filter fun f => f.1 != index }

def hold (r : Recorder) (index : UInt64) : Recorder :=
  { r with held := some index, gateOpen := false }

def release (r : Recorder) : Recorder := { r with gateOpen := true }

def enter (r : Recorder) : Recorder :=
  { r with inFlight := r.inFlight + 1, maxInFlight := max r.maxInFlight (r.inFlight + 1) }

def leave (r : Recorder) : Recorder := { r with inFlight := r.inFlight - 1 }

def enterApply (r : Recorder) : Recorder := { r.enter with attempts := r.attempts + 1 }

/-- An apply that was let through goes out with its answer. -/
def answerApply (r : Recorder) (index : UInt64) : Except Fault Unit × Recorder :=
  let r := r.leave
  match r.failures.find? fun f => f.1 == index with
  | some (_, times + 1) =>
    (.error (.log (.applyFailed index "injected apply failure")), r.failApply index times)
  | _ => (.ok (), { r with applied := index :: r.applied })

/-- An install comes in and goes out with its answer at once. -/
def install (r : Recorder) (snapshot : Snapshot) : Except Fault Snapshot × Recorder :=
  let r := r.enter.leave
  match r.installFailure with
  | some reason => (.error (.log (.installFailed reason)), r)
  | none => (.ok snapshot, { r with installed := snapshot :: r.installed })

end Recorder

end RangeKeeper
