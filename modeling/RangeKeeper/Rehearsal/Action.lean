import RangeKeeper.Rehearsal.Bench

/-!
The actions that can be taken from outside on a subscription on the bench, and
what each one answers.
-/

namespace RangeKeeper

inductive BenchAction where
  | append (data : Bytes)
  | appendMany (count : Nat)
  | commit (index : UInt64)
  | commitAll
  | compact (index : UInt64)
  | failReads (count : Nat)
  | lagReads (count : Nat)
  | fetchStarts
  | scriptReads (reads : List ScriptedRead)
  | releaseRead
  | failApply (index : UInt64) (times : Nat)
  | hold (index : UInt64)
  | release
  | failInstalls (reason : String)
  | holdInstalls
  | releaseInstalls
  | answerInstall (answer : Except Fault Snapshot)
  | install (snapshot : Snapshot) (leader : String)
  | dropInstall (ticket : Nat)
  | closeCommits
  | closeSnapshots
  | stop
  /-- Stop through a handle, which outlives the subscription itself. -/
  | stopByHandle
  | shutdown
  | drop
  | isStalled (threshold : UInt64)
  | advance (millis : Nat)

inductive BenchAnswer where
  | nothing
  | index (index : UInt64)
  | indexes (indexes : List UInt64)
  | flag (value : Bool)

namespace Bench

def commit (b : Bench) (index : UInt64) : Bench :=
  { b with log := b.log.commit index }.receive (.commit index)

def perform (b : Bench) : BenchAction → BenchAnswer × Bench
  | .append data =>
    let (index, log) := b.log.append data
    (.index index, { b with log := log })
  | .appendMany count =>
    let (index, log) := b.log.appendMany count
    (.index index, { b with log := log })
  | .commit index => (.nothing, b.commit index)
  | .commitAll => (.index b.log.lastIndex, b.commit b.log.lastIndex)
  | .compact index => (.nothing, { b with log := b.log.compact index })
  | .failReads count => (.nothing, { b with log := { b.log with failingReads := count } })
  | .lagReads count => (.nothing, { b with log := { b.log with laggingReads := count } })
  | .fetchStarts => (.indexes b.log.fetchStarts, b)
  | .scriptReads reads => (.nothing, { b with readScript := b.readScript ++ reads })
  | .releaseRead => (.nothing, { b with readGateOpen := true })
  | .failApply index times => (.nothing, { b with recorder := b.recorder.failApply index times })
  | .hold index => (.nothing, { b with recorder := b.recorder.hold index })
  | .release => (.nothing, { b with recorder := b.recorder.release })
  | .failInstalls reason =>
    (.nothing, { b with recorder := { b.recorder with installFailure := some reason } })
  | .holdInstalls => (.nothing, { b with installGateOpen := false })
  | .releaseInstalls => (.nothing, { b with installGateOpen := true })
  | .answerInstall answer => (.nothing, { b with installScript := b.installScript ++ [answer] })
  | .install snapshot leader => (.nothing, b.receive (.install snapshot leader))
  | .dropInstall ticket => (.nothing, b.receive (.abandon ticket))
  | .closeCommits => (.nothing, b.receive .endCommits)
  | .closeSnapshots => (.nothing, b.receive .endSnapshots)
  | .stop =>
    if b.subscriptionHeld then
      let (stopped, b) := b.stop
      (.flag stopped, b)
    else (.nothing, b)
  | .stopByHandle =>
    let (stopped, b) := b.stop
    (.flag stopped, b)
  | .shutdown => (.nothing, if b.subscriptionHeld then b.stop.2.settle else b)
  | .drop => (.nothing, { b.stop.2 with subscriptionHeld := false })
  | .isStalled threshold =>
    (if b.subscriptionHeld then .flag (b.subscription.metrics.isStalled threshold) else .nothing, b)
  | .advance millis => (.nothing, b.advance millis)

/-- Take actions one after the other, then let the subscription settle. -/
def performAll (b : Bench) (actions : List BenchAction) : List BenchAnswer × Bench :=
  let (answers, b) := actions.foldl
    (fun (answers, b) action =>
      let (answer, b) := b.perform action
      (answers ++ [answer], b))
    ([], b.turnPage)
  (answers, b.settle)

end Bench

end RangeKeeper
