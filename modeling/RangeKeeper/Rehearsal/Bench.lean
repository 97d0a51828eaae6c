import RangeKeeper.Log.Memory
import RangeKeeper.Rehearsal.Recorder
import RangeKeeper.Replay.Move

/-!
A subscription on the bench: over a log in memory and a recording state machine,
by a clock that only the bench moves. The bench changes a subscription by its
moves alone and only chooses among them: between two actions from outside the
driver moves until it is blocked, then the worker, in turns, until neither can
move. Reads and installs can be scripted: an answer can be given in place of the
log or the recorder, and gates hold them back.
-/

namespace RangeKeeper

inductive ScriptedRead where
  | answer (answer : Except Fault (List LogEntry))
  /-- Close the read gate, wait until it opens, then ask the log. -/
  | hold

/-- The calls that the bench saw since it was last asked, the latest first. -/
structure Journal where
  reads : List (Instant × UInt64 × UInt64) := []
  attempts : List (Instant × LogEntry) := []
  installing : List (Instant × InstallTask) := []

structure Bench where
  now : Instant := 0
  range : RangeId
  subscription : Subscription
  log : MemoryLog
  recorder : Recorder := {}
  readScript : List ScriptedRead := []
  /-- What the script has to say about the read in flight. -/
  scriptedRead : Option ScriptedRead := none
  readGateOpen : Bool := true
  /-- The apply under way was held at the gate when it came in. -/
  applyHeld : Bool := false
  installGateOpen : Bool := true
  installScript : List (Except Fault Snapshot) := []
  subscriptionHeld : Bool := true
  stoppedAt : Option Instant := none
  journal : Journal := {}
  /-- How much the recorder had recorded when the bench was last asked. -/
  appliedBefore : Nat := 0
  installedBefore : Nat := 0

namespace Bench

def newlyApplied (b : Bench) : List UInt64 :=
  (b.recorder.applied.take (b.recorder.applied.length - b.appliedBefore)).reverse

def newlyInstalled (b : Bench) : List Snapshot :=
  (b.recorder.installed.take (b.recorder.installed.length - b.installedBefore)).reverse

def turnPage (b : Bench) : Bench :=
  { b with
    journal := {}
    appliedBefore := b.recorder.applied.length
    installedBefore := b.recorder.installed.length }

def move? (b : Bench) (m : Move) : Option Bench :=
  (b.subscription.move? b.now m).map fun s => { b with subscription := s }

def receive (b : Bench) (signal : Signal) : Bench :=
  { b with subscription := b.subscription.receive signal }

def noteRead (b : Bench) : Bench :=
  match b.subscription.fetch with
  | none => b
  | some fetch =>
    { b with
      readScript := b.readScript.tail
      scriptedRead := b.readScript.head?
      readGateOpen := b.readGateOpen && !b.readScript.head?.any fun r => r matches .hold
      journal := { b.journal with
        reads :=
          (b.now, fetch.start, b.subscription.settings.maxFetchBytes) :: b.journal.reads } }

def askLog (b : Bench) (start : UInt64) : Except Fault (List LogEntry) × Bench :=
  let (answer, log) := b.log.read start b.subscription.settings.maxFetchBytes
  (answer.mapError .log, { b with log := log })

/-- The read in flight gets its answer: what the script says, else what the log
does, unless the gate holds it back. -/
def endRead? (b : Bench) : Option Bench := do
  let fetch ← b.subscription.fetch.filter (·.reading)
  let (answer, b) ← match b.scriptedRead with
    | some (.answer answer) => some (answer, b)
    | some .hold => if b.readGateOpen then some (b.askLog fetch.start) else none
    | none => some (b.askLog fetch.start)
  b.move? (.endRead answer)

def moveDriver? (b : Bench) : Option Bench :=
  b.move? .drive <|> (b.move? .beginRead).map noteRead <|> b.endRead?

/-- The worker moved by itself; an apply that it gave up on the way leaves the
recorder. -/
def work? (b : Bench) : Option Bench :=
  (b.move? .work).map fun after =>
    match b.subscription.work with
    | .applying _ _ => { after with recorder := after.recorder.leave }
    | _ => after

def noteApply (b : Bench) : Bench :=
  match b.subscription.work with
  | .applying entry _ =>
    { b with
      recorder := b.recorder.enterApply
      applyHeld := b.recorder.held == some entry.index
      journal := { b.journal with attempts := (b.now, entry) :: b.journal.attempts } }
  | _ => b

def endApply? (b : Bench) : Option Bench :=
  match b.subscription.work with
  | .applying entry _ =>
    if b.applyHeld && !b.recorder.gateOpen then none
    else
      let (answer, recorder) := b.recorder.answerApply entry.index
      { b with recorder := recorder }.move? (.endApply answer)
  | _ => none

def noteInstall (b : Bench) : Bench :=
  match b.subscription.work with
  | .installing task _ =>
    { b with
      journal := { b.journal with installing := (b.now, task) :: b.journal.installing } }
  | _ => b

/-- What the recorder, or the script in its place, answers to an install. -/
def answerInstall (b : Bench) (snapshot : Snapshot) : Except Fault Snapshot × Recorder :=
  match b.installScript.head? with
  | some (.error cause) => (.error cause, b.recorder)
  | some (.ok scripted) =>
    let (answer, recorder) := b.recorder.install snapshot
    (answer.map fun _ => scripted, recorder)
  | none => b.recorder.install snapshot

def endInstall? (b : Bench) : Option Bench :=
  match b.subscription.work with
  | .installing task _ =>
    if !b.installGateOpen then none
    else
      let (answer, recorder) := b.answerInstall task.snapshot
      { b with
        recorder := recorder
        installScript := b.installScript.tail }.move? (.endInstall answer)
  | _ => none

def moveWorker? (b : Bench) : Option Bench :=
  b.work? <|> (b.move? .beginApply).map noteApply <|> b.endApply? <|>
    (b.move? .beginInstall).map noteInstall <|> b.endInstall?

def untilBlocked (move : Bench → Option Bench) : (fuel : Nat) → Bench → Bench
  | 0, b => b
  | fuel + 1, b =>
    match move b with
    | none => b
    | some b => untilBlocked move fuel b

/-- More moves than any rehearsal that comes to rest makes without the clock
moving. -/
def moveLimit : Nat := 1000000

def settleTurns : (fuel : Nat) → Bench → Bench
  | 0, b => b
  | fuel + 1, b =>
    if b.moveDriver?.isNone && b.moveWorker?.isNone then b
    else settleTurns fuel
      (untilBlocked moveWorker? moveLimit (untilBlocked moveDriver? moveLimit b))

def settle (b : Bench) : Bench := settleTurns moveLimit b

def alarms (b : Bench) : List Instant :=
  (match b.subscription.fetch with
    | some fetch => if fetch.reading then [] else [fetch.due]
    | none => []) ++
  match b.subscription.work with
  | .waiting _ _ due => [due]
  | _ => []

/-- Move the clock to `target`, stopping at every alarm on the way; an alarm
rings at a whole millisecond, so `fuel` need not exceed the milliseconds to
go. -/
def advanceTo (target : Instant) : (fuel : Nat) → Bench → Bench
  | 0, b => { b with now := target }.settle
  | fuel + 1, b =>
    match ((b.alarms.map Instant.wake).filter fun t => b.now < t ∧ t ≤ target).min? with
    | none => { b with now := target }.settle
    | some t => advanceTo target fuel { b with now := t }.settle

def advance (b : Bench) (millis : Nat) : Bench :=
  b.settle.advanceTo (b.now + millis * 1000000) millis

/-- Stop the subscription and say whether this was the call that did. -/
def stop (b : Bench) : Bool × Bench :=
  if b.subscription.stopped then (false, b)
  else (true, { b.receive .stop with stoppedAt := some b.now })

/-- Put a subscription over a log of `entries` generated entries on the bench
and let it settle. -/
def start (settings : ReplaySettings) (range : RangeId) (entries : Nat) (lastFetched : UInt64) :
    Except SettingsFault Bench :=
  (Subscription.start settings lastFetched).map fun s =>
    let log := (MemoryLog.appendMany {} entries).2
    ({ range := range, subscription := s, log := log } : Bench).settle

end Bench

end RangeKeeper
