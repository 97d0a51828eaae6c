import RangeKeeper.Balance.ControlPlane
import RangeKeeper.Wire.Record

/-!
A control plane on the bench, with a sink whose answers are scripted: each takes
its time and then accepts or refuses. The sink logs every command when it comes
in. Commands can be submitted by hand beside the loops; all take their answers
from the one script. The bench changes the control plane by its moves alone and
only chooses among them: loops that are due at the same moment go in the order
in which they began to wait, each until it waits again, and a cancelled loop
ends even if it could take a tick.
-/

namespace RangeKeeper

structure SinkAnswer where
  delay : Nat := 0
  fault : Option Fault := none

structure PendingAnswer where
  loop : Nat
  due : Instant
  answer : Except Fault Unit

structure SinkBench where
  now : Instant := 0
  plane : ControlPlane
  /-- The loops, the one that waits longest first. -/
  turns : List Nat := []
  script : List SinkAnswer := []
  underway : List PendingAnswer := []
  /-- The commands that came in since the bench was last asked. -/
  submitted : List (Instant × Command) := []

namespace SinkBench

def make? (b : SinkBench) (m : ControlMove) : Option SinkBench :=
  (b.plane.move? b.now m).map fun p => { b with plane := p }

def make (b : SinkBench) (m : ControlMove) : SinkBench := (b.make? m).getD b

def run (b : SinkBench) : SinkBench :=
  { b.make .start with turns := b.turns ++ [b.plane.loops.length] }

/-- A command comes in: it is logged, and the script says what becomes of it and
when. -/
def accept (b : SinkBench) (command : Command) : (Instant × Except Fault Unit) × SinkBench :=
  let answer := b.script.head?.getD {}
  ((b.now + answer.delay * 1000000, answer.fault.elim (.ok ()) .error),
    { b with script := b.script.tail, submitted := b.submitted ++ [(b.now, command)] })

/-- After a tick of loop `i`, the command that came of it goes to the sink. -/
def handOver (b : SinkBench) (i : Nat) : SinkBench :=
  match b.plane.loops[i]?.map ControlLoop.phase with
  | some (.submitting command) =>
    let ((due, answer), b) := b.accept command
    { b with underway := b.underway ++ [⟨i, due, answer⟩] }
  | _ => b

def answer? (b : SinkBench) (i : Nat) : Option SinkBench := do
  let pending ← b.underway.find? fun u => u.loop == i && decide (u.due ≤ b.now)
  { b with underway := b.underway.filter fun u => u.loop != i }.make? (.answer i pending.answer)

def move? (b : SinkBench) (i : Nat) : Option SinkBench :=
  b.make? (.finish i) <|> (b.make? (.tick i)).map (·.handOver i) <|> b.make? (.resume i) <|>
    b.answer? i

def untilBlocked (i : Nat) : (fuel : Nat) → SinkBench → SinkBench
  | 0, b => b
  | fuel + 1, b =>
    match b.move? i with
    | none => b
    | some b => untilBlocked i fuel b

/-- More moves than any rehearsal that comes to rest makes without the clock
moving. -/
def moveLimit : Nat := 1000000

def settleTurns : (fuel : Nat) → SinkBench → SinkBench
  | 0, b => b
  | fuel + 1, b =>
    match b.turns.find? fun i => (b.move? i).isSome with
    | none => b
    | some i =>
      settleTurns fuel { untilBlocked i moveLimit b with turns := b.turns.erase i ++ [i] }

def settle (b : SinkBench) : SinkBench := settleTurns moveLimit b

def alarms (b : SinkBench) : List Instant :=
  (b.plane.loops.flatMap fun l =>
    match l.phase with
    | .awaitingTick => [l.nextTick]
    | .pausing due => [due]
    | _ => []) ++ b.underway.map PendingAnswer.due

def advanceTo (target : Instant) : (fuel : Nat) → SinkBench → SinkBench
  | 0, b => { b with now := target }.settle
  | fuel + 1, b =>
    match ((b.alarms.map Instant.wake).filter fun t => b.now < t ∧ t ≤ target).min? with
    | none => { b with now := target }.settle
    | some t => advanceTo target fuel { b with now := t }.settle

def advance (b : SinkBench) (millis : Nat) : SinkBench :=
  b.settle.advanceTo (b.now + millis * 1000000) millis

def evaluate (b : SinkBench) : Option Command × SinkBench :=
  (b.plane.controller.evaluate.1, b.make .evaluate)

/-- A round by hand: its command goes to the sink, and the clock moves on until
the answer is there. -/
def submit (b : SinkBench) : Except Fault (Option Command) × SinkBench :=
  let round := b.make .submit
  match b.plane.controller.evaluate.1 with
  | none => (.ok none, round)
  | some command =>
    let ((due, answer), b) := round.accept command
    let b := if due ≤ b.now then b else b.advance ((due - b.now) / 1000000)
    (answer.map fun _ => some command, b.make (.answerByHand command answer))

/-- Whether the loop started last has ended, once one was started. -/
def finished? (b : SinkBench) : Option Bool :=
  b.plane.loops.getLast?.map fun l => decide (l.phase = .ended)

def readsBack (command : Command) : Bool :=
  match Command.ofBytes? command.toBytes with
  | .ok decoded => decide (decoded = command)
  | .error _ => false

end SinkBench

end RangeKeeper
