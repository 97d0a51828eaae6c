import RangeKeeper.Balance.Controller
import RangeKeeper.Balance.ControlLoop

/-!
A controller with everything that acts on it. Any number of control loops run
over it, each by its own ticks, and rounds by hand run beside them; all share
one controller and one sink. One switch cancels every loop: a loop ends while it
waits for a tick or pauses, and a command that the sink has not yet answered is
waited for. Everything that happens is one labelled move; which answer the sink
gives, and which move comes next when several are possible, is left open.
-/

namespace RangeKeeper

structure ControlPlane where
  controller : Controller
  loops : List ControlLoop := []
  cancelled : Bool := false
  /-- The commands submitted by hand that the sink has not yet answered. -/
  byHand : List Command := []

/-- What can happen; `i` numbers a loop. -/
inductive ControlMove where
  | update (reports : List StoreReport)
  /-- A round by hand whose command goes nowhere. -/
  | evaluate
  /-- A round by hand whose command goes to the sink. -/
  | submit
  | answerByHand (command : Command) (answer : Except Fault Unit)
  | start
  | tick (i : Nat)
  | answer (i : Nat) (answer : Except Fault Unit)
  | resume (i : Nat)
  | cancel
  | finish (i : Nat)

namespace ControlPlane

def hear (p : ControlPlane) : Except Fault Unit → ControlPlane
  | .ok () => p
  | .error _ => { p with controller := p.controller.recordRejection }

/-- The command of a round by hand waits for its answer. -/
def submit (p : ControlPlane) : ControlPlane :=
  let (command, controller) := p.controller.evaluate
  { p with controller := controller, byHand := p.byHand ++ command.toList }

def setLoop (p : ControlPlane) (i : Nat) (l : ControlLoop) : ControlPlane :=
  { p with loops := p.loops.set i l }

def tick (p : ControlPlane) (now : Instant) (i : Nat) (l : ControlLoop) : ControlPlane :=
  let (command, controller) := p.controller.evaluate
  { p with controller := controller }.setLoop i (l.tick p.controller.settings now command)

def withLoop? (p : ControlPlane) (i : Nat) (may : ControlLoop → Bool)
    (act : ControlLoop → ControlPlane) : Option ControlPlane :=
  match p.loops[i]? with
  | none => none
  | some l => if may l then some (act l) else none

/-- The control plane after a move, if the move is possible at this moment. The
first tick of a loop is due at once. -/
def move? (p : ControlPlane) (now : Instant) : ControlMove → Option ControlPlane
  | .update reports => some { p with controller := p.controller.update reports }
  | .evaluate => some { p with controller := p.controller.evaluate.2 }
  | .submit => some p.submit
  | .answerByHand command answer =>
    if command ∈ p.byHand then some { p.hear answer with byHand := p.byHand.erase command }
    else none
  | .start => some { p with loops := p.loops ++ [{ nextTick := now }] }
  | .tick i => p.withLoop? i (fun l => l.mayTick now) fun l => p.tick now i l
  | .answer i answer =>
    p.withLoop? i (fun l => l.isSubmitting) fun l =>
      (p.hear answer).setLoop i (l.onAnswer p.controller.settings now answer)
  | .resume i =>
    p.withLoop? i (fun l => l.mayResume now) fun l =>
      p.setLoop i (l.resume p.controller.settings now)
  | .cancel => some { p with cancelled := true }
  | .finish i =>
    p.withLoop? i (fun l => p.cancelled && l.isWaiting) fun l =>
      p.setLoop i { l with phase := .ended }

end ControlPlane

end RangeKeeper
