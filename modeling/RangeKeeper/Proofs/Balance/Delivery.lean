import Mathlib.Data.List.Perm.Basic
import RangeKeeper.Balance.Epoch
import RangeKeeper.Proofs.Balance.History
import RangeKeeper.Proofs.Balance.Reports
import RangeKeeper.Proofs.Metrics.Series

/-!
What becomes of the commands. Each round asks the balancers in order about the
reports that were brought last. A round that submits hands its command to the
sink once, and nothing else hands anything over, so what was handed over is what
the sink has answered and what it still has. The counters count the rounds, the
commands by where they came from, and the refusals.
-/

namespace RangeKeeper

/-- The commands that the sink has and has not answered. -/
def ControlPlane.inSink (p : ControlPlane) : List Command :=
  p.byHand ++ p.loops.filterMap (·.submitted?)

namespace ControlEvent

def command? (x : ControlEvent) : Option Command :=
  if x.move.isRound then x.before.controller.evaluate.1 else none

def proposal? (x : ControlEvent) : Option (String × Command) :=
  if x.move.isRound then x.before.controller.proposal? else none

/-- The command came from a balancer of that name and is of that kind. -/
def proposes (name kind : String) (x : ControlEvent) : Bool :=
  x.proposal?.any fun made => made.1 = name && made.2.kind = kind

/-- What the sink has after the event and did not have before. -/
def handedOver (x : ControlEvent) : List Command := x.after.inSink.diff x.before.inSink

/-- The command that a round produces for the sink. -/
def submission (x : ControlEvent) : List Command :=
  if x.move.submits then x.command?.toList else []

def answered (x : ControlEvent) : List Command :=
  match x.move with
  | .answerByHand command _ => [command]
  | .answer i _ => (x.before.loops[i]?.bind (·.submitted?)).toList
  | _ => []

end ControlEvent

namespace Controller

variable {c : Controller} {name : String} {command : Command}

theorem evaluate_evaluations (c : Controller) :
    c.evaluate.2.metrics.evaluations = c.metrics.evaluations + 1 := by
  rw [evaluate_eq]
  cases c.proposal? <;> rfl

theorem evaluate_rejections (c : Controller) :
    c.evaluate.2.metrics.rejections = c.metrics.rejections := by
  rw [evaluate_eq]
  cases c.proposal? <;> rfl

theorem evaluate_commands (c : Controller) : c.evaluate.2.metrics.commands =
    c.proposal?.elim c.metrics.commands fun made =>
      c.metrics.commands.increment #v[made.1, made.2.kind] := by
  rw [evaluate_eq]
  cases c.proposal? <;> rfl

/-- A round brings the proposal of the first balancer that has one. -/
theorem proposal?_eq_some : c.proposal? = some (name, command) ↔
    ∃ b, First (fun b => (b.propose c.reports).isSome = true) c.balancers b ∧ b.name = name ∧
      b.propose c.reports = some command := by
  rw [proposal?, List.findSome?_eq_some_iff]
  constructor
  · rintro ⟨before, b, after, hbalancers, hmade, hbefore⟩
    obtain ⟨command', hpropose, heq⟩ := Option.map_eq_some_iff.mp hmade
    cases heq
    refine ⟨b, ⟨before, after, hbalancers, by simp [hpropose], ?_⟩, rfl, hpropose⟩
    intro d hd
    simpa using hbefore d hd
  · rintro ⟨b, ⟨before, after, hbalancers, -, hbefore⟩, rfl, hpropose⟩
    refine ⟨before, b, after, hbalancers, by rw [hpropose]; rfl, ?_⟩
    intro d hd
    simpa using hbefore d hd

end Controller

section Lists

variable {α β : Type}

theorem filterMap_cons_toList (f : α → Option β) (x : α) (xs : List α) :
    (x :: xs).filterMap f = (f x).toList ++ xs.filterMap f := by
  rw [List.filterMap_cons]
  cases f x <;> rfl

/-- Where one element of a list is replaced, what the list yields changes by
what the two yield. -/
theorem filterMap_set_perm (f : α → Option β) {xs : List α} {i : Nat} {x : α} (hx : xs[i]? = some x)
    (y : α) :
    (xs.filterMap f ++ (f y).toList).Perm ((f x).toList ++ (xs.set i y).filterMap f) := by
  induction xs generalizing i with
  | nil => cases hx
  | cons z rest ih =>
      cases i with
      | zero =>
          obtain rfl : z = x := by simpa using hx
          rw [List.set_cons_zero, filterMap_cons_toList, filterMap_cons_toList, List.append_assoc]
          exact List.perm_append_comm.append_left _
      | succ i =>
          have hrest := ih (by simpa using hx)
          rw [List.set_cons_succ, filterMap_cons_toList, filterMap_cons_toList, List.append_assoc]
          exact (hrest.append_left _).trans (List.perm_append_comm_assoc _ _ _)

/-- What a list has beyond another one is what was added to that one. -/
theorem diff_perm [DecidableEq α] {xs ys zs : List α} (h : xs.Perm (ys ++ zs)) :
    (xs.diff ys).Perm zs := by
  induction ys generalizing xs with
  | nil => simpa using h
  | cons y rest ih =>
      rw [List.diff_cons]
      apply ih
      simpa using h.erase y

end Lists

namespace ControlPlane

variable {p : ControlPlane}

theorem inSink_setLoop {i : Nat} {l : ControlLoop} (hl : p.loops[i]? = some l) (l' : ControlLoop) :
    (p.inSink ++ l'.submitted?.toList).Perm (l.submitted?.toList ++ (p.setLoop i l').inSink) := by
  have hloops := filterMap_set_perm (·.submitted?) hl l'
  rw [inSink, inSink, List.append_assoc]
  exact (hloops.append_left _).trans (List.perm_append_comm_assoc _ _ _)

end ControlPlane

namespace ControlEvent

variable {x : ControlEvent}

/-- What the sink has comes to it as a submission and goes with its answer. -/
theorem sink_flow (h : x.Possible) :
    (x.before.inSink ++ x.submission).Perm (x.answered ++ x.after.inSink) := by
  obtain ⟨since, now, p, m, p'⟩ := x
  have hstep : ControlPlane.Step now p m p' := h
  cases hstep with
  | update | evaluate | cancel =>
      simp [ControlPlane.inSink, submission, answered, ControlMove.submits]
  | submit =>
      have hafter : p.submit.inSink = p.byHand ++ p.controller.evaluate.1.toList ++
          p.loops.filterMap (·.submitted?) := rfl
      rw [hafter, ControlPlane.inSink, List.append_assoc, List.append_assoc]
      exact List.perm_append_comm.append_left _
  | answerByHand command answer hmem =>
      simp only [ControlPlane.inSink, submission, answered, ControlMove.submits,
        Bool.false_eq_true, if_false, List.append_nil, ControlPlane.hear_loops, ← List.append_assoc]
      exact (List.perm_cons_erase hmem).append_right _
  | start =>
      simp [ControlPlane.inSink, submission, answered, ControlMove.submits,
        ControlLoop.submitted?]
  | tick i l hl hphase =>
      have hbefore := ControlLoop.submitted?_of_waiting (ControlLoop.waiting_of_awaiting hphase)
      have hafter : (l.tick p.controller.settings now p.controller.evaluate.1).submitted? =
          p.controller.evaluate.1 := by
        cases p.controller.evaluate.1 <;> rfl
      have hflow := ControlPlane.inSink_setLoop
        (p := { p with controller := p.controller.evaluate.2 }) hl
        (l.tick p.controller.settings now p.controller.evaluate.1)
      rw [hbefore, hafter] at hflow
      exact hflow
  | answer i l command answer hl hphase =>
      have hbefore := ControlLoop.submitted?_of_submitting hphase
      have hafter := ControlLoop.submitted?_of_waiting
        (l.waiting_onAnswer p.controller.settings now answer)
      have hsame : (p.hear answer).inSink = p.inSink := by simp [ControlPlane.inSink]
      have hflow := ControlPlane.inSink_setLoop (p := p.hear answer) (by simpa using hl)
        (l.onAnswer p.controller.settings now answer)
      rw [hbefore, hafter, hsame] at hflow
      simpa [submission, answered, ControlMove.submits, hl, hbefore] using hflow
  | resume i l due hl hphase =>
      have hbefore := ControlLoop.submitted?_of_waiting (ControlLoop.waiting_of_pausing hphase)
      have hflow := ControlPlane.inSink_setLoop hl (l.resume p.controller.settings now)
      rw [hbefore] at hflow
      exact hflow
  | finish i l hl _ hwaiting =>
      have hbefore := ControlLoop.submitted?_of_waiting hwaiting
      have hflow := ControlPlane.inSink_setLoop hl { l with phase := .ended }
      rw [hbefore] at hflow
      exact hflow

/-- No answer comes in the move of a submission. -/
theorem submission_or_answer (x : ControlEvent) : x.submission = [] ∨ x.answered = [] := by
  cases hmove : x.move <;> simp [submission, answered, ControlMove.submits, hmove]

theorem length_submission_le (x : ControlEvent) : x.submission.length ≤ 1 := by
  rw [submission]
  split
  · cases x.command? <;> simp
  · simp

/-- Every submission is handed over, and nothing else is. -/
theorem handedOver_eq (h : x.Possible) : x.handedOver = x.submission := by
  have hflow := sink_flow h
  rcases submission_or_answer x with hnone | hnone
  · -- All that the sink has now it had before.
    have hkept : x.before.inSink.Perm (x.after.inSink ++ x.answered) := by
      rw [hnone, List.append_nil] at hflow
      exact hflow.trans List.perm_append_comm
    have hself : x.after.inSink.diff x.after.inSink = [] :=
      (diff_perm (by rw [List.append_nil])).eq_nil
    rw [hnone, handedOver, hkept.diff_left, List.diff_append, hself]
    exact List.nil_diff _
  · rw [hnone] at hflow
    have hdiff : x.handedOver.Perm x.submission := diff_perm hflow.symm
    have hshort := length_submission_le x
    rcases hsubmission : x.submission with _ | ⟨command, rest⟩
    · rw [hsubmission] at hdiff
      exact hdiff.eq_nil
    · obtain rfl : rest = [] := by simpa [hsubmission] using hshort
      rw [hsubmission] at hdiff
      exact List.perm_singleton.mp hdiff

/-- An answer, of either kind, is the answer to one command. -/
theorem length_answered (h : x.Possible) : x.answered.length =
    (if x.move.accepts then 1 else 0) + (if x.move.refuses then 1 else 0) := by
  obtain ⟨since, now, p, m, p'⟩ := x
  have hstep : ControlPlane.Step now p m p' := h
  cases hstep with
  | answerByHand command answer => cases answer <;> rfl
  | answer i l command answer hl hphase =>
      have hwith := ControlLoop.submitted?_of_submitting hphase
      have hone : answered ⟨since, now, p, .answer i answer,
          (p.hear answer).setLoop i (l.onAnswer p.controller.settings now answer)⟩ = [command] := by
        simp [answered, hl, hwith]
      rw [hone]
      cases answer <;> rfl
  | _ => rfl

end ControlEvent

namespace ControlMove

variable (m : ControlMove) (c : Controller)

theorem onController_metrics : (m.onController c).metrics =
    if m.isRound then c.evaluate.2.metrics
    else if m.refuses then { c.metrics with rejections := c.metrics.rejections + 1 }
    else c.metrics := by
  cases m with
  | answerByHand command answer => cases answer <;> rfl
  | answer i answer => cases answer <;> rfl
  | _ => rfl

end ControlMove

namespace ControlEvent

variable (x : ControlEvent)

def controller (x : ControlEvent) : Controller := x.move.onController x.before.controller

theorem command?_eq : x.command? = x.proposal?.map Prod.snd := by
  rw [command?, proposal?, Controller.evaluate_eq]
  split <;> rfl

theorem evaluations_count : x.controller.metrics.evaluations =
    x.before.controller.metrics.evaluations + UInt64.ofNat (if x.move.isRound then 1 else 0) := by
  rw [controller, ControlMove.onController_metrics]
  by_cases hround : x.move.isRound = true
  · simp [hround, Controller.evaluate_evaluations]
  · cases hrefuses : x.move.refuses <;> simp [hround]

theorem rejections_count : x.controller.metrics.rejections =
    x.before.controller.metrics.rejections + UInt64.ofNat (if x.move.refuses then 1 else 0) := by
  rw [controller, ControlMove.onController_metrics]
  by_cases hround : x.move.isRound = true
  · have hquiet : x.move.refuses = false := by
      cases hmove : x.move <;>
        simp_all [ControlMove.isRound, ControlMove.refuses, ControlMove.answer?]
    simp [hround, hquiet, Controller.evaluate_rejections]
  · cases hrefuses : x.move.refuses <;> simp [hround]

/-- Only a round with a command changes the counts of the commands. -/
theorem commands_eq : x.controller.metrics.commands =
    x.proposal?.elim x.before.controller.metrics.commands fun made =>
      x.before.controller.metrics.commands.increment #v[made.1, made.2.kind] := by
  rw [controller, ControlMove.onController_metrics, proposal?]
  by_cases hround : x.move.isRound = true
  · simp [hround, Controller.evaluate_commands]
  · cases hrefuses : x.move.refuses <;> simp [hround]

theorem commands_get_count (name kind : String) : x.controller.metrics.commands.get #v[name, kind] =
    x.before.controller.metrics.commands.get #v[name, kind] +
      UInt64.ofNat (if x.proposes name kind then 1 else 0) := by
  rw [commands_eq, proposes]
  cases x.proposal? with
  | none => simp
  | some made =>
      by_cases hsame : made.1 = name ∧ made.2.kind = kind
      · obtain ⟨rfl, rfl⟩ := hsame
        simp [LabeledCounter.get_increment_self]
      · have hother : #v[name, kind] ≠ #v[made.1, made.2.kind] := by
          intro heq
          have hname : name = made.1 := congrArg (fun v => v[0]) heq
          have hkind : kind = made.2.kind := congrArg (fun v => v[1]) heq
          exact hsame ⟨hname.symm, hkind.symm⟩
        simp [LabeledCounter.get_increment_ne _ hother, hsame]

theorem commands_total_count : x.controller.metrics.commands.total =
    x.before.controller.metrics.commands.total +
      UInt64.ofNat (if x.proposal?.isSome then 1 else 0) := by
  rw [commands_eq]
  cases x.proposal? with
  | none => simp
  | some made => simp [LabeledCounter.total_increment]

end ControlEvent

namespace ControlRun

variable {settings : ControlSettings} {balancers : List Balancer}
variable {past earlier later : List ControlEvent} {x : ControlEvent} {now : Instant}
variable {p : ControlPlane}

/-- A counter that every event moves by what is to be counted in it counts that
over every history. -/
theorem counted (h : ControlRun settings balancers past now p) (count : Controller → UInt64)
    (counts : ControlEvent → Bool)
    (hfresh : count { settings := settings, balancers := balancers } = 0)
    (hevent : ∀ x : ControlEvent, count x.controller =
      count x.before.controller + UInt64.ofNat (if counts x then 1 else 0)) :
    count p.controller = UInt64.ofNat (past.countP counts) := by
  refine h.invariant (fun past p => count p.controller = UInt64.ofNat (past.countP counts))
    hfresh ?_
  intro past x ih hpossible
  have hafter : x.after.controller = x.controller := hpossible.controller_eq
  rw [hafter, hevent, ih, List.countP_append, List.countP_singleton, UInt64.ofNat_add]

/-- Every round brings the proposal of the first balancer that makes one of the
latest reports. -/
theorem proposal?_eq_some (h : ControlRun settings balancers (earlier ++ x :: later) now p)
    (name : String) (command : Command) : x.proposal? = some (name, command) ↔
      x.move.isRound = true ∧
        ∃ b, First (fun b => (b.propose (latestReports earlier)).isSome = true) balancers b ∧
          b.name = name ∧ b.propose (latestReports earlier) = some command := by
  obtain ⟨-, hbalancers, hreports⟩ := h.at_event.1.controller_frame
  rw [ControlEvent.proposal?, ← hreports, ← hbalancers, ← Controller.proposal?_eq_some]
  cases x.move.isRound <;> simp

/-- What was handed over is what was answered and what the sink still has. -/
theorem handed_flow (h : ControlRun settings balancers past now p) :
    (past.flatMap (·.handedOver)).Perm (past.flatMap (·.answered) ++ p.inSink) := by
  refine h.invariant (fun past p =>
    (past.flatMap (·.handedOver)).Perm (past.flatMap (·.answered) ++ p.inSink)) .nil ?_
  intro past x ih hpossible
  have hflow := ControlEvent.sink_flow hpossible
  rw [← ControlEvent.handedOver_eq hpossible] at hflow
  rw [List.flatMap_append, List.flatMap_append, List.flatMap_singleton, List.flatMap_singleton]
  calc
    (past.flatMap (·.handedOver) ++ x.handedOver).Perm
        (past.flatMap (·.answered) ++ x.before.inSink ++ x.handedOver) := ih.append_right _
    _ = past.flatMap (·.answered) ++ (x.before.inSink ++ x.handedOver) := List.append_assoc _ _ _
    List.Perm _ (past.flatMap (·.answered) ++ (x.answered ++ x.after.inSink)) :=
      hflow.append_left _
    _ = past.flatMap (·.answered) ++ x.answered ++ x.after.inSink := (List.append_assoc _ _ _).symm

theorem length_answered (h : ControlRun settings balancers past now p) :
    (past.flatMap (·.answered)).length =
      past.countP (·.move.accepts) + past.countP (·.move.refuses) := by
  refine h.invariant (fun past _ => (past.flatMap (·.answered)).length =
    past.countP (·.move.accepts) + past.countP (·.move.refuses)) rfl ?_
  intro past x ih hpossible
  have hlast := ControlEvent.length_answered hpossible
  rw [List.flatMap_append, List.flatMap_singleton, List.length_append, List.countP_append,
    List.countP_append, List.countP_singleton, List.countP_singleton]
  omega

/-- The sink gets the commands of the submitting rounds, in the order of the
rounds. -/
theorem handed_in_order (h : ControlRun settings balancers past now p) :
    past.flatMap (·.handedOver) = (past.filter (·.move.submits)).filterMap (·.command?) := by
  have hevery : ∀ x ∈ past, x.handedOver = x.submission :=
    fun x hx => ControlEvent.handedOver_eq (h.possible hx)
  rw [List.flatMap_congr hevery]
  clear hevery h
  induction past with
  | nil => rfl
  | cons x rest ih =>
      rw [List.flatMap_cons, ih, ControlEvent.submission, List.filter_cons]
      split
      · rw [filterMap_cons_toList]
      · rfl

/-- In every round the first balancer that proposes something, about the reports
brought last, has its proposal. A round that submits hands its command to the
sink, in the order of the rounds, and nothing else, in particular no refusal,
hands anything over. The rounds are counted, their commands by where they came
from, and the refusals, as far as words count. So of what was handed over, part
was accepted, part was refused, and the sink still has the rest. -/
theorem rounds_accounted (h : ControlRun settings balancers past now p) :
    (∀ earlier x later, past = earlier ++ x :: later →
      x.command? = x.proposal?.map Prod.snd ∧
      ∀ name command, x.proposal? = some (name, command) ↔ x.move.isRound = true ∧
        ∃ b, First (fun b => (b.propose (latestReports earlier)).isSome = true) balancers b ∧
          b.name = name ∧ b.propose (latestReports earlier) = some command) ∧
    (∀ x ∈ past, x.handedOver = if x.move.submits then x.command?.toList else []) ∧
    past.flatMap (·.handedOver) = (past.filter (·.move.submits)).filterMap (·.command?) ∧
    p.controller.metrics.evaluations = .ofNat (past.countP (·.move.isRound)) ∧
    (∀ name kind, p.controller.metrics.commands.get #v[name, kind] =
      .ofNat (past.countP (·.proposes name kind))) ∧
    p.controller.metrics.commands.total = .ofNat (past.countP (·.proposal?.isSome)) ∧
    p.controller.metrics.rejections = .ofNat (past.countP (·.move.refuses)) ∧
    (past.flatMap (·.handedOver)).Perm (past.flatMap (·.answered) ++ p.inSink) ∧
    (past.flatMap (·.handedOver)).length =
      past.countP (·.move.accepts) + past.countP (·.move.refuses) + p.inSink.length := by
  refine ⟨?_, ?_, h.handed_in_order, ?_, ?_, ?_, ?_, h.handed_flow, ?_⟩
  · rintro earlier x later rfl
    exact ⟨x.command?_eq, h.proposal?_eq_some⟩
  · intro x hx
    exact ControlEvent.handedOver_eq (h.possible hx)
  · exact h.counted (·.metrics.evaluations) _ rfl ControlEvent.evaluations_count
  · intro name kind
    exact h.counted (·.metrics.commands.get #v[name, kind]) _ rfl
      fun x => x.commands_get_count name kind
  · exact h.counted (·.metrics.commands.total) _ rfl ControlEvent.commands_total_count
  · exact h.counted (·.metrics.rejections) _ rfl ControlEvent.rejections_count
  · rw [h.handed_flow.length_eq, List.length_append, h.length_answered]

/-- A loop and rounds by hand side by side. The command of the loop is refused,
and so is one that was submitted by hand meanwhile; reports arrive in between
that bring forward another balancer. -/
def refusedTwice : List (Instant × ControlMove) :=
  [(0, .start), (0, .tick 0),
    (1, .update [⟨"near", [⟨⟨1, 0⟩, .full, .leader, 3, .normal, []⟩,
      ⟨⟨1, 1⟩, .full, .leader, 3, .normal, []⟩], .empty⟩]),
    (1, .submit), (2, .evaluate),
    (3, .answerByHand (.changeConfig ⟨⟨1, 1⟩, "near", 3, .empty, .empty⟩) (.error .stopped)),
    (4, .answer 0 (.error .stopped)), (1000000004, .resume 0), (6000000004, .tick 0)]

theorem rounds_accounted_refused_twice :
    let split : Command := .split ⟨⟨1, 0⟩, "near", 3, [5]⟩
    let quit : Command := .changeConfig ⟨⟨1, 1⟩, "near", 3, .empty, .empty⟩
    let balancers : List Balancer :=
      [.fixed "idle" "near" none, .redundantEpoch "near", .fixed "spare" "near" (some split)]
    ∃ past now p, ControlRun {} balancers past now p ∧
      past.flatMap (·.handedOver) = [split, quit, quit] ∧ p.inSink = [quit] ∧
      p.controller.metrics.evaluations = 4 ∧
      p.controller.metrics.commands.get #v["redundant_epoch_removal", "change_config"] = 3 ∧
      p.controller.metrics.commands.get #v["spare", "split"] = 1 ∧
      p.controller.metrics.commands.total = 4 ∧ p.controller.metrics.rejections = 2 ∧
      (past.flatMap (·.handedOver)).length =
        past.countP (·.move.accepts) + past.countP (·.move.refuses) + p.inSink.length := by
  intro split quit balancers
  have hsummary : (ControlPlane.play? [] 0 (.initial ⟨{}, balancers, [], {}⟩) refusedTwice).map
      (fun made => ([made.1.countP (·.move.isRound),
        made.1.countP (·.proposes "redundant_epoch_removal" "change_config"),
        made.1.countP (·.proposes "spare" "split"), made.1.countP (·.proposal?.isSome),
        made.1.countP (·.move.refuses)],
        (made.1.filter (·.move.submits)).filterMap (·.command?), made.2.2.inSink)) =
      some ([4, 3, 1, 4, 2], [split, quit, quit], [quit]) := by
    decide +kernel
  obtain ⟨⟨past, now, p⟩, hplay, hcounts⟩ := Option.map_eq_some_iff.mp hsummary
  simp only [Prod.mk.injEq, List.cons.injEq, and_true] at hcounts
  obtain ⟨⟨hrounds, hquits, hsplits, hcommands, hrefusals⟩, hhanded, hsink⟩ := hcounts
  have hrun : ControlRun {} balancers past now p :=
    ControlPlane.run_of_play (.of_valid (by decide) balancers) (by decide) hplay
  obtain ⟨-, -, horder, hevaluations, hproposed, htotal, hrejections, -, hlength⟩ :=
    rounds_accounted hrun
  refine ⟨past, now, p, hrun, horder.trans hhanded, hsink, ?_, ?_, ?_, ?_, ?_, hlength⟩
  · rw [hevaluations, hrounds]
    rfl
  · rw [hproposed, hquits]
    rfl
  · rw [hproposed, hsplits]
    rfl
  · rw [htotal, hcommands]
    rfl
  · rw [hrejections, hrefusals]
    rfl

end ControlRun

end RangeKeeper
