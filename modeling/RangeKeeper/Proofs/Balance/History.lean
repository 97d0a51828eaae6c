import Mathlib.Data.List.Induction
import RangeKeeper.Balance.ControlPlane

/-!
Histories of a control plane. A history lists what happened, each event with the
states before and after it. Only the moments are constrained, which never go
back: any loop and any round by hand may come next, and the sink may answer
anything at any time. What becomes of the controller the moves alone decide,
wherever in its round each loop is.
-/

namespace RangeKeeper

def ControlLoop.submitted? (l : ControlLoop) : Option Command :=
  match l.phase with
  | .submitting command => some command
  | _ => none

namespace ControlLoop

variable {l : ControlLoop}

theorem submitted?_of_submitting {command : Command} (h : l.phase = .submitting command) :
    l.submitted? = some command := by
  rw [submitted?, h]

theorem submitted?_of_waiting (h : l.isWaiting = true) : l.submitted? = none := by
  cases hphase : l.phase with
  | submitting => simp [isWaiting, hphase] at h
  | awaitingTick | pausing | ended => simp [submitted?, hphase]

theorem waiting_of_awaiting (h : l.phase = .awaitingTick) : l.isWaiting = true := by
  rw [isWaiting, h]

theorem waiting_of_pausing {due : Instant} (h : l.phase = .pausing due) : l.isWaiting = true := by
  rw [isWaiting, h]

/-- After the answer of the sink a loop waits, for its tick or in a pause. -/
theorem waiting_onAnswer (l : ControlLoop) (settings : ControlSettings) (now : Instant)
    (answer : Except Fault Unit) : (l.onAnswer settings now answer).isWaiting = true := by
  cases answer <;> rfl

end ControlLoop

/-- What a round makes of a controller: only its counts change. -/
theorem Controller.evaluate_eq (c : Controller) :
    c.evaluate = (c.proposal?.map Prod.snd, { c with
      metrics := c.proposal?.elim { c.metrics with evaluations := c.metrics.evaluations + 1 }
        fun made => { c.metrics with evaluations := c.metrics.evaluations + 1 }.recordCommand
          made.1 made.2.kind }) := by
  rw [evaluate]
  cases c.proposal? <;> rfl

namespace ControlMove

/-- The move is a round, by hand or of a loop. -/
def isRound : ControlMove → Bool
  | .evaluate | .submit | .tick _ => true
  | _ => false

def submits : ControlMove → Bool
  | .submit | .tick _ => true
  | _ => false

def reports? : ControlMove → Option (List StoreReport)
  | .update reports => some reports
  | _ => none

def answer? : ControlMove → Option (Except Fault Unit)
  | .answerByHand _ said | .answer _ said => some said
  | _ => none

def accepts (m : ControlMove) : Bool :=
  match m.answer? with
  | some (.ok ()) => true
  | _ => false

def refuses (m : ControlMove) : Bool :=
  match m.answer? with
  | some (.error _) => true
  | _ => false

def onController (m : ControlMove) (c : Controller) : Controller :=
  match m with
  | .update reports => c.update reports
  | .evaluate | .submit | .tick _ => c.evaluate.2
  | .answerByHand _ (.error _) | .answer _ (.error _) => c.recordRejection
  | _ => c

theorem onController_frame (m : ControlMove) (c : Controller) :
    (m.onController c).settings = c.settings ∧ (m.onController c).balancers = c.balancers ∧
      (m.onController c).reports = m.reports?.getD c.reports := by
  unfold onController
  split <;> simp [Controller.update, Controller.evaluate_eq, Controller.recordRejection, reports?]

end ControlMove

namespace ControlPlane

@[simp] theorem hear_loops (p : ControlPlane) (answer : Except Fault Unit) :
    (p.hear answer).loops = p.loops := by
  cases answer <;> rfl

@[simp] theorem hear_cancelled (p : ControlPlane) (answer : Except Fault Unit) :
    (p.hear answer).cancelled = p.cancelled := by
  cases answer <;> rfl

@[simp] theorem hear_byHand (p : ControlPlane) (answer : Except Fault Unit) :
    (p.hear answer).byHand = p.byHand := by
  cases answer <;> rfl

/-- What can happen in a state at a moment, and what it leads to. -/
inductive Step (now : Instant) (p : ControlPlane) : ControlMove → ControlPlane → Prop where
  | update (reports : List StoreReport) :
      Step now p (.update reports) { p with controller := p.controller.update reports }
  | evaluate : Step now p .evaluate { p with controller := p.controller.evaluate.2 }
  | submit : Step now p .submit p.submit
  | answerByHand (command : Command) (answer : Except Fault Unit) :
      command ∈ p.byHand → Step now p (.answerByHand command answer)
        { p.hear answer with byHand := p.byHand.erase command }
  | start : Step now p .start { p with loops := p.loops ++ [{ nextTick := now }] }
  | tick (i : Nat) (l : ControlLoop) :
      p.loops[i]? = some l → l.phase = .awaitingTick → l.nextTick ≤ now →
      Step now p (.tick i) (p.tick now i l)
  | answer (i : Nat) (l : ControlLoop) (command : Command) (answer : Except Fault Unit) :
      p.loops[i]? = some l → l.phase = .submitting command →
      Step now p (.answer i answer)
        ((p.hear answer).setLoop i (l.onAnswer p.controller.settings now answer))
  | resume (i : Nat) (l : ControlLoop) (due : Instant) :
      p.loops[i]? = some l → l.phase = .pausing due → due ≤ now →
      Step now p (.resume i) (p.setLoop i (l.resume p.controller.settings now))
  | cancel : Step now p .cancel { p with cancelled := true }
  | finish (i : Nat) (l : ControlLoop) :
      p.loops[i]? = some l → p.cancelled = true → l.isWaiting = true →
      Step now p (.finish i) (p.setLoop i { l with phase := .ended })

variable {p p' : ControlPlane} {now : Instant} {m : ControlMove}

theorem withLoop?_eq_some {i : Nat} {may : ControlLoop → Bool} {act : ControlLoop → ControlPlane} :
    p.withLoop? i may act = some p' ↔
      ∃ l, p.loops[i]? = some l ∧ may l = true ∧ act l = p' := by
  rw [withLoop?]
  cases p.loops[i]? with
  | none => simp
  | some l => simp

/-- The moves that are possible are the steps. -/
theorem move?_eq_some : p.move? now m = some p' ↔ Step now p m p' := by
  constructor
  · intro hmove
    cases m with
    | update reports =>
        cases hmove
        exact .update reports
    | evaluate =>
        cases hmove
        exact .evaluate
    | submit =>
        cases hmove
        exact .submit
    | answerByHand command answer =>
        obtain ⟨hmem, heq⟩ := Option.ite_none_right_eq_some.mp hmove
        cases heq
        exact .answerByHand command answer hmem
    | start =>
        cases hmove
        exact .start
    | tick i =>
        obtain ⟨l, hl, hmay, rfl⟩ := withLoop?_eq_some.mp hmove
        simp only [ControlLoop.mayTick, Bool.and_eq_true, decide_eq_true_eq] at hmay
        exact .tick i l hl hmay.1 hmay.2
    | answer i answer =>
        obtain ⟨l, hl, hmay, rfl⟩ := withLoop?_eq_some.mp hmove
        cases hphase : l.phase with
        | submitting command => exact .answer i l command answer hl hphase
        | awaitingTick | pausing | ended => simp [ControlLoop.isSubmitting, hphase] at hmay
    | resume i =>
        obtain ⟨l, hl, hmay, rfl⟩ := withLoop?_eq_some.mp hmove
        cases hphase : l.phase with
        | pausing due =>
            exact .resume i l due hl hphase (by simpa [ControlLoop.mayResume, hphase] using hmay)
        | awaitingTick | submitting | ended => simp [ControlLoop.mayResume, hphase] at hmay
    | cancel =>
        cases hmove
        exact .cancel
    | finish i =>
        obtain ⟨l, hl, hmay, rfl⟩ := withLoop?_eq_some.mp hmove
        simp only [Bool.and_eq_true] at hmay
        exact .finish i l hl hmay.1 hmay.2
  · intro hstep
    cases hstep with
    | update | evaluate | submit | start | cancel => rfl
    | answerByHand command answer hmem => exact if_pos hmem
    | tick i l hl hphase hdue =>
        exact withLoop?_eq_some.mpr ⟨l, hl, by simp [ControlLoop.mayTick, hphase, hdue], rfl⟩
    | answer i l command answer hl hphase =>
        exact withLoop?_eq_some.mpr ⟨l, hl, by simp [ControlLoop.isSubmitting, hphase], rfl⟩
    | resume i l due hl hphase hdue =>
        exact withLoop?_eq_some.mpr ⟨l, hl, by simp [ControlLoop.mayResume, hphase, hdue], rfl⟩
    | finish i l hl hcancelled hwaiting =>
        exact withLoop?_eq_some.mpr ⟨l, hl, by simp [hcancelled, hwaiting], rfl⟩

/-- The moves alone drive the controller. -/
theorem Step.controller_eq (h : Step now p m p') : p'.controller = m.onController p.controller := by
  cases h with
  | answerByHand command answer => cases answer <;> rfl
  | answer i l command answer => cases answer <;> rfl
  | _ => rfl

end ControlPlane

/-- One thing that happened: when, what, and the states before and after it. -/
structure ControlEvent where
  /-- When the state before was reached. -/
  since : Instant
  time : Instant
  before : ControlPlane
  move : ControlMove
  after : ControlPlane

/-- The reports that were brought last. -/
def latestReports (past : List ControlEvent) : List StoreReport :=
  ((past.filterMap fun x => x.move.reports?).getLast?).getD []

abbrev ControlEvent.Possible (x : ControlEvent) : Prop :=
  ControlPlane.Step x.time x.before x.move x.after

def ControlPlane.initial (c : Controller) : ControlPlane := { controller := c }

/-- The histories of a control plane over time, the latest event last, and where
they lead. -/
inductive ControlRun (settings : ControlSettings) (balancers : List Balancer) :
    List ControlEvent → Instant → ControlPlane → Prop where
  | start {c : Controller} :
      Controller.create settings balancers = .ok c →
      ControlRun settings balancers [] 0 (.initial c)
  | step {past : List ControlEvent} {before now : Instant} {m : ControlMove} {p p' : ControlPlane} :
      ControlRun settings balancers past before p → before ≤ now → p.move? now m = some p' →
      ControlRun settings balancers (past ++ [⟨before, now, p, m, p'⟩]) now p'

namespace ControlRun

variable {settings : ControlSettings} {balancers : List Balancer}
variable {past earlier later : List ControlEvent} {x : ControlEvent} {now : Instant}
variable {p : ControlPlane}

theorem created {c : Controller} (h : Controller.create settings balancers = .ok c) :
    c = { settings := settings, balancers := balancers } := by
  rw [Controller.create] at h
  cases hvalid : settings.validate with
  | error fault =>
      rw [hvalid] at h
      cases h
  | ok =>
      rw [hvalid] at h
      cases h
      rfl

theorem interval_pos (h : ControlRun settings balancers past now p) :
    0 < settings.interval.toNanos := by
  induction h with
  | start hcreate =>
      apply Nat.pos_of_ne_zero
      intro hzero
      rw [Controller.create, ControlSettings.validate, Duration.isZero, hzero] at hcreate
      cases hcreate
  | step _ _ _ ih => exact ih

/-- With acceptable settings there is a control plane to start from. -/
theorem of_valid (hvalid : settings.validate = .ok ()) (balancers : List Balancer) :
    ControlRun settings balancers [] 0
      (.initial { settings := settings, balancers := balancers }) := by
  apply ControlRun.start
  rw [Controller.create, hvalid]
  rfl

/-- What the start and every step keep holds after every history. -/
theorem invariant (holds : List ControlEvent → ControlPlane → Prop)
    (h : ControlRun settings balancers past now p)
    (hstart : holds [] (.initial { settings := settings, balancers := balancers }))
    (hstep : ∀ (past : List ControlEvent) (x : ControlEvent), holds past x.before → x.Possible →
      holds (past ++ [x]) x.after) : holds past p := by
  induction h with
  | start hcreate =>
      obtain rfl := created hcreate
      exact hstart
  | @step past before now m p p' _ _ hmove ih =>
      exact hstep past ⟨before, now, p, m, p'⟩ ih (ControlPlane.move?_eq_some.mp hmove)

/-- The controller keeps its settings and its balancers, and the reports that
were brought last. -/
theorem controller_frame (h : ControlRun settings balancers past now p) :
    p.controller.settings = settings ∧ p.controller.balancers = balancers ∧
      p.controller.reports = latestReports past := by
  refine h.invariant (fun past p => p.controller.settings = settings ∧
    p.controller.balancers = balancers ∧ p.controller.reports = latestReports past)
    ⟨rfl, rfl, rfl⟩ ?_
  rintro past x ⟨hsettings, hbalancers, hreports⟩ hpossible
  obtain ⟨hsettings', hbalancers', hreports'⟩ := x.move.onController_frame x.before.controller
  rw [hpossible.controller_eq, hsettings', hbalancers', hreports']
  refine ⟨hsettings, hbalancers, ?_⟩
  rw [hreports, latestReports, latestReports, List.filterMap_append]
  cases hbrought : x.move.reports? <;> simp [hbrought]

/-- Every event of a history was a move that was possible where the history
before it led to. -/
theorem at_event (h : ControlRun settings balancers (earlier ++ x :: later) now p) :
    ControlRun settings balancers earlier x.since x.before ∧ x.since ≤ x.time ∧ x.Possible := by
  generalize hpast : earlier ++ x :: later = past at h
  induction h generalizing later with
  | start => simp at hpast
  | step hrun htime hmove ih =>
      rcases List.eq_nil_or_concat later with rfl | ⟨rest, last, rfl⟩
      · obtain ⟨rfl, hx⟩ := List.append_inj' hpast rfl
        cases hx
        exact ⟨hrun, htime, ControlPlane.move?_eq_some.mp hmove⟩
      · rw [List.concat_eq_append, ← List.cons_append, ← List.append_assoc] at hpast
        exact ih (List.append_inj' hpast rfl).1

/-- A history that ends with an event leads to the state after it. -/
theorem last_after (h : ControlRun settings balancers (past ++ [x]) now p) :
    now = x.time ∧ p = x.after := by
  generalize hpast : past ++ [x] = whole at h
  cases h with
  | start => simp at hpast
  | step =>
      obtain ⟨-, hx⟩ := List.append_inj' hpast rfl
      cases hx
      exact ⟨rfl, rfl⟩

theorem possible (h : ControlRun settings balancers past now p) (hx : x ∈ past) : x.Possible := by
  obtain ⟨earlier, later, rfl⟩ := List.append_of_mem hx
  exact h.at_event.2.2

/-- What holds right after an event and is kept by every event that follows
holds from then on. -/
theorem since (holds : List ControlEvent → Instant → ControlPlane → Prop)
    (h : ControlRun settings balancers (earlier ++ x :: later) now p)
    (hfirst : holds [] x.time x.after)
    (hnext : ∀ (between : List ControlEvent) (y : ControlEvent),
      ControlRun settings balancers (earlier ++ x :: between) y.since y.before →
      y.since ≤ y.time → y.Possible → holds between y.since y.before →
      holds (between ++ [y]) y.time y.after) : holds later now p := by
  induction later using List.reverseRecOn generalizing now p with
  | nil =>
      obtain ⟨rfl, rfl⟩ := h.last_after
      exact hfirst
  | append_singleton rest y ih =>
      rw [← List.cons_append, ← List.append_assoc] at h
      obtain ⟨rfl, rfl⟩ := h.last_after
      obtain ⟨hrun, htime, hpossible⟩ := h.at_event
      exact hnext rest y hrun htime hpossible (ih hrun)

end ControlRun

namespace ControlPlane

/-- Make moves one after the other, noting each, as long as they are
possible. -/
def play? (past : List ControlEvent) (since : Instant) (p : ControlPlane) :
    List (Instant × ControlMove) → Option (List ControlEvent × Instant × ControlPlane)
  | [] => some (past, since, p)
  | (now, m) :: rest =>
    (p.move? now m).bind fun p' => play? (past ++ [⟨since, now, p, m, p'⟩]) now p' rest

variable {past past' : List ControlEvent} {since now : Instant} {p p' : ControlPlane}
variable {moves : List (Instant × ControlMove)}

/-- What is played is noted as it is played. -/
theorem played (hplay : play? past since p moves = some (past', now, p')) :
    past'.map (fun x => (x.time, x.move)) = past.map (fun x => (x.time, x.move)) ++ moves := by
  induction moves generalizing past since p with
  | nil =>
      cases hplay
      simp
  | cons head rest ih =>
      obtain ⟨time, m⟩ := head
      simp only [play?, Option.bind_eq_some_iff] at hplay
      obtain ⟨next, -, hplay⟩ := hplay
      rw [ih hplay]
      simp

theorem run_of_play {settings : ControlSettings} {balancers : List Balancer}
    (h : ControlRun settings balancers past since p)
    (hmoves : (since :: moves.map Prod.fst).Pairwise (· ≤ ·))
    (hplay : play? past since p moves = some (past', now, p')) :
    ControlRun settings balancers past' now p' := by
  induction moves generalizing past since p with
  | nil =>
      cases hplay
      exact h
  | cons head rest ih =>
      obtain ⟨time, m⟩ := head
      simp only [play?, Option.bind_eq_some_iff] at hplay
      obtain ⟨next, hmove, hplay⟩ := hplay
      obtain ⟨hfirst, hrest⟩ := List.pairwise_cons.mp hmoves
      exact ih (.step h (hfirst time (by simp)) hmove) hrest hplay

end ControlPlane

end RangeKeeper
