import Mathlib.Data.List.Induction
import RangeKeeper.Proofs.Balance.History

/-!
What control loops do once they are cancelled. A loop that waits can end, and
one whose command is with the sink can end as soon as the sink has answered; a
loop that has ended does nothing more. But a loop that finds a tick due at that
moment may take it and go through another round first: the cancellation has no
precedence over the tick. Where no time passes while a cancelled loop waits,
this happens only at the very moment of the cancellation, of the start of the
loop, or of the end of a round.
-/

namespace RangeKeeper

def Fired (past : List ControlEvent) : Prop := ∃ x ∈ past, x.move = .cancel

def ControlMove.loop? : ControlMove → Option Nat
  | .tick i | .answer i _ | .resume i | .finish i => some i
  | _ => none

namespace ControlEvent

/-- No time has passed if a cancelled loop was waiting. -/
def Prompt (x : ControlEvent) : Prop :=
  x.before.cancelled = true → (∃ l ∈ x.before.loops, l.isWaiting = true) → x.time = x.since

instance (x : ControlEvent) : Decidable x.Prompt := inferInstanceAs (Decidable (_ → _ → _))

/-- With the event the loop gets to look at the tick and the switch at once: the
switch is thrown, the loop is started, or its round ends, with the consent of
the sink or without a command. -/
def WakesUp (i : Nat) (x : ControlEvent) : Prop :=
  x.move = .cancel ∨ (x.move = .start ∧ x.before.loops.length = i) ∨ x.move = .answer i (.ok ()) ∨
    (x.move = .tick i ∧ x.before.controller.evaluate.1 = none)

end ControlEvent

namespace ControlPlane

variable {p p' : ControlPlane} {now : Instant} {m : ControlMove} {i : Nat} {l l' : ControlLoop}

theorem getElem?_setLoop_self (hl : p.loops[i]? = some l) :
    (p.setLoop i l').loops[i]? = some l' := by
  obtain ⟨hlt, -⟩ := List.getElem?_eq_some_iff.mp hl
  exact List.getElem?_set_self hlt

theorem getElem?_setLoop_ne {j : Nat} (hne : j ≠ i) :
    (p.setLoop j l').loops[i]? = p.loops[i]? :=
  List.getElem?_set_ne hne

theorem Step.cancelled_iff (h : Step now p m p') :
    p'.cancelled = true ↔ p.cancelled = true ∨ m = .cancel := by
  cases h with
  | _ => simp [ControlPlane.submit, ControlPlane.tick, setLoop]

/-- A loop changes by its own moves alone, and by the move that starts it. -/
theorem Step.loop_eq (h : Step now p m p') (hm : m.loop? ≠ some i)
    (hstart : ¬(m = .start ∧ p.loops.length = i)) : p'.loops[i]? = p.loops[i]? := by
  cases h with
  | answerByHand command answer => exact congrArg (·[i]?) (p.hear_loops answer)
  | start =>
      have hne : i ≠ p.loops.length := fun heq => hstart ⟨rfl, heq.symm⟩
      rcases Nat.lt_or_gt_of_ne hne with hlt | hgt
      · exact List.getElem?_append_left hlt
      · rw [List.getElem?_eq_none (by simp; omega), List.getElem?_eq_none (by omega)]
  | tick j | resume j | finish j =>
      have hne : j ≠ i := fun heq => hm (congrArg some heq)
      exact getElem?_setLoop_ne hne
  | answer j _ command answer =>
      have hne : j ≠ i := fun heq => hm (congrArg some heq)
      rw [getElem?_setLoop_ne hne, hear_loops]
  | _ => rfl

/-- A loop that has ended makes no move. -/
theorem Step.not_ended (h : Step now p m p') (hm : m.loop? = some i) :
    ∃ l, p.loops[i]? = some l ∧ l.phase ≠ .ended := by
  cases h with
  | tick j l hl hphase =>
      cases hm
      exact ⟨l, hl, by simp [hphase]⟩
  | answer j l command answer hl hphase =>
      cases hm
      exact ⟨l, hl, by simp [hphase]⟩
  | resume j l due hl hphase =>
      cases hm
      exact ⟨l, hl, by simp [hphase]⟩
  | finish j l hl _ hwaiting =>
      cases hm
      refine ⟨l, hl, ?_⟩
      intro hphase
      simp [ControlLoop.isWaiting, hphase] at hwaiting
  | _ => cases hm

/-- How a loop comes to wait for a tick. -/
theorem Step.awaits (h : Step now p m p') (hl' : p'.loops[i]? = some l')
    (hphase : l'.phase = .awaitingTick) :
    p.loops[i]? = some l' ∨ (m = .start ∧ p.loops.length = i) ∨ m = .answer i (.ok ()) ∨
      (m = .tick i ∧ p.controller.evaluate.1 = none) ∨
      l'.nextTick = now + p.controller.settings.interval.toNanos := by
  by_cases hm : m.loop? = some i
  · cases h with
    | tick j l hl =>
        cases hm
        have hafter : (p.tick now i l).loops[i]? =
            some (l.tick p.controller.settings now p.controller.evaluate.1) :=
          getElem?_setLoop_self (p := { p with controller := p.controller.evaluate.2 }) hl
        rw [hafter] at hl'
        cases hl'
        cases hcommand : p.controller.evaluate.1 with
        | none => exact .inr (.inr (.inr (.inl ⟨rfl, rfl⟩)))
        | some command => simp [ControlLoop.tick, hcommand] at hphase
    | answer j l command answer hl =>
        cases hm
        rw [getElem?_setLoop_self (by simpa using hl)] at hl'
        cases hl'
        cases answer with
        | ok => exact .inr (.inr (.inl rfl))
        | error fault => simp [ControlLoop.onAnswer] at hphase
    | resume j l due hl =>
        cases hm
        rw [getElem?_setLoop_self hl] at hl'
        cases hl'
        exact .inr (.inr (.inr (.inr rfl)))
    | finish j l hl =>
        cases hm
        rw [getElem?_setLoop_self hl] at hl'
        cases hl'
        cases hphase
    | _ => cases hm
  · by_cases hstart : m = .start ∧ p.loops.length = i
    · exact .inr (.inl hstart)
    · rw [h.loop_eq hm hstart] at hl'
      exact .inl hl'

theorem finish_possible (hcancelled : p.cancelled = true) (hl : p.loops[i]? = some l)
    (hwaiting : l.isWaiting = true) : (p.move? now (.finish i)).isSome = true := by
  have hstep : Step now p (.finish i) (p.setLoop i { l with phase := .ended }) :=
    .finish i l hl hcancelled hwaiting
  rw [move?_eq_some.mpr hstep]
  rfl

/-- A cancelled loop that has not ended can end, at the latest when the sink has
answered. -/
theorem can_finish (now : Instant) (hcancelled : p.cancelled = true) (hl : p.loops[i]? = some l) :
    l.phase = .ended ∨ (p.move? now (.finish i)).isSome = true ∨
      ∃ command, l.phase = .submitting command ∧ ∀ answer, ∃ p',
        p.move? now (.answer i answer) = some p' ∧ (p'.move? now (.finish i)).isSome = true := by
  cases hphase : l.phase with
  | ended => exact .inl rfl
  | awaitingTick =>
      have hwaiting := ControlLoop.waiting_of_awaiting hphase
      exact .inr (.inl (finish_possible hcancelled hl hwaiting))
  | pausing due =>
      have hwaiting := ControlLoop.waiting_of_pausing hphase
      exact .inr (.inl (finish_possible hcancelled hl hwaiting))
  | submitting command =>
      refine .inr (.inr ⟨command, rfl, ?_⟩)
      intro answer
      have hstep : Step now p (.answer i answer)
          ((p.hear answer).setLoop i (l.onAnswer p.controller.settings now answer)) :=
        .answer i l command answer hl hphase
      have hafter : ((p.hear answer).setLoop i
          (l.onAnswer p.controller.settings now answer)).loops[i]? =
            some (l.onAnswer p.controller.settings now answer) :=
        getElem?_setLoop_self (by simpa using hl)
      refine ⟨_, move?_eq_some.mpr hstep, ?_⟩
      apply finish_possible (hstep.cancelled_iff.mpr (.inl hcancelled)) hafter
      exact l.waiting_onAnswer _ _ _

end ControlPlane

namespace ControlRun

variable {settings : ControlSettings} {balancers : List Balancer}
variable {past earlier later : List ControlEvent} {x : ControlEvent} {now : Instant}
variable {p : ControlPlane} {i : Nat} {l : ControlLoop}

theorem cancelled_iff_fired (h : ControlRun settings balancers past now p) :
    p.cancelled = true ↔ Fired past := by
  refine h.invariant (fun past p => p.cancelled = true ↔ Fired past)
    (by simp [Fired, ControlPlane.initial]) ?_
  intro past x ih hpossible
  rw [hpossible.cancelled_iff, ih]
  simp only [Fired, List.mem_append, List.mem_singleton, or_and_right, exists_or, exists_eq_left]

/-- Once it has ended a loop makes no move. -/
theorem ended_since (h : ControlRun settings balancers (earlier ++ x :: later) now p)
    (hx : x.move = .finish i) :
    (∃ l, p.loops[i]? = some l ∧ l.phase = .ended) ∧ ∀ y ∈ later, y.move.loop? ≠ some i := by
  induction later using List.reverseRecOn generalizing now p with
  | nil =>
      obtain ⟨-, rfl⟩ := h.last_after
      have hpossible : x.Possible := h.at_event.2.2
      rw [ControlEvent.Possible, hx] at hpossible
      refine ⟨?_, by simp⟩
      generalize x.after = after at hpossible
      cases hpossible with
      | finish _ l hl => exact ⟨_, ControlPlane.getElem?_setLoop_self hl, rfl⟩
  | append_singleton rest y ih =>
      rw [← List.cons_append, ← List.append_assoc] at h
      obtain ⟨-, rfl⟩ := h.last_after
      obtain ⟨hrun, -, hpossible⟩ := h.at_event
      obtain ⟨⟨l, hl, hended⟩, hquiet⟩ := ih hrun
      have hmove : y.move.loop? ≠ some i := by
        intro hmove
        obtain ⟨l', hl', hnot⟩ := hpossible.not_ended hmove
        rw [hl] at hl'
        cases hl'
        exact hnot hended
      obtain ⟨hlt, -⟩ := List.getElem?_eq_some_iff.mp hl
      have hkept : y.after.loops[i]? = some l :=
        (hpossible.loop_eq hmove fun hstart => by omega).trans hl
      refine ⟨⟨l, hkept, hended⟩, ?_⟩
      intro z hz
      rcases List.mem_append.mp hz with hz | hz
      · exact hquiet z hz
      · rw [List.mem_singleton.mp hz]
        exact hmove

/-- Where no time passes while a cancelled loop waits, such a loop has just come
to wait, or its tick is not yet due. -/
theorem woken_now (h : ControlRun settings balancers past now p) (hprompt : ∀ x ∈ past, x.Prompt)
    (hcancelled : p.cancelled = true) (hl : p.loops[i]? = some l)
    (hphase : l.phase = .awaitingTick) :
    now < l.nextTick ∨ ∃ x ∈ past, x.time = now ∧ x.WakesUp i := by
  induction h generalizing l with
  | start => cases hcancelled
  | @step past before now m p p' hrun _ hmove ih =>
      have hstep := ControlPlane.move?_eq_some.mp hmove
      have hnow : ControlEvent.WakesUp i ⟨before, now, p, m, p'⟩ →
          ∃ x ∈ past ++ [⟨before, now, p, m, p'⟩], x.time = now ∧ x.WakesUp i :=
        fun hwakes => ⟨_, by simp, rfl, hwakes⟩
      rcases hstep.awaits hl hphase with hsame | hstart | hanswer | htick | hresumed
      · -- The loop waited before: either no time has passed since, or it is being cancelled now.
        rcases hstep.cancelled_iff.mp hcancelled with hbefore | hfired
        · have htime : now = before := hprompt ⟨before, now, p, m, p'⟩ (by simp) hbefore
            ⟨l, List.mem_of_getElem? hsame, ControlLoop.waiting_of_awaiting hphase⟩
          rcases ih (fun x hx => hprompt x (by simp [hx])) hbefore hsame hphase with hlt | hwoken
          · rw [htime]
            exact .inl hlt
          · obtain ⟨x, hx, hxtime, hwakes⟩ := hwoken
            exact .inr ⟨x, by simp [hx], hxtime.trans htime.symm, hwakes⟩
        · exact .inr (hnow (.inl hfired))
      · exact .inr (hnow (.inr (.inl hstart)))
      · exact .inr (hnow (.inr (.inr (.inl hanswer))))
      · exact .inr (hnow (.inr (.inr (.inr htick))))
      · -- After a pause the tick is a whole interval away.
        have hpos := hrun.interval_pos
        rw [hresumed, hrun.controller_frame.1]
        exact .inl (Nat.lt_add_of_pos_right hpos)

/-- A loop that takes a tick after the cancellation could have ended instead.
Where no time passes while a cancelled loop waits, it takes one only at the
moment of the cancellation, of its start, or of the end of a round of its own.
Every cancelled loop can end, one with a command at the sink as soon as the sink
has answered, and a loop that has ended makes no move. -/
theorem cancelled_loops_wind_down (h : ControlRun settings balancers past now p) :
    (∀ earlier x later i, past = earlier ++ x :: later → Fired earlier → x.move = .tick i →
      (x.before.move? x.time (.finish i)).isSome = true ∧
      ((∀ y ∈ past, y.Prompt) → ∃ y ∈ earlier, y.time = x.time ∧ y.WakesUp i)) ∧
    (Fired past → ∀ i l, p.loops[i]? = some l →
      l.phase = .ended ∨ (p.move? now (.finish i)).isSome = true ∨
      ∃ command, l.phase = .submitting command ∧ ∀ answer, ∃ p',
        p.move? now (.answer i answer) = some p' ∧ (p'.move? now (.finish i)).isSome = true) ∧
    ∀ earlier x later i, past = earlier ++ x :: later → x.move = .finish i →
      ∀ y ∈ later, y.move.loop? ≠ some i := by
  refine ⟨?_, ?_, ?_⟩
  · rintro earlier x later i rfl hfired hmove
    obtain ⟨hrun, -, hpossible⟩ := h.at_event
    have hcancelled : x.before.cancelled = true := hrun.cancelled_iff_fired.mpr hfired
    rw [ControlEvent.Possible, hmove] at hpossible
    generalize x.after = after at hpossible
    cases hpossible with
    | tick _ l hl hphase hdue =>
        have hwaiting : l.isWaiting = true := ControlLoop.waiting_of_awaiting hphase
        refine ⟨ControlPlane.finish_possible hcancelled hl hwaiting, ?_⟩
        intro hprompt
        have htime : x.time = x.since :=
          hprompt x (by simp) hcancelled ⟨l, List.mem_of_getElem? hl, hwaiting⟩
        rw [htime] at hdue ⊢
        rcases hrun.woken_now (fun y hy => hprompt y (by simp [hy])) hcancelled hl hphase with
          hlt | hwoken
        · exact absurd hdue (Nat.not_le.mpr hlt)
        · exact hwoken
  · intro hfired i l hl
    exact ControlPlane.can_finish now (h.cancelled_iff_fired.mpr hfired) hl
  · rintro earlier x later i rfl hmove
    exact (h.ended_since hmove).2

def brisk : ControlSettings := { interval := .ofMillis 10 }

def insistent : List Balancer :=
  [.fixed "insistent" "near" (some (.split ⟨⟨1, 0⟩, "near", 3, [5]⟩))]

/-- The sink has the command of a loop from 0 ms to 35 ms, and the switch is
thrown at 10 ms. The tick that fell due meanwhile is taken, and only after that
round the loop ends. -/
def outlastingTick : List (Instant × ControlMove) :=
  [(0, .start), (0, .tick 0), (10000000, .cancel), (35000000, .answer 0 (.ok ())),
    (35000000, .tick 0), (35000000, .answer 0 (.ok ())), (35000000, .finish 0)]

theorem run_of_outlastingTick : ∃ earlier x later now p,
    ControlRun brisk insistent (earlier ++ x :: later) now p ∧
      (∀ y ∈ earlier ++ x :: later, y.Prompt) ∧ Fired earlier ∧ x.move = .tick 0 := by
  have hpossible : (ControlPlane.play? [] 0 (.initial ⟨brisk, insistent, [], {}⟩)
      outlastingTick).map (fun made => decide (∀ y ∈ made.1, y.Prompt)) = some true := by
    decide +kernel
  obtain ⟨⟨past, now, p⟩, hplay, hprompt⟩ := Option.map_eq_some_iff.mp hpossible
  have hrun : ControlRun brisk insistent past now p :=
    ControlPlane.run_of_play (.of_valid (by decide) insistent) (by decide) hplay
  have hplayed : past.map (fun x => (x.time, x.move)) =
      outlastingTick.take 4 ++ (35000000, .tick 0) :: outlastingTick.drop 5 :=
    ControlPlane.played hplay
  obtain ⟨earlier, rest, rfl, hearlier, hrest⟩ := List.map_eq_append_iff.mp hplayed
  obtain ⟨x, later, rfl, hx, -⟩ := List.map_eq_cons_iff.mp hrest
  have hcancel : (10000000, ControlMove.cancel) ∈ earlier.map fun x => (x.time, x.move) := by
    rw [hearlier]
    simp [outlastingTick]
  obtain ⟨y, hy, hfired⟩ := List.mem_map.mp hcancel
  exact ⟨earlier, x, later, now, p, hrun, of_decide_eq_true hprompt,
    ⟨y, hy, congrArg Prod.snd hfired⟩, congrArg Prod.snd hx⟩

theorem cancelled_loops_wind_down_outlasting_tick : ∃ earlier x later now p,
    ControlRun brisk insistent (earlier ++ x :: later) now p ∧ Fired earlier ∧ x.move = .tick 0 ∧
      (x.before.move? x.time (.finish 0)).isSome = true ∧
      ∃ y ∈ earlier, y.time = x.time ∧ y.WakesUp 0 := by
  obtain ⟨earlier, x, later, now, p, hrun, hprompt, hfired, htick⟩ := run_of_outlastingTick
  obtain ⟨hlate, -, -⟩ := cancelled_loops_wind_down hrun
  obtain ⟨hfinish, hmoment⟩ := hlate earlier x later 0 rfl hfired htick
  exact ⟨earlier, x, later, now, p, hrun, hfired, htick, hfinish, hmoment hprompt⟩

/-- A cancelled loop can begin another round, even where no time passes while it
waits. -/
theorem cancelled_loop_begins_round : ¬∀ settings balancers past now p,
    ControlRun settings balancers past now p → (∀ y ∈ past, y.Prompt) →
      ∀ earlier x later i, past = earlier ++ x :: later → Fired earlier → x.move ≠ .tick i := by
  intro hnever
  obtain ⟨earlier, x, later, now, p, hrun, hprompt, hfired, htick⟩ := run_of_outlastingTick
  exact hnever brisk insistent _ now p hrun hprompt earlier x later 0 rfl hfired htick

end ControlRun

end RangeKeeper
