import RangeKeeper.Proofs.Balance.Cancellation
import RangeKeeper.Proofs.Balance.Delivery

/-!
The rounds of one control loop keep their distance. A round whose command went
to the sink lasts until the sink has answered, and the loop begins no other
round before that. After a refusal the loop rests: it pauses, and then it waits
for a tick that is a whole interval away, counted from the end of the pause and
not from the tick before. So no tick that fell due while the sink was busy, or
while the loop paused, starts a round early.
-/

namespace RangeKeeper

namespace ControlLoop

/-- What loop `i` makes of itself with a move of its own; `made` is what a round
would bring. -/
inductive Step (settings : ControlSettings) (made : Option Command) (now : Instant) (i : Nat)
    (l : ControlLoop) : ControlMove → ControlLoop → Prop where
  | tick : l.phase = .awaitingTick → l.nextTick ≤ now →
      Step settings made now i l (.tick i) (l.tick settings now made)
  | answer (command : Command) (answer : Except Fault Unit) : l.phase = .submitting command →
      Step settings made now i l (.answer i answer) (l.onAnswer settings now answer)
  | resume (due : Instant) : l.phase = .pausing due → due ≤ now →
      Step settings made now i l (.resume i) (l.resume settings now)
  | finish : l.isWaiting = true → Step settings made now i l (.finish i) { l with phase := .ended }

/-- The loop has no command with the sink and begins no round before the moment:
it pauses, and the interval behind the pause lasts until then, or its tick is
not due before then, or it has ended. -/
def RestsUntil (l : ControlLoop) (settings : ControlSettings) (moment : Instant) : Prop :=
  match l.phase with
  | .awaitingTick => moment ≤ l.nextTick
  | .submitting _ => False
  | .pausing due => moment ≤ due + settings.interval.toNanos
  | .ended => True

variable {settings : ControlSettings} {made : Option Command} {now moment : Instant} {i : Nat}
variable {l l' : ControlLoop} {m : ControlMove} {command : Command}

/-- A loop whose command is with the sink waits for the answer. -/
theorem Step.answer_of_submitting (h : Step settings made now i l m l')
    (hphase : l.phase = .submitting command) : ∃ answer, m = .answer i answer := by
  cases h with
  | tick hawaiting => cases hphase.symm.trans hawaiting
  | answer _ answer => exact ⟨answer, rfl⟩
  | resume due hpausing => cases hphase.symm.trans hpausing
  | finish hwaiting => simp [isWaiting, hphase] at hwaiting

/-- A loop that rests does nothing but rest until the moment has come. -/
theorem Step.keeps_resting (h : Step settings made now i l m l')
    (hrests : l.RestsUntil settings moment) : moment ≤ now ∨ l'.RestsUntil settings moment := by
  cases h with
  | tick hphase hdue =>
      rw [RestsUntil, hphase] at hrests
      exact .inl (Nat.le_trans hrests hdue)
  | answer command answer hphase =>
      rw [RestsUntil, hphase] at hrests
      exact hrests.elim
  | resume due hphase hdue =>
      -- The pause may have lasted longer than it had to; the interval begins
      -- only now.
      rw [RestsUntil, hphase] at hrests
      exact .inr (Nat.le_trans hrests (Nat.add_le_add_right hdue _))
  | finish => exact .inr trivial

/-- A refusal puts the loop to rest for the retry delay and one interval. -/
theorem Step.rests_after_refusal {cause : Fault}
    (h : Step settings made now i l (.answer i (.error cause)) l') :
    l'.RestsUntil settings (now + settings.retryDelay.toNanos + settings.interval.toNanos) := by
  cases h with
  | answer => exact Nat.le_refl _

end ControlLoop

namespace ControlPlane

variable {p p' : ControlPlane} {now moment : Instant} {m : ControlMove} {i : Nat} {l : ControlLoop}
variable {command : Command}

/-- A move of a loop is a step of that loop. -/
theorem Step.of_loop (h : Step now p m p') (hm : m.loop? = some i) :
    ∃ l l', p.loops[i]? = some l ∧ p'.loops[i]? = some l' ∧
      l.Step p.controller.settings p.controller.evaluate.1 now i m l' := by
  cases h with
  | tick _ l hl hphase hdue =>
      cases hm
      have hafter : (p.tick now i l).loops[i]? =
          some (l.tick p.controller.settings now p.controller.evaluate.1) :=
        getElem?_setLoop_self (p := { p with controller := p.controller.evaluate.2 }) hl
      exact ⟨l, _, hl, hafter, .tick hphase hdue⟩
  | answer _ l command answer hl hphase =>
      cases hm
      have hheard : (p.hear answer).loops[i]? = some l := by rwa [hear_loops]
      exact ⟨l, _, hl, getElem?_setLoop_self hheard, .answer command answer hphase⟩
  | resume _ l due hl hphase hdue =>
      cases hm
      exact ⟨l, _, hl, getElem?_setLoop_self hl, .resume due hphase hdue⟩
  | finish _ l hl _ hwaiting =>
      cases hm
      exact ⟨l, _, hl, getElem?_setLoop_self hl, .finish hwaiting⟩
  | _ => cases hm

/-- A loop that is there makes a step of its own or stays as it is. -/
theorem Step.loop_steps (h : Step now p m p') (hl : p.loops[i]? = some l) :
    p'.loops[i]? = some l ∨ ∃ l', p'.loops[i]? = some l' ∧
      l.Step p.controller.settings p.controller.evaluate.1 now i m l' := by
  by_cases hm : m.loop? = some i
  · obtain ⟨l₀, l', hl₀, hl', hstep⟩ := h.of_loop hm
    rw [hl] at hl₀
    cases hl₀
    exact .inr ⟨l', hl', hstep⟩
  · have hthere : ¬(m = .start ∧ p.loops.length = i) := by
      rintro ⟨-, rfl⟩
      simp at hl
    rw [h.loop_eq hm hthere]
    exact .inl hl

/-- A loop takes a tick when it waits for one that is due. -/
theorem Step.tick_awaited (h : Step now p (.tick i) p') (hl : p.loops[i]? = some l) :
    l.phase = .awaitingTick ∧ l.nextTick ≤ now := by
  obtain ⟨l₀, _, hl₀, -, hstep⟩ := h.of_loop rfl
  rw [hl] at hl₀
  cases hl₀
  cases hstep with
  | tick hphase hdue => exact ⟨hphase, hdue⟩

end ControlPlane

namespace ControlRun

variable {settings : ControlSettings} {balancers : List Balancer}
variable {past earlier later : List ControlEvent} {x : ControlEvent} {now : Instant}
variable {p : ControlPlane} {i : Nat} {command : Command} {cause : Fault}

/-- Since a round of the loop handed over its command, the sink has it or has
answered it. -/
theorem submitting_since (h : ControlRun settings balancers (earlier ++ x :: later) now p)
    (hx : x.move = .tick i) (hcommand : x.command? = some command) :
    (∃ l, p.loops[i]? = some l ∧ l.phase = .submitting command) ∨
      ∃ z ∈ later, (∃ answer, z.move = .answer i answer) ∧ z.answered = [command] := by
  refine h.since (fun between _ p => (∃ l, p.loops[i]? = some l ∧ l.phase = .submitting command) ∨
    ∃ z ∈ between, (∃ answer, z.move = .answer i answer) ∧ z.answered = [command]) ?_ ?_
  · have hpossible : x.Possible := h.at_event.2.2
    rw [ControlEvent.Possible, hx] at hpossible
    rw [ControlEvent.command?, hx] at hcommand
    obtain ⟨_, l', -, hl', hstep⟩ := hpossible.of_loop rfl
    generalize hmade : x.before.controller.evaluate.1 = made at hstep
    rw [hmade] at hcommand
    cases hstep with
    | tick =>
        obtain rfl : made = some command := hcommand
        exact .inl ⟨_, hl', rfl⟩
  · rintro between y - - hpossible (⟨l, hl, hphase⟩ | ⟨z, hz, hanswered⟩)
    · rcases hpossible.loop_steps hl with hkept | ⟨l', -, hstep⟩
      · exact .inl ⟨l, hkept, hphase⟩
      · obtain ⟨answer, hmove⟩ := hstep.answer_of_submitting hphase
        refine .inr ⟨y, by simp, ⟨answer, hmove⟩, ?_⟩
        rw [ControlEvent.answered, hmove]
        simp [hl, ControlLoop.submitted?_of_submitting hphase]
    · exact .inr ⟨z, by simp [hz], hanswered⟩

/-- Since a refusal the loop rests, or the retry delay and one interval are
over. -/
theorem rests_since (h : ControlRun settings balancers (earlier ++ x :: later) now p)
    (hx : x.move = .answer i (.error cause)) :
    x.time + settings.retryDelay.toNanos + settings.interval.toNanos ≤ now ∨
      ∃ l, p.loops[i]? = some l ∧ l.RestsUntil settings
        (x.time + settings.retryDelay.toNanos + settings.interval.toNanos) := by
  refine h.since (fun _ now p =>
    x.time + settings.retryDelay.toNanos + settings.interval.toNanos ≤ now ∨
      ∃ l, p.loops[i]? = some l ∧ l.RestsUntil settings
        (x.time + settings.retryDelay.toNanos + settings.interval.toNanos)) ?_ ?_
  · obtain ⟨hrun, -, hpossible⟩ := h.at_event
    rw [ControlEvent.Possible, hx] at hpossible
    obtain ⟨_, l', -, hl', hstep⟩ := hpossible.of_loop rfl
    rw [hrun.controller_frame.1] at hstep
    exact .inr ⟨l', hl', hstep.rests_after_refusal⟩
  · rintro between y hrun htime hpossible (hover | ⟨l, hl, hrests⟩)
    · exact .inl (Nat.le_trans hover htime)
    · rcases hpossible.loop_steps hl with hkept | ⟨l', hl', hstep⟩
      · exact .inr ⟨l, hkept, hrests⟩
      · rw [hrun.controller_frame.1] at hstep
        exact (hstep.keeps_resting hrests).imp_right fun hrests' => ⟨l', hl', hrests'⟩

/-- The rounds of a loop never overlap: before a loop begins another round, the
sink has answered the command of the round before. And after a refusal no round
of the loop begins before the retry delay and one interval are over, whatever
ticks were missed meanwhile. -/
theorem rounds_keep_distance (h : ControlRun settings balancers past now p) :
    (∀ earlier x between y later i command, past = earlier ++ x :: between ++ y :: later →
      x.move = .tick i → x.command? = some command → y.move = .tick i →
      ∃ z ∈ between, (∃ answer, z.move = .answer i answer) ∧ z.answered = [command]) ∧
    ∀ earlier x between y later i cause, past = earlier ++ x :: between ++ y :: later →
      x.move = .answer i (.error cause) → y.move = .tick i →
      x.time + settings.retryDelay.toNanos + settings.interval.toNanos ≤ y.time := by
  refine ⟨?_, ?_⟩
  · rintro earlier x between y later i command rfl hx hcommand hy
    obtain ⟨hrun, -, hpossible⟩ := h.at_event
    rw [ControlEvent.Possible, hy] at hpossible
    rcases hrun.submitting_since hx hcommand with ⟨l, hl, hphase⟩ | hanswered
    · obtain ⟨hawaiting, -⟩ := hpossible.tick_awaited hl
      cases hphase.symm.trans hawaiting
    · exact hanswered
  · rintro earlier x between y later i cause rfl hx hy
    obtain ⟨hrun, htime, hpossible⟩ := h.at_event
    rw [ControlEvent.Possible, hy] at hpossible
    rcases hrun.rests_since hx with hover | ⟨l, hl, hrests⟩
    · exact Nat.le_trans hover htime
    · obtain ⟨hawaiting, hdue⟩ := hpossible.tick_awaited hl
      rw [ControlLoop.RestsUntil, hawaiting] at hrests
      exact Nat.le_trans hrests hdue

def hasty : ControlSettings := { interval := .ofMillis 10, retryDelay := .ofMillis 20 }

/-- The sink has the command of a loop from 0 ms to 35 ms and refuses it. Three
ticks were missed by then, and a fourth falls into the pause. -/
def missedTicks : List (Instant × ControlMove) :=
  [(0, .start), (0, .tick 0), (35000000, .answer 0 (.error (.command (.rejected "busy")))),
    (55000000, .resume 0), (65000000, .tick 0)]

theorem rounds_keep_distance_despite_missed_ticks : ∃ first round refusal pause next p command,
    ControlRun hasty insistent [first, round, refusal, pause, next] next.time p ∧
      round.move = .tick 0 ∧ round.command? = some command ∧ next.move = .tick 0 ∧
      (∃ z ∈ [refusal, pause], (∃ answer, z.move = .answer 0 answer) ∧ z.answered = [command]) ∧
      refusal.move = .answer 0 (.error (.command (.rejected "busy"))) ∧
      refusal.time + hasty.retryDelay.toNanos + hasty.interval.toNanos ≤ next.time ∧
      refusal.time = 35000000 ∧ next.time = 65000000 := by
  have hpossible : (ControlPlane.play? [] 0 (.initial ⟨hasty, insistent, [], {}⟩)
      missedTicks).map (fun made => made.1.map (·.command?.isSome)) =
        some [false, true, false, false, true] := by
    decide +kernel
  obtain ⟨⟨past, now, p⟩, hplay, hcommands⟩ := Option.map_eq_some_iff.mp hpossible
  have hrun : ControlRun hasty insistent past now p :=
    ControlPlane.run_of_play (.of_valid (by decide) insistent) (by decide) hplay
  have hplayed : past.map (fun x => (x.time, x.move)) = missedTicks := ControlPlane.played hplay
  simp only [missedTicks, List.map_eq_cons_iff, List.map_eq_nil_iff] at hplayed
  obtain ⟨first, _, rfl, -, round, _, rfl, hround, refusal, _, rfl, hrefusal, pause, _, rfl, -,
    next, _, rfl, hnext, rfl⟩ := hplayed
  have hwhole : ControlRun hasty insistent ([first, round, refusal, pause] ++ [next]) now p := hrun
  obtain ⟨rfl, rfl⟩ := hwhole.last_after
  have hmade : round.command?.isSome = true := (List.cons.inj (List.cons.inj hcommands).2).1
  obtain ⟨command, hcommand⟩ := Option.isSome_iff_exists.mp hmade
  obtain ⟨hanswered, hrested⟩ := rounds_keep_distance hrun
  obtain ⟨hsince, hround⟩ := Prod.mk.inj hround
  obtain ⟨hrefused, hrefusal⟩ := Prod.mk.inj hrefusal
  obtain ⟨hdue, hnext⟩ := Prod.mk.inj hnext
  exact ⟨first, round, refusal, pause, next, _, command, hrun, hround, hcommand, hnext,
    hanswered [first] round [refusal, pause] next [] 0 command rfl hround hcommand hnext, hrefusal,
    hrested [first, round] refusal [pause] next [] 0 _ rfl hrefusal hnext, hrefused, hdue⟩

end ControlRun

end RangeKeeper
