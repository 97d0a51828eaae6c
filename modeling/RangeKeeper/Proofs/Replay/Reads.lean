import RangeKeeper.Proofs.Replay.Idle
import RangeKeeper.Proofs.Replay.Transitions

/-!
The reads of the log. A read is scheduled right behind the position of the
driver. Commit indexes, and outcomes of superseded installs, are heard while it
is in flight, and none of them moves the position; what would move it also drops
the read. So the answer meets the position that the read was scheduled for. Once
an answer said that the log is compacted there, no read is scheduled until the
driver takes a commit index or the outcome of the install that is pending.
-/

namespace RangeKeeper

/-- What gets the driver to read again after a read of what is compacted. -/
def Occurrence.Rearms (x : Occurrence) (after : Subscription) : Prop :=
  x.takenOff (·.commits) after ≠ [] ∨
    ∃ event ∈ x.takenOff (·.events) after, x.before.pendingInstall = some event.seq

instance (x : Occurrence) (after : Subscription) : Decidable (x.Rearms after) :=
  inferInstanceAs (Decidable (_ ∨ _))

/-- The read was scheduled in the history, right behind the position, and since
then it has been in flight and the position has stayed. -/
def ScheduledIn (past : List Occurrence) (s : Subscription) (f : Fetch) : Prop :=
  ∃ earlier x later, past = earlier ++ x :: later ∧ x.move = .drive ∧ x.before.fetch = none ∧
    f.start.toNat = x.before.lastFetched.toNat + 1 ∧ s.lastFetched = x.before.lastFetched ∧
    ∀ y ∈ later, y.before.fetch.map (·.start) = some f.start ∧
      y.before.lastFetched = x.before.lastFetched

theorem ScheduledIn.snoc {past : List Occurrence} {x : Occurrence} {s : Subscription}
    {f g : Fetch} (h : ScheduledIn past x.before f) (hfetch : x.before.fetch = some f)
    (hstart : f.start = g.start) (hposition : s.lastFetched = x.before.lastFetched) :
    ScheduledIn (past ++ [x]) s g := by
  obtain ⟨earlier, y, later, rfl, hdrive, hnone, hbehind, hstays, hsince⟩ := h
  refine ⟨earlier, y, later ++ [x], by simp, hdrive, hnone, ?_, hposition.trans hstays, ?_⟩
  · rw [← hstart]
    exact hbehind
  · intro z hz
    rcases List.mem_append.mp hz with hz | hz
    · rw [← hstart]
      exact hsince z hz
    · rw [List.mem_singleton.mp hz, hfetch, ← hstart]
      exact ⟨rfl, hstays⟩

namespace Subscription

variable {s s' : Subscription} {now : Instant} {m : Move}

/-- A read that is in flight after a step was scheduled in it or was in flight
before. -/
theorem Step.in_flight {g : Fetch} (h : Step now s m s') (hf : s.FetchDisciplined)
    (hfetch : s'.fetch = some g) :
    s'.lastFetched = s.lastFetched ∧
      ((m = .drive ∧ s.fetch = none ∧ g.start.toNat = s.lastFetched.toNat + 1) ∨
        ∃ f, s.fetch = some f ∧ f.start = g.start) := by
  have hbehind := (h.disciplined hf g hfetch).2.2.2
  cases h.effect with
  | leave | preempt | handOn | readCompacted | readFailed => cases hfetch
  | schedule _ hwants =>
      simp only [wantsFetch, Bool.and_eq_true, Option.isNone_iff_eq_none] at hwants
      exact ⟨rfl, .inl ⟨rfl, hwants.1.1.1, hbehind⟩⟩
  | settle _ _ _ _ _ hseq => cases (hf.none_of_pending hseq).symm.trans hfetch
  | beginRead f hbefore =>
      cases hfetch
      exact ⟨rfl, .inr ⟨f, hbefore, rfl⟩⟩
  | _ => exact ⟨rfl, .inr ⟨g, hfetch, rfl⟩⟩

/-- While nothing rearms it, a disarmed driver that has no read in flight stays
like that. -/
theorem Step.stays_disarmed (h : Step now s m s') (hquiet : ¬Occurrence.Rearms ⟨now, s, m⟩ s')
    (harmed : s.armed = false) (hfetch : s.fetch = none) :
    m ≠ .beginRead ∧ s'.armed = false ∧ s'.fetch = none := by
  cases h.effect with
  | leave | preempt => exact ⟨by simp, harmed, rfl⟩
  | schedule _ hwants => simp [wantsFetch, harmed] at hwants
  | settle event _ _ hdriving hevents hseq =>
      refine absurd (.inr ⟨event, ?_, hseq⟩) hquiet
      exact Occurrence.mem_takenOff_head rfl hdriving hevents
  | learn index _ hdriving hcommits =>
      refine absurd (.inl ?_) hquiet
      exact List.ne_nil_of_mem (Occurrence.mem_takenOff_head rfl hdriving hcommits)
  | beginRead _ hsome | handOn _ _ hsome | readCompacted _ _ hsome | readFailed _ _ hsome =>
      cases hfetch.symm.trans hsome
  | _ => exact ⟨by simp, harmed, hfetch⟩

/-- A read that found the log compacted leaves the driver disarmed, with no read
in flight. -/
theorem Step.disarmed_of_compacted (h : Step now s m s')
    (hfound : Occurrence.FoundCompacted ⟨now, s, m⟩) : s'.armed = false ∧ s'.fetch = none := by
  obtain ⟨cause, hmove, hcause⟩ := hfound
  obtain rfl : m = .endRead (.error cause) := hmove
  cases h with
  | endRead => simp [onFetched, hcause]

end Subscription

open Subscription

namespace Run

variable {settings : ReplaySettings} {first : UInt64} {past earlier later : List Occurrence}
variable {now : Instant} {s : Subscription} {x : Occurrence}

/-- Every read in flight was scheduled for the position that the driver is
at. -/
theorem scheduled_in (h : Run Interleaved settings first past now s) {f : Fetch}
    (hfetch : s.fetch = some f) : ScheduledIn past s f := by
  induction h generalizing f with
  | start hstart =>
      rw [start_eq hstart] at hfetch
      cases hfetch
  | @step past before now m s s' hrun _ hstep ih =>
      obtain ⟨hposition, ⟨hdrive, hnone, hbehind⟩ | ⟨g, hbefore, hstart⟩⟩ :=
        Step.in_flight hstep (disciplined_of_run hrun) hfetch
      · exact ⟨past, ⟨now, s, m⟩, [], rfl, hdrive, hnone, hbehind, hposition, by simp⟩
      · have hsince : ScheduledIn past s g := ih hbefore
        exact ScheduledIn.snoc (x := ⟨now, s, m⟩) hsince hbefore hstart hposition

/-- After a read of what is compacted nothing is read until the driver is
rearmed. -/
theorem waits_after_compacted (h : Run Interleaved settings first (earlier ++ x :: later) now s)
    (hfound : x.FoundCompacted) (hquiet : ∀ t ∈ transitions later s, ¬t.1.Rearms t.2) :
    s.armed = false ∧ s.fetch = none ∧
      ∀ y ∈ later, y.move ≠ .beginRead ∧ y.before.fetch = none := by
  induction later using List.reverseRecOn generalizing now s with
  | nil =>
      obtain ⟨harmed, hfetch⟩ := Step.disarmed_of_compacted h.last_step.2 hfound
      exact ⟨harmed, hfetch, by simp⟩
  | append_singleton rest y ih =>
      rw [transitions_append] at hquiet
      rw [← List.cons_append, ← List.append_assoc] at h
      obtain ⟨⟨before, hrun⟩, hstep⟩ := h.last_step
      obtain ⟨harmed, hfetch, hidle⟩ := ih hrun fun t ht => hquiet t (by simp [ht])
      have hlast : ¬y.Rearms s := hquiet (y, s) (by simp [transitions])
      obtain ⟨hbegin, harmed', hfetch'⟩ := Step.stays_disarmed hstep hlast harmed hfetch
      refine ⟨harmed', hfetch', ?_⟩
      intro z hz
      rcases List.mem_append.mp hz with hz | hz
      · exact hidle z hz
      · rw [List.mem_singleton.mp hz]
        exact ⟨hbegin, hfetch⟩

/-- A read is in flight only while no install is pending, reading is armed and
the position is below the commit index, and it starts right behind the position.
So what it brings is judged by the position that it was scheduled for, and the
successor of that position is a word. After a read of what is compacted nothing
is read until the driver has taken a commit index or the outcome of the install
that is pending then. -/
theorem reads_keep_to_position (h : Run Interleaved settings first past now s) :
    (∀ f, s.fetch = some f → s.pendingInstall = none ∧ s.armed = true ∧
      (∃ c, s.commit = some c ∧ s.lastFetched < c) ∧
      f.start = s.lastFetched + 1 ∧ s.lastFetched.toNat + 1 < UInt64.size) ∧
    (∀ earlier x later answer, past = earlier ++ x :: later → x.move = .endRead answer →
      ∃ f, x.before.fetch = some f ∧ ScheduledIn earlier x.before f) ∧
    ∀ earlier x later, past = earlier ++ x :: later → x.FoundCompacted →
      (∀ t ∈ transitions later s, ¬t.1.Rearms t.2) →
      s.armed = false ∧ s.fetch = none ∧
        ∀ y ∈ later, y.move ≠ .beginRead ∧ y.before.fetch = none := by
  refine ⟨?_, ?_, ?_⟩
  · intro f hfetch
    obtain ⟨hpending, harmed, hcommit, hstart⟩ := disciplined_of_run h f hfetch
    have hbound : s.lastFetched.toNat + 1 < UInt64.size := by
      rw [← hstart]
      exact f.start.toNat_lt
    refine ⟨hpending, harmed, hcommit, ?_, hbound⟩
    apply UInt64.toNat.inj
    obtain ⟨c, -, hlt⟩ := hcommit
    rw [hstart, toNat_succ_of_lt hlt]
  · rintro earlier x later answer rfl hmove
    obtain ⟨before, s', hrun, _, hstep⟩ := h.at_occurrence
    rw [hmove] at hstep
    cases hstep with
    | endRead f _ hfetch => exact ⟨f, hfetch, hrun.scheduled_in hfetch⟩
  · rintro earlier x later rfl hfound hquiet
    exact h.waits_after_compacted hfound hquiet

/-- A read near the greatest word. A smaller commit index is heard while it is
in flight, and the log is compacted. Of the two snapshots that follow, the
outcome of the superseded one is heard. -/
def compactedAtTheEnd : List (Instant × Move) :=
  [(0, .receive (.commit 18446744073709551615)), (0, .drive), (0, .drive), (0, .beginRead),
    (1, .receive (.commit 5)), (1, .drive),
    (1, .endRead (.error (.log (.compacted 18446744073709551614 18446744073709551615)))),
    (2, .receive (.install ⟨⟨1, 1⟩, 1, "", 9, .normal⟩ "store1")), (2, .drive), (2, .work),
    (2, .receive (.install ⟨⟨1, 1⟩, 1, "", 10, .normal⟩ "store2")), (2, .drive), (2, .work),
    (2, .drive)]

theorem reads_keep_to_position_at_the_end :
    ∃ earlier x later now s,
      Run Interleaved {} 18446744073709551613 (earlier ++ x :: later) now s ∧
      x.FoundCompacted ∧ x.before.commit = some 18446744073709551615 ∧
      (∃ f, x.before.fetch = some f ∧ f.start = 18446744073709551614 ∧
        ScheduledIn earlier x.before f) ∧
      gathered (Occurrence.takenOff (·.events)) later s = [.aborted 1 18446744073709551613] ∧
      s.pendingInstall = some 2 ∧ (∀ t ∈ transitions later s, ¬t.1.Rearms t.2) ∧
      s.armed = false ∧ s.fetch = none ∧ ∀ y ∈ later, y.move ≠ .beginRead := by
  obtain ⟨fresh, past, s, x, hstart, hplay, hsplit, hmove, hcommit, hfetch, hheard, hpending,
      hquiet⟩ :
      ∃ fresh past s x, Subscription.start {} 18446744073709551613 = .ok fresh ∧
        play? [] fresh compactedAtTheEnd = some (past, s) ∧
        past = past.take 6 ++ x :: past.drop 7 ∧
        x.move =
          .endRead (.error (.log (.compacted 18446744073709551614 18446744073709551615))) ∧
        x.before.commit = some 18446744073709551615 ∧
        x.before.fetch.map (·.start) = some 18446744073709551614 ∧
        gathered (Occurrence.takenOff (·.events)) (past.drop 7) s =
          [.aborted 1 18446744073709551613] ∧
        s.pendingInstall = some 2 ∧ ∀ t ∈ transitions (past.drop 7) s, ¬t.1.Rearms t.2 :=
    ⟨_, _, _, _, rfl, rfl, rfl, rfl, rfl, rfl, rfl, rfl, by decide⟩
  obtain ⟨now, hrun⟩ := run_of_play (.start hstart) (by decide) hplay
  rw [hsplit] at hrun
  have hfound : x.FoundCompacted := ⟨_, hmove, rfl⟩
  obtain ⟨-, hanswered, hwaits⟩ := reads_keep_to_position hrun.interleaved
  obtain ⟨f, hbefore, hscheduled⟩ := hanswered _ x _ _ rfl hmove
  obtain ⟨harmed, hnone, hidle⟩ := hwaits _ x _ rfl hfound hquiet
  rw [hbefore] at hfetch
  exact ⟨_, x, _, now, s, hrun.interleaved, hfound, hcommit,
    ⟨f, hbefore, Option.some.inj hfetch, hscheduled⟩, hheard, hpending, hquiet, harmed, hnone,
    fun y hy => (hidle y hy).1⟩

end Run

end RangeKeeper
