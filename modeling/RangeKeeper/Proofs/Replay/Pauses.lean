import RangeKeeper.Proofs.Replay.Reads

/-!
The pause before a read is made again. A read that fails, or that brings nothing
above the position, leaves a note behind, and the next read is scheduled with
the pause that the note asks for. From then on the driver sleeps on that read:
commit indexes that it hears meanwhile change neither the moment nor the place
at which it reads, and a snapshot drops the read, after which nothing is read
before the outcome of an install is there. So until an outcome is taken the next
read comes no earlier than the pause is over, from the same entry on, and no
read begins while another one waits for its answer.
-/

namespace RangeKeeper

namespace Occurrence

def Settles (x : Occurrence) (after : Subscription) : Prop :=
  ∃ event ∈ x.takenOff (·.events) after, x.before.pendingInstall = some event.seq

instance (x : Occurrence) (after : Subscription) : Decidable (x.Settles after) :=
  inferInstanceAs (Decidable (∃ event ∈ x.takenOff (·.events) after, _))

/-- The log answers a read without bringing it forward: the read failed, though
not because of a compaction, or no entry that it found is above the position. -/
def Fruitless (x : Occurrence) : Prop :=
  (∃ cause, x.move = .endRead (.error cause) ∧ cause.isCompaction = false) ∨
    ∃ entries, x.move = .endRead (.ok entries) ∧ ∀ e ∈ entries, e.index ≤ x.before.lastFetched

/-- The log answers the read in flight, or a snapshot that is taken up makes the
driver drop it. -/
def EndsRead (x : Occurrence) (after : Subscription) : Prop :=
  (∃ answer, x.move = .endRead answer) ∨ x.takenOff (·.snapshots) after ≠ []

end Occurrence

/-- No outcome of an install that reading waited for was taken in the stretch
that led to the state. -/
def Unsettled (during : List Occurrence) (s : Subscription) : Prop :=
  ∀ t ∈ transitions during s, ¬t.1.Settles t.2

instance (during : List Occurrence) (s : Subscription) : Decidable (Unsettled during s) :=
  inferInstanceAs (Decidable (∀ t ∈ transitions during s, _))

theorem unsettled_snoc {during : List Occurrence} {x : Occurrence} {s : Subscription} :
    Unsettled (during ++ [x]) s ↔ Unsettled during x.before ∧ ¬x.Settles s := by
  rw [Unsettled, transitions_snoc]
  simp [Unsettled, or_imp, forall_and]

namespace Subscription

/-- No read is in flight, and none can be scheduled before an outcome is
taken. -/
def Withheld (s : Subscription) : Prop :=
  s.fetch = none ∧ (s.pendingInstall ≠ none ∨ s.driving = false)

variable {s s' : Subscription} {now : Instant} {m : Move}

theorem Withheld.wants_nothing (h : s.Withheld) (hdriving : s.driving = true) :
    s.wantsFetch = false := by
  rcases h.2 with hpending | hgone
  · obtain ⟨n, hpending⟩ := Option.ne_none_iff_exists'.mp hpending
    simp [wantsFetch, hpending]
  · cases hdriving.symm.trans hgone

/-- Since the moment the driver has to pause: it has yet to schedule a read and
will do so with a pause, or it sleeps on a read that is not due before the pause
is over, or it may not read at all. -/
inductive PausesSince (moment : Instant) (s : Subscription) : Prop where
  | unscheduled : s.fetch = none → s.retryFetch = true → PausesSince moment s
  | asleep (f : Fetch) : s.fetch = some f → f.reading = false →
      moment + s.settings.fetchRetryDelay.toNanos ≤ f.due → PausesSince moment s
  | withheld : s.Withheld → PausesSince moment s

/-- A driver that has to pause reads only when the pause is over. -/
theorem PausesSince.over {moment : Instant} (hs : s.PausesSince moment) {f : Fetch}
    (hfetch : s.fetch = some f) (hdue : f.due ≤ now) :
    moment + s.settings.fetchRetryDelay.toNanos ≤ now := by
  cases hs with
  | unscheduled hnone => cases hnone.symm.trans hfetch
  | asleep g hsome _ hlate =>
      cases hsome.symm.trans hfetch
      exact Nat.le_trans hlate hdue
  | withheld hwithheld => cases hwithheld.1.symm.trans hfetch

/-- A driver that has to pause waits for no answer. -/
theorem PausesSince.not_reading {moment : Instant} (hs : s.PausesSince moment) {f : Fetch}
    (hfetch : s.fetch = some f) : f.reading = false := by
  cases hs with
  | unscheduled hnone => cases hnone.symm.trans hfetch
  | asleep g hsome hasleep =>
      cases hsome.symm.trans hfetch
      exact hasleep
  | withheld hwithheld => cases hwithheld.1.symm.trans hfetch

theorem PausesSince.of_same {moment : Instant} (hs : s.PausesSince moment)
    (hsettings : s'.settings = s.settings) (hfetch : s'.fetch = s.fetch)
    (hretry : s'.retryFetch = s.retryFetch) (hpending : s'.pendingInstall = s.pendingInstall)
    (hdriving : s'.driving = s.driving) : s'.PausesSince moment := by
  cases hs with
  | unscheduled hnone hwanted => exact .unscheduled (hfetch.trans hnone) (hretry.trans hwanted)
  | asleep f hsome hasleep hdue =>
      rw [← hsettings] at hdue
      exact .asleep f (hfetch.trans hsome) hasleep hdue
  | withheld hwithheld =>
      rw [Withheld, ← hfetch, ← hpending, ← hdriving] at hwithheld
      exact .withheld hwithheld

/-- The note to pause is used up when a read is scheduled: the pause is part of
the read from then on. -/
theorem PausesSince.schedule {moment : Instant} (hs : s.PausesSince moment)
    (hdriving : s.driving = true) (hwants : s.wantsFetch = true) (htime : moment ≤ now) :
    (s.scheduleFetch now).PausesSince moment := by
  cases hs with
  | unscheduled _ hwanted =>
      refine .asleep _ rfl rfl ?_
      simp only [scheduleFetch, hwanted, if_true]
      exact Nat.add_le_add_right htime _
  | asleep f hsome => simp [wantsFetch, hsome] at hwants
  | withheld hwithheld => cases hwants.symm.trans (hwithheld.wants_nothing hdriving)

/-- The driver keeps its pause and its position until it reads, which is when
the pause is over. -/
theorem Step.pauses {moment : Instant} (h : Step now s m s')
    (hquiet : ¬Occurrence.Settles ⟨now, s, m⟩ s') (htime : moment ≤ now)
    (hs : s.PausesSince moment) :
    (m ≠ .beginRead ∧ s'.lastFetched = s.lastFetched ∧ s'.PausesSince moment) ∨
      (m = .beginRead ∧ moment + s.settings.fetchRetryDelay.toNanos ≤ now) := by
  cases h.effect with
  | leave => exact .inl ⟨by simp, rfl, .withheld ⟨rfl, .inr rfl⟩⟩
  | preempt => exact .inl ⟨by simp, rfl, .withheld ⟨rfl, .inl (by simp)⟩⟩
  | schedule hdriving hwants =>
      exact .inl ⟨by simp, rfl, hs.schedule hdriving hwants htime⟩
  | settle event _ _ hdriving hevents hseq =>
      exact absurd ⟨event, Occurrence.mem_takenOff_head rfl hdriving hevents, hseq⟩ hquiet
  | beginRead f hfetch _ hdue => exact .inr ⟨rfl, hs.over hfetch hdue⟩
  | handOn f _ hfetch hreading | readCompacted f _ hfetch hreading
  | readFailed f _ hfetch hreading => cases hreading.symm.trans (hs.not_reading hfetch)
  | _ => exact .inl ⟨by simp, rfl, hs.of_same rfl rfl rfl rfl rfl⟩

def Occupied (s : Subscription) : Prop :=
  (∃ f, s.fetch = some f ∧ f.reading = true) ∨ s.fetch = none ∧ s.driving = false

/-- No other read begins before a read has ended. -/
theorem Step.occupied (h : Step now s m s') (hopen : ¬Occurrence.EndsRead ⟨now, s, m⟩ s')
    (hs : s.Occupied) : m ≠ .beginRead ∧ s'.Occupied := by
  cases h.effect with
  | leave => exact ⟨by simp, .inr ⟨rfl, rfl⟩⟩
  | preempt task _ _ hdriving hsnapshots =>
      refine absurd (.inr ?_) hopen
      exact List.ne_nil_of_mem (Occurrence.mem_takenOff_head rfl hdriving hsnapshots)
  | schedule hdriving hwants =>
      rcases hs with ⟨f, hfetch, _⟩ | ⟨_, hgone⟩
      · simp [wantsFetch, hfetch] at hwants
      · cases hdriving.symm.trans hgone
  | beginRead g hsome hfresh =>
      rcases hs with ⟨f, hfetch, hreading⟩ | ⟨hnone, _⟩
      · cases hfetch.symm.trans hsome
        cases hreading.symm.trans hfresh
      · cases hnone.symm.trans hsome
  | handOn | readCompacted | readFailed => exact absurd (.inl ⟨_, rfl⟩) hopen
  | _ => exact ⟨by simp, hs⟩

/-- What is not above the position is not handed on. -/
theorem accept_of_le {last : UInt64} {entries : List LogEntry}
    (h : ∀ e ∈ entries, e.index ≤ last) : accept last entries = [] := by
  induction entries with
  | nil => rfl
  | cons e rest ih =>
      have hhead : e.index ≤ last := h e (by simp)
      rw [accept, if_pos hhead]
      exact ih fun d hd => h d (by simp [hd])

/-- After a fruitless read the driver has to pause, at the position where it
was. -/
theorem Step.pauses_of_fruitless {moment : Instant} (h : Step now s m s')
    (hfruitless : Occurrence.Fruitless ⟨now, s, m⟩) :
    s'.PausesSince moment ∧ s'.lastFetched = s.lastFetched := by
  rcases hfruitless with ⟨cause, hmove, hcause⟩ | ⟨entries, hmove, hold⟩
  · obtain rfl : m = .endRead (.error cause) := hmove
    cases h.effect with
    | readCompacted _ _ _ _ hcompacted => cases hcause.symm.trans hcompacted
    | readFailed => exact ⟨.unscheduled rfl rfl, rfl⟩
  · obtain rfl : m = .endRead (.ok entries) := hmove
    have hnone : accept s.lastFetched entries = [] := accept_of_le hold
    cases h.effect with
    | handOn =>
        refine ⟨.unscheduled rfl ?_, ?_⟩
        · simp [onFetched, hnone]
        · simp [onFetched, hnone, lastIndexOf]

end Subscription

open Subscription

/-- A fruitless read was in flight until its answer came. -/
theorem Occurrence.Fruitless.fetch {x : Occurrence} {s : Subscription} (hx : x.Fruitless)
    (h : Step x.time x.before x.move s) : ∃ f, x.before.fetch = some f := by
  obtain ⟨answer, hmove⟩ : ∃ answer, x.move = .endRead answer := by
    rcases hx with ⟨cause, hmove, _⟩ | ⟨entries, hmove, _⟩
    · exact ⟨_, hmove⟩
    · exact ⟨_, hmove⟩
  rw [hmove] at h
  cases h with
  | endRead f _ hfetch => exact ⟨f, hfetch⟩

namespace Run

variable {settings : ReplaySettings} {first : UInt64} {past earlier later : List Occurrence}
variable {now : Instant} {s : Subscription} {x : Occurrence}

theorem settings_eq (h : Run Interleaved settings first past now s) : s.settings = settings := by
  refine invariant ?_ (fun _ _ _ _ hstep hs => hstep.settings_eq.trans hs) h
  intro s hstart
  rw [start_eq hstart]

/-- Time does not go back. -/
theorem time_le (h : Run Interleaved settings first (earlier ++ x :: later) now s) :
    x.time ≤ now :=
  h.since (fun _ now _ => x.time ≤ now) (fun _ _ _ _ _ => Nat.le_refl _)
    fun _ _ _ _ _ htime _ hle => Nat.le_trans hle htime

/-- Since a fruitless read the driver has paused where it was, or it has read
again, not before the pause was over. -/
theorem pauses_since (h : Run Interleaved settings first (earlier ++ x :: later) now s)
    (hx : x.Fruitless) : Unsettled later s →
      ((∀ y ∈ later, y.move ≠ .beginRead) ∧ s.lastFetched = x.before.lastFetched ∧
        s.PausesSince x.time) ∨
      ((∃ y ∈ later, y.move = .beginRead) ∧
        x.time + settings.fetchRetryDelay.toNanos ≤ now) := by
  refine h.since (fun later now s => Unsettled later s →
    ((∀ y ∈ later, y.move ≠ .beginRead) ∧ s.lastFetched = x.before.lastFetched ∧
      s.PausesSince x.time) ∨
    ((∃ y ∈ later, y.move = .beginRead) ∧
      x.time + settings.fetchRetryDelay.toNanos ≤ now)) ?_ ?_
  · intro before s' _ _ hstep _
    obtain ⟨hpauses, hposition⟩ := Step.pauses_of_fruitless hstep hx
    exact .inl ⟨by simp, hposition, hpauses⟩
  · intro between before y s' hrun htime hstep ih hunsettled
    obtain ⟨hbefore, hquiet⟩ := unsettled_snoc.mp hunsettled
    rcases ih hbefore with ⟨hnone, hposition, hpauses⟩ | ⟨⟨z, hz, hread⟩, hover⟩
    · have hsince : x.time ≤ y.time := Nat.le_trans hrun.time_le htime
      rcases Step.pauses hstep hquiet hsince hpauses with
        ⟨hbegin, hstays, hpauses'⟩ | ⟨hbegin, hlate⟩
      · refine .inl ⟨?_, hstays.trans hposition, hpauses'⟩
        intro z hz
        rcases List.mem_append.mp hz with hz | hz
        · exact hnone z hz
        · rw [List.mem_singleton.mp hz]
          exact hbegin
      · rw [hrun.settings_eq] at hlate
        exact .inr ⟨⟨y, by simp, hbegin⟩, hlate⟩
    · exact .inr ⟨⟨z, by simp [hz], hread⟩, Nat.le_trans hover htime⟩

/-- Since a read began it has ended, or it is still in flight or was dropped for
good. -/
theorem occupied_since (h : Run Interleaved settings first (earlier ++ x :: later) now s)
    (hx : x.move = .beginRead) :
    (∃ t ∈ transitions later s, t.1.EndsRead t.2) ∨ s.Occupied := by
  refine h.since (fun later _ s => (∃ t ∈ transitions later s, t.1.EndsRead t.2) ∨ s.Occupied) ?_ ?_
  · intro before s' _ _ hstep
    rw [hx] at hstep
    cases hstep with
    | beginRead f => exact .inr (.inl ⟨_, rfl, rfl⟩)
  · intro between before y s' _ _ hstep ih
    rw [transitions_snoc]
    rcases ih with ⟨t, ht, hends⟩ | hoccupied
    · exact .inl ⟨t, by simp [ht], hends⟩
    · by_cases hends : y.EndsRead s'
      · exact .inl ⟨(y, s'), by simp, hends⟩
      · exact .inr (Step.occupied hstep hends hoccupied).2

/-- After a read that failed, though not because of a compaction, or that
brought nothing above the position, no read begins before the retry delay is
over, unless the outcome of an install was taken in between; and the next one
begins at the same entry. Whatever is heard meanwhile, and at any other time, no
read begins before the one before it was answered or was dropped for a
snapshot. -/
theorem fruitless_reads_pause (h : Run Interleaved settings first past now s) :
    (∀ earlier x between y later, past = earlier ++ x :: between ++ y :: later →
      x.Fruitless → y.move = .beginRead → Unsettled between y.before →
      x.time + settings.fetchRetryDelay.toNanos ≤ y.time ∧
      ((∀ z ∈ between, z.move ≠ .beginRead) → ∃ f g, x.before.fetch = some f ∧
        y.before.fetch = some g ∧ g.start = f.start)) ∧
    ∀ earlier x between y later, past = earlier ++ x :: between ++ y :: later →
      x.move = .beginRead → y.move = .beginRead →
      ∃ t ∈ transitions between y.before, t.1.EndsRead t.2 := by
  refine ⟨?_, ?_⟩
  · rintro earlier x between y later rfl hx hy hunsettled
    obtain ⟨before, s', hrun, htime, hstep⟩ := h.at_occurrence
    rw [hy] at hstep
    cases hstep with
    | beginRead g hfetch _ hdue =>
        rcases hrun.pauses_since hx hunsettled with ⟨hnone, hposition, hpauses⟩ | ⟨hread, hover⟩
        · have hlate := hpauses.over hfetch hdue
          rw [hrun.settings_eq] at hlate
          obtain ⟨_, _, hthen, _, hanswered⟩ := hrun.at_occurrence
          obtain ⟨f, hbefore⟩ := hx.fetch hanswered
          refine ⟨hlate, fun _ => ⟨f, g, hbefore, hfetch, ?_⟩⟩
          apply UInt64.toNat.inj
          calc g.start.toNat
            _ = y.before.lastFetched.toNat + 1 := (disciplined_of_run hrun g hfetch).2.2.2
            _ = x.before.lastFetched.toNat + 1 := by rw [hposition]
            _ = f.start.toNat := (disciplined_of_run hthen f hbefore).2.2.2.symm
        · refine ⟨Nat.le_trans hover htime, fun hnone => ?_⟩
          obtain ⟨z, hz, hbegin⟩ := hread
          exact absurd hbegin (hnone z hz)
  · rintro earlier x between y later rfl hx hy
    obtain ⟨before, s', hrun, _, hstep⟩ := h.at_occurrence
    rw [hy] at hstep
    cases hstep with
    | beginRead g hfetch hfresh =>
        rcases hrun.occupied_since hx with hended | ⟨f, hsome, hreading⟩ | ⟨hnone, _⟩
        · exact hended
        · cases hfetch.symm.trans hsome
          cases hreading.symm.trans hfresh
        · cases hfetch.symm.trans hnone

def patient : ReplaySettings := { fetchRetryDelay := .ofMillis 10 }

/-- A read fails at 5 ms. A commit index is heard at 7 ms, and the next read
waits until 15 ms. -/
def heardMeanwhile : List (Instant × Move) :=
  [(0, .receive (.commit 2)), (0, .drive), (0, .drive), (0, .beginRead),
    (5000000, .endRead (.error (.log (.readFailed "busy")))), (5000000, .drive),
    (7000000, .receive (.commit 9)), (7000000, .drive), (15000000, .beginRead)]

theorem fruitless_reads_pause_heard_meanwhile :
    ∃ earlier r x between y now s,
      Run Interleaved patient 0 (earlier ++ r :: x :: between ++ [y]) now s ∧
      r.move = .beginRead ∧ x.Fruitless ∧ y.move = .beginRead ∧
      Unsettled between y.before ∧ between.filterMap Occurrence.commit? = [9] ∧
      x.time = 5000000 ∧ y.time = 15000000 ∧
      x.time + patient.fetchRetryDelay.toNanos ≤ y.time ∧
      (∃ f g, x.before.fetch = some f ∧ y.before.fetch = some g ∧ g.start = f.start) ∧
      ∃ t ∈ transitions (x :: between) y.before, t.1.EndsRead t.2 := by
  obtain ⟨fresh, past, s, r, x, y, hstart, hplay, hwhole, hbegun, hanswer, hagain, hmoves, hheard,
      hfailed, hresumed, hquiet⟩ :
      ∃ fresh past s r x y, Subscription.start patient 0 = .ok fresh ∧
        play? [] fresh heardMeanwhile = some (past, s) ∧
        past = past.take 3 ++ r :: x :: (past.take 8).drop 5 ++ [y] ∧
        r.move = .beginRead ∧ x.move = .endRead (.error (.log (.readFailed "busy"))) ∧
        y.move = .beginRead ∧
        ((past.take 8).drop 5).map (·.move) = [.drive, .receive (.commit 9), .drive] ∧
        ((past.take 8).drop 5).filterMap Occurrence.commit? = [9] ∧
        x.time = 5000000 ∧ y.time = 15000000 ∧ Unsettled ((past.take 8).drop 5) y.before :=
    ⟨_, _, _, _, _, _, rfl, rfl, rfl, rfl, rfl, rfl, rfl, rfl, rfl, rfl, by decide⟩
  obtain ⟨now, hrun⟩ := run_of_play (.start hstart) (by decide) hplay
  have hrun := hrun.interleaved
  have hsplit : past = (past.take 3 ++ [r]) ++ x :: (past.take 8).drop 5 ++ y :: [] := by
    simpa using hwhole
  obtain ⟨hpaused, hsingle⟩ := fruitless_reads_pause hrun
  have hx : x.Fruitless := .inl ⟨_, hanswer, rfl⟩
  have hnone : ∀ z ∈ (past.take 8).drop 5, z.move ≠ .beginRead := by
    intro z hz hbegin
    have hmem : z.move ∈ ((past.take 8).drop 5).map (·.move) := List.mem_map.mpr ⟨z, hz, rfl⟩
    rw [hmoves, hbegin] at hmem
    simp at hmem
  obtain ⟨hlate, hstart⟩ := hpaused _ x _ y _ hsplit hx hagain hquiet
  have hended := hsingle _ r _ y _ hwhole hbegun hagain
  rw [hwhole] at hrun
  exact ⟨_, r, x, _, y, now, s, hrun, hbegun, hx, hagain, hquiet, hheard, hfailed, hresumed, hlate,
    hstart hnone, hended⟩

end Run

end RangeKeeper
