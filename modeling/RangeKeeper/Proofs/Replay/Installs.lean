import RangeKeeper.Proofs.Replay.Frame

/-!
What the driver waits for. While an install is pending, exactly one thing stands
for it: the queued task, the task that the worker holds, or its outcome on the
way to the driver. Outcomes of superseded installs have smaller numbers, so none
of them can be taken for it. A read is in flight only while no install is
pending, and then it begins right behind the last entry fetched. The first of
these holds until the subscription is stopped, the second always.
-/

namespace RangeKeeper

namespace Subscription

/-- The install numbered `n` is queued, held by the worker, or reported. -/
def Awaits (s : Subscription) (n : Nat) : Prop :=
  (∃ task, s.queue = [.install task n] ∧
    (∀ held m, s.work.install? = some (held, m) → m < n) ∧ ∀ e ∈ s.events, e.seq < n) ∨
  (∃ task, s.queue = [] ∧ s.work.install? = some (task, n) ∧ ∀ e ∈ s.events, e.seq < n) ∨
  (∃ event, s.queue = [] ∧ s.work.install? = none ∧ s.work.entry? = none ∧
    event ∈ s.events ∧ event.seq = n)

structure InstallsTracked (s : Subscription) : Prop where
  driving : s.driving = true
  pending : ∀ n, s.pendingInstall = some n → n = s.installSeq ∧ s.Awaits n
  free : s.pendingInstall = none →
    (∀ task ∈ s.queue, task.isEntry = true) ∧ s.work.install? = none
  reported_le : ∀ e ∈ s.events, e.seq ≤ s.installSeq
  ascending : s.events.Pairwise fun a b => a.seq < b.seq
  held_after : ∀ task m, s.work.install? = some (task, m) → ∀ e ∈ s.events, e.seq < m

def FetchDisciplined (s : Subscription) : Prop :=
  ∀ f, s.fetch = some f → s.pendingInstall = none ∧ s.armed = true ∧
    (∃ c, s.commit = some c ∧ s.lastFetched < c) ∧ f.start.toNat = s.lastFetched.toNat + 1

namespace InstallsTracked

variable {s s' : Subscription}

/-- The install that the worker holds is the pending one or was superseded by
it. -/
theorem held_le (h : s.InstallsTracked) {task : InstallTask} {m : Nat}
    (hheld : s.work.install? = some (task, m)) : m ≤ s.installSeq := by
  cases hpending : s.pendingInstall with
  | none =>
      have hfree := (h.free hpending).2
      rw [hheld] at hfree
      cases hfree
  | some n =>
      obtain ⟨hn, hawaits⟩ := h.pending n hpending
      rcases hawaits with ⟨_, _, hbefore, _⟩ | ⟨_, _, hwork, _⟩ | ⟨_, _, hwork, _⟩
      · have := hbefore task m hheld
        omega
      · rw [hheld] at hwork
        cases hwork
        omega
      · rw [hheld] at hwork
        cases hwork

/-- A queued entry means that no install is pending. -/
theorem pending_of_entry (h : s.InstallsTracked) {entry : LogEntry} {rest : List Task}
    (hqueue : s.queue = .entry entry :: rest) : s.pendingInstall = none := by
  cases hpending : s.pendingInstall with
  | none => rfl
  | some n =>
      rcases (h.pending n hpending).2 with ⟨_, hinstall, _⟩ | ⟨_, hempty, _⟩ | ⟨_, hempty, _⟩
      · rw [hqueue] at hinstall
        cases hinstall
      · rw [hqueue] at hempty
        cases hempty
      · rw [hqueue] at hempty
        cases hempty

/-- A queued install is the one that the driver waits for. -/
theorem pending_of_queued (h : s.InstallsTracked) {task : InstallTask} {seq : Nat}
    {rest : List Task} (hqueue : s.queue = .install task seq :: rest) :
    s.pendingInstall = some seq := by
  cases hpending : s.pendingInstall with
  | none =>
      have hentry := (h.free hpending).1 (.install task seq) (by simp [hqueue])
      cases hentry
  | some n =>
      have hawaits := (h.pending n hpending).2
      rw [Awaits, hqueue] at hawaits
      rcases hawaits with ⟨_, hsingle, _⟩ | ⟨_, hempty, _⟩ | ⟨_, hempty, _⟩
      · cases hsingle
        rfl
      · cases hempty
      · cases hempty

/-- Of two outcomes on their way, the one that is taken first is not the one
that is waited for. -/
theorem superseded_first (h : s.InstallsTracked) {first event : InstallEvent}
    {rest : List InstallEvent} (hevents : s.events = first :: rest) (hmem : event ∈ rest)
    (hpending : s.pendingInstall = some event.seq) : s.pendingInstall ≠ some first.seq := by
  have hascending := h.ascending
  rw [hevents] at hascending
  have hlt : first.seq < event.seq := (List.pairwise_cons.mp hascending).1 event hmem
  rw [hpending, Ne, Option.some.injEq]
  omega

/-- Once the outcome of the pending install is on its way, nothing is queued and
the worker is free. -/
theorem free_of_reported (h : s.InstallsTracked) {event : InstallEvent}
    (hmem : event ∈ s.events) (hpending : s.pendingInstall = some event.seq) :
    s.queue = [] ∧ s.work.install? = none ∧ s.work.entry? = none := by
  rcases (h.pending event.seq hpending).2 with ⟨_, _, _, hbefore⟩ | ⟨_, _, _, hbefore⟩ |
    ⟨_, hempty, hnone, hidle, _⟩
  · exact absurd (hbefore event hmem) (Nat.lt_irrefl _)
  · exact absurd (hbefore event hmem) (Nat.lt_irrefl _)
  · exact ⟨hempty, hnone, hidle⟩

/-- Only the queue, the outcomes and what the worker holds matter; an entry may
leave the worker. -/
theorem of_same (h : s.InstallsTracked) (hdriving : s'.driving = s.driving)
    (hpending : s'.pendingInstall = s.pendingInstall) (hseq : s'.installSeq = s.installSeq)
    (hqueue : s'.queue = s.queue) (hevents : s'.events = s.events)
    (hinstall : s'.work.install? = s.work.install?)
    (hentry : s.work.entry? = none → s'.work.entry? = none) : s'.InstallsTracked := by
  constructor
  · rw [hdriving]
    exact h.driving
  · intro n hn
    rw [hpending] at hn
    obtain ⟨hlatest, hawaits⟩ := h.pending n hn
    refine ⟨by rw [hseq, hlatest], ?_⟩
    unfold Awaits
    rw [hqueue, hevents, hinstall]
    rcases hawaits with hqueued | hheld | ⟨event, hempty, hnone, hidle, hevent⟩
    · exact .inl hqueued
    · exact .inr (.inl hheld)
    · exact .inr (.inr ⟨event, hempty, hnone, hentry hidle, hevent⟩)
  · rw [hpending, hqueue, hinstall]
    exact h.free
  · rw [hevents, hseq]
    exact h.reported_le
  · rw [hevents]
    exact h.ascending
  · rw [hinstall, hevents]
    exact h.held_after

/-- What becomes of the entry that the worker holds is nothing to the
installs. -/
theorem of_entry (h : s.InstallsTracked) {entry : LogEntry} {work : Work} {lastApplied : UInt64}
    {metrics : ReplayMetrics} (hheld : s.work.entry? = some entry) (hfree : work.install? = none) :
    InstallsTracked { s with work := work, lastApplied := lastApplied, metrics := metrics } := by
  refine h.of_same rfl rfl rfl rfl rfl (hfree.trans (Work.install_of_entry hheld).symm) ?_
  intro hnone
  cases hheld.symm.trans hnone

/-- The driver takes a snapshot off its stream, and the new install is queued
alone. -/
theorem preempt (h : s.InstallsTracked) {task : InstallTask} {rest : List InstallTask}
    {requests : List RequestState} {metrics : ReplayMetrics} :
    InstallsTracked { s with
      snapshots := rest
      queue := [.install task (s.installSeq + 1)]
      taskCancelled := true
      fetch := none
      installSeq := s.installSeq + 1
      pendingInstall := some (s.installSeq + 1)
      requests := requests
      metrics := metrics } := by
  have hreported : ∀ e ∈ s.events, e.seq < s.installSeq + 1 := by
    intro e he
    have := h.reported_le e he
    omega
  constructor
  · exact h.driving
  · intro n hn
    cases hn
    refine ⟨rfl, .inl ⟨task, rfl, ?_, hreported⟩⟩
    intro held m hheld
    exact Nat.lt_succ_of_le (h.held_le hheld)
  · intro hnone
    cases hnone
  · intro e he
    exact Nat.le_of_lt (hreported e he)
  · exact h.ascending
  · exact h.held_after

/-- The driver hears the outcome that it waits for. -/
theorem settle (h : s.InstallsTracked) {event : InstallEvent} {rest : List InstallEvent}
    {commit : Option UInt64} (hevents : s.events = event :: rest)
    (hseq : s.pendingInstall = some event.seq) :
    InstallsTracked { s with
      events := rest
      pendingInstall := none
      lastFetched := event.position
      commit := commit
      armed := true
      retryFetch := false } := by
  have hmem : event ∈ s.events := by simp [hevents]
  have hrest : ∀ e ∈ rest, e ∈ s.events := by simp +contextual [hevents]
  have hascending := h.ascending
  rw [hevents] at hascending
  -- Its outcome is here, so the pending install is neither queued nor held.
  obtain ⟨hempty, hnone, _⟩ := h.free_of_reported hmem hseq
  constructor
  · exact h.driving
  · intro n hn
    cases hn
  · intro _
    refine ⟨?_, hnone⟩
    intro task htask
    rw [hempty] at htask
    cases htask
  · exact fun e he => h.reported_le e (hrest e he)
  · exact (List.pairwise_cons.mp hascending).2
  · exact fun task m hheld e he => h.held_after task m hheld e (hrest e he)

/-- The driver hears the outcome of a superseded install. -/
theorem overhear (h : s.InstallsTracked) {event : InstallEvent} {rest : List InstallEvent}
    (hevents : s.events = event :: rest) (hother : s.pendingInstall ≠ some event.seq) :
    InstallsTracked { s with events := rest } := by
  have hrest : ∀ e ∈ rest, e ∈ s.events := by simp +contextual [hevents]
  have hascending := h.ascending
  rw [hevents] at hascending
  constructor
  · exact h.driving
  · intro n hn
    obtain ⟨hlatest, hawaits⟩ := h.pending n hn
    refine ⟨hlatest, ?_⟩
    rcases hawaits with ⟨task, hqueue, hheld, hbefore⟩ | ⟨task, hqueue, hheld, hbefore⟩ |
      ⟨own, hqueue, hnone, hidle, hown, hownseq⟩
    · exact .inl ⟨task, hqueue, hheld, fun e he => hbefore e (hrest e he)⟩
    · exact .inr (.inl ⟨task, hqueue, hheld, fun e he => hbefore e (hrest e he)⟩)
    · refine .inr (.inr ⟨own, hqueue, hnone, hidle, ?_, hownseq⟩)
      rw [hevents] at hown
      rcases List.mem_cons.mp hown with rfl | hown
      · exact absurd (hownseq ▸ hn) hother
      · exact hown
  · exact h.free
  · exact fun e he => h.reported_le e (hrest e he)
  · exact (List.pairwise_cons.mp hascending).2
  · exact fun task m hheld e he => h.held_after task m hheld e (hrest e he)

/-- The worker takes up an entry, which is queued only while no install is
pending. -/
theorem takeEntry (h : s.InstallsTracked) {entry : LogEntry} {rest : List Task} {due : Instant}
    (hqueue : s.queue = .entry entry :: rest) :
    InstallsTracked { s with
      queue := rest
      work := .waiting entry 0 due
      taskCancelled := false } := by
  have hpending := h.pending_of_entry hqueue
  constructor
  · exact h.driving
  · intro n hn
    cases hpending.symm.trans hn
  · intro _
    refine ⟨?_, rfl⟩
    intro task htask
    exact (h.free hpending).1 task (by simp [hqueue, show task ∈ rest from htask])
  · exact h.reported_le
  · exact h.ascending
  · intro held m hheld
    cases hheld

/-- The worker takes up an install, which is the pending one. -/
theorem takeInstall (h : s.InstallsTracked) {task : InstallTask} {seq : Nat} {rest : List Task}
    (hqueue : s.queue = .install task seq :: rest) :
    InstallsTracked { s with
      queue := rest
      work := .preparing task seq
      taskCancelled := false } := by
  have hpending := h.pending_of_queued hqueue
  obtain ⟨hlatest, hawaits⟩ := h.pending seq hpending
  obtain ⟨rfl, hbefore⟩ : rest = [] ∧ ∀ e ∈ s.events, e.seq < seq := by
    rw [Awaits, hqueue] at hawaits
    rcases hawaits with ⟨_, hsingle, _, hbefore⟩ | ⟨_, hempty, _⟩ | ⟨_, hempty, _⟩
    · cases hsingle
      exact ⟨rfl, hbefore⟩
    · cases hempty
    · cases hempty
  constructor
  · exact h.driving
  · intro n hn
    cases hpending.symm.trans hn
    exact ⟨hlatest, .inr (.inl ⟨task, rfl, rfl, hbefore⟩)⟩
  · intro hnone
    cases hpending.symm.trans hnone
  · exact h.reported_le
  · exact h.ascending
  · intro held m hheld e he
    cases hheld
    exact hbefore e he

/-- What was read is queued, which happens only while no install is pending. -/
theorem extend (h : s.InstallsTracked) (hpending : s.pendingInstall = none)
    (entries : List LogEntry) : (s.onFetched (.ok entries)).InstallsTracked := by
  constructor
  · exact h.driving
  · intro n hn
    rw [show s.pendingInstall = some n from hn] at hpending
    cases hpending
  · intro _
    refine ⟨?_, (h.free hpending).2⟩
    intro task htask
    rcases List.mem_append.mp htask with hold | hnew
    · exact (h.free hpending).1 task hold
    · obtain ⟨entry, _, rfl⟩ := List.mem_map.mp hnew
      rfl
  · exact h.reported_le
  · exact h.ascending
  · exact h.held_after

/-- The install that the worker holds is over, and its outcome goes on its
way. -/
theorem report (h : s.InstallsTracked) {task : InstallTask} {event : InstallEvent}
    {lastApplied : UInt64} {requests : List RequestState} {metrics : ReplayMetrics}
    (hheld : s.work.install? = some (task, event.seq)) :
    InstallsTracked { s with
      work := .idle
      lastApplied := lastApplied
      events := s.events ++ [event]
      requests := requests
      metrics := metrics } := by
  have hafter := h.held_after task event.seq hheld
  constructor
  · exact h.driving
  · intro n hn
    obtain ⟨hlatest, hawaits⟩ := h.pending n hn
    refine ⟨hlatest, ?_⟩
    rcases hawaits with ⟨queued, hqueue, hbefore, hevents⟩ | ⟨_, hqueue, hwork, _⟩ |
      ⟨_, _, hwork, _⟩
    · refine .inl ⟨queued, hqueue, ?_, ?_⟩
      · intro held m hnone
        cases hnone
      · intro e he
        rcases List.mem_append.mp he with hold | hnew
        · exact hevents e hold
        · rw [List.mem_singleton.mp hnew]
          exact hbefore task event.seq hheld
    · rw [hheld] at hwork
      cases hwork
      exact .inr (.inr ⟨event, hqueue, rfl, rfl, by simp, rfl⟩)
    · rw [hheld] at hwork
      cases hwork
  · intro hnone
    have hfree := (h.free hnone).2
    rw [hheld] at hfree
    cases hfree
  · intro e he
    rcases List.mem_append.mp he with hold | hnew
    · exact h.reported_le e hold
    · rw [List.mem_singleton.mp hnew]
      exact h.held_le hheld
  · refine List.pairwise_append.mpr ⟨h.ascending, by simp, ?_⟩
    intro a ha b hb
    rw [List.mem_singleton.mp hb]
    exact hafter a ha
  · intro held m hnone
    cases hnone

end InstallsTracked

theorem InstallsTracked.of_start {settings : ReplaySettings} {first : UInt64} {s : Subscription}
    (h : Subscription.start settings first = .ok s) : s.InstallsTracked := by
  rw [start_eq h]
  constructor
  · rfl
  · intro n hn
    cases hn
  · exact fun _ => ⟨by simp, rfl⟩
  · simp
  · simp
  · intro task m hheld
    cases hheld

/-- Until it is stopped, every step keeps track of the pending install. -/
theorem Step.tracked {now : Instant} {s s' : Subscription} {m : Move} (h : Step now s m s')
    (hlive : s'.stopped = false) (hf : s.FetchDisciplined) (ht : s.InstallsTracked) :
    s'.InstallsTracked := by
  have hbefore := h.live_before hlive
  cases h.effect with
  | signal | schedule | learn | beginRead | readCompacted | readFailed =>
      exact ht.of_same rfl rfl rfl rfl rfl rfl id
  | leave _ _ hstopped => cases hbefore.symm.trans hstopped
  | settle _ _ _ _ hevents hseq => exact ht.settle hevents hseq
  | overhear _ _ _ hevents hother => exact ht.overhear hevents hother
  | preempt => exact ht.preempt
  | handOn f entries hfetch => exact ht.extend (hf f hfetch).1 entries
  | finish _ hstopped => cases hbefore.symm.trans hstopped
  | takeEntry _ _ _ _ hqueue => exact ht.takeEntry hqueue
  | takeInstall _ _ _ _ _ hqueue => exact ht.takeInstall hqueue
  | giveUp _ hheld | beginApply _ _ hheld => exact ht.of_entry hheld rfl
  | applied _ _ hwork | refused _ _ _ _ hwork =>
      exact ht.of_entry (Work.entry_of_applying hwork).1 rfl
  | beginInstall _ _ hwork =>
      exact ht.of_same rfl rfl rfl rfl rfl (Work.install_of_preparing hwork).1.symm fun _ => rfl
  | abort _ _ _ hheld | installed _ _ _ _ hheld | installFailed _ _ _ _ hheld =>
      exact ht.report hheld

namespace FetchDisciplined

variable {s : Subscription}

theorem of_none (h : s.fetch = none) : s.FetchDisciplined := by
  intro f hf
  rw [h] at hf
  cases hf

/-- A read is scheduled only where nothing stands in its way. -/
theorem schedule (now : Instant) (hwants : s.wantsFetch = true) :
    (s.scheduleFetch now).FetchDisciplined := by
  simp only [wantsFetch, Bool.and_eq_true, Option.isNone_iff_eq_none, Option.any_eq_true,
    decide_eq_true_eq] at hwants
  obtain ⟨⟨⟨_, hpending⟩, harmed⟩, c, hcommit, hlt⟩ := hwants
  intro f hfetch
  cases hfetch
  exact ⟨hpending, harmed, ⟨c, hcommit, hlt⟩, toNat_succ_of_lt hlt⟩

/-- A commit index that is heard while a read is in flight does not lower the
one known. -/
theorem learn (h : s.FetchDisciplined) (index : UInt64) (rest : List UInt64) :
    ({ s with commits := rest }.onCommit index).FetchDisciplined := by
  intro f hfetch
  obtain ⟨hpending, _, ⟨c, hcommit, hlt⟩, hstart⟩ := h f hfetch
  refine ⟨hpending, rfl, ⟨max c index, by simp [onCommit, hcommit], ?_⟩, hstart⟩
  change s.lastFetched < if c ≤ index then index else c
  split
  next hle => exact UInt64.lt_of_lt_of_le hlt hle
  next => exact hlt

theorem ask (h : s.FetchDisciplined) {f : Fetch} (hfetch : s.fetch = some f) :
    FetchDisciplined { s with fetch := some { f with reading := true } } := by
  intro f' hf'
  cases hf'
  exact h f hfetch

/-- While an install is pending no read is in flight. -/
theorem none_of_pending (h : s.FetchDisciplined) {n : Nat} (hpending : s.pendingInstall = some n) :
    s.fetch = none := by
  cases hfetch : s.fetch with
  | none => rfl
  | some f => cases hpending.symm.trans (h f hfetch).1

end FetchDisciplined

/-- Every step keeps reads to the rules, whether or not the subscription was
stopped. -/
theorem Step.disciplined {now : Instant} {s s' : Subscription} {m : Move} (h : Step now s m s')
    (hf : s.FetchDisciplined) : s'.FetchDisciplined := by
  cases h.effect with
  | leave | preempt | handOn | readCompacted | readFailed => exact .of_none rfl
  | schedule _ hwants => exact .schedule now hwants
  | settle _ _ _ _ _ hseq => exact .of_none (hf.none_of_pending hseq)
  | learn index rest => exact hf.learn index rest
  | beginRead f hfetch => exact hf.ask hfetch
  | _ => exact hf

theorem disciplined_of_run {settings : ReplaySettings} {first : UInt64} {past : List Occurrence}
    {now : Instant} {s : Subscription} (h : Run Interleaved settings first past now s) :
    s.FetchDisciplined := by
  refine h.invariant ?_ fun _ _ _ _ hstep => hstep.disciplined
  intro s hstart
  rw [start_eq hstart]
  exact .of_none rfl

end Subscription

end RangeKeeper
