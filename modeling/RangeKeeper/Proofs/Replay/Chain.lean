import RangeKeeper.Proofs.Replay.Installs

/-!
The chain between the two positions of a subscription. The worker stands at the
entry applied last, the driver at the entry fetched last, and while no install
is pending the entries in hand lead from the one to the other. While one is
pending they need not: what was dropped for the snapshot is missing, and the
outcome that the driver waits for will carry the position to go on from. How one
index leads to the next is a parameter. A log that answers reads with
consecutive entries gives consecutive chains; any log at all gives ascending
ones.
-/

namespace RangeKeeper

def Task.entry? : Task → Option LogEntry
  | .entry e => some e
  | .install _ _ => none

/-- From `a` the entries lead, one after the other, to `b`. -/
def Linked (r : UInt64 → UInt64 → Prop) : UInt64 → List LogEntry → UInt64 → Prop
  | a, [], b => a = b
  | a, entry :: rest, b => r a entry.index ∧ Linked r entry.index rest b

theorem Linked.append {r : UInt64 → UInt64 → Prop} {a b c : UInt64} {xs ys : List LogEntry}
    (hxs : Linked r a xs b) (hys : Linked r b ys c) : Linked r a (xs ++ ys) c := by
  induction xs generalizing a with
  | nil =>
      obtain rfl : a = b := hxs
      exact hys
  | cons entry rest ih => exact ⟨hxs.1, ih hxs.2⟩

namespace Subscription

/-- The entries that were fetched and not yet applied: the one that the worker
holds, then the queue. -/
def inHand (s : Subscription) : List LogEntry :=
  s.work.entry?.toList ++ s.queue.filterMap Task.entry?

def ReadLinked (r : UInt64 → UInt64 → Prop) (s : Subscription) (entries : List LogEntry) : Prop :=
  Linked r s.lastFetched (accept s.lastFetched entries)
    (lastIndexOf s.lastFetched (accept s.lastFetched entries))

structure Chained (r : UInt64 → UInt64 → Prop) (s : Subscription) : Prop where
  tracked : s.InstallsTracked
  linked : s.pendingInstall = none → Linked r s.lastApplied s.inHand s.lastFetched
  uncancelled : ∀ entry, s.pendingInstall = none → s.work.entry? = some entry →
    s.taskCancelled = false
  reported : ∀ n, s.pendingInstall = some n →
    ∀ e ∈ s.events, e.seq = n → e.position = s.lastApplied

/-- The entry that the worker holds comes next after the one applied last. -/
def HeldNext (r : UInt64 → UInt64 → Prop) (s : Subscription) : Prop :=
  ∀ entry, s.work.entry? = some entry → r s.lastApplied entry.index

variable {r : UInt64 → UInt64 → Prop} {s s' : Subscription} {now : Instant} {m : Move}

theorem inHand_of_held {entry : LogEntry} (h : s.work.entry? = some entry) :
    s.inHand = entry :: s.queue.filterMap Task.entry? := by
  simp [inHand, h]

theorem inHand_of_free (h : s.work.entry? = none) :
    s.inHand = s.queue.filterMap Task.entry? := by
  simp [inHand, h]

/-- What a read handed on comes to hand behind what is there. -/
theorem inHand_onFetched (s : Subscription) (entries : List LogEntry) :
    (s.onFetched (.ok entries)).inHand = s.inHand ++ accept s.lastFetched entries := by
  have hqueued : ((accept s.lastFetched entries).map Task.entry).filterMap Task.entry? =
      accept s.lastFetched entries := by
    rw [List.filterMap_map]
    exact List.filterMap_some
  simp only [inHand, onFetched, List.filterMap_append, hqueued, List.append_assoc]

/-- While the worker is busy the pending install has not been reported. -/
theorem InstallsTracked.unreported (h : s.InstallsTracked) {n : Nat}
    (hpending : s.pendingInstall = some n)
    (hbusy : ¬(s.work.install? = none ∧ s.work.entry? = none)) :
    ∀ e ∈ s.events, e.seq ≠ n := by
  intro e he
  rintro rfl
  exact hbusy (h.free_of_reported he hpending).2

/-- An install in the worker's hands is pending, or another one is. -/
theorem InstallsTracked.pending_of_held (h : s.InstallsTracked) {task : InstallTask} {seq : Nat}
    (hheld : s.work.install? = some (task, seq)) : s.pendingInstall ≠ none := by
  intro hnone
  have hfree := (h.free hnone).2
  rw [hheld] at hfree
  cases hfree

namespace Chained

/-- The driver hears the outcome that it waits for. Once the install was
reported nothing is in hand, so the two positions meet in the outcome. -/
theorem settle (h : Chained r s) (htracked : s'.InstallsTracked) {event : InstallEvent}
    {rest : List InstallEvent} {commit : Option UInt64} (hevents : s.events = event :: rest)
    (hseq : s.pendingInstall = some event.seq)
    (hafter : s' = { s with
      events := rest
      pendingInstall := none
      lastFetched := event.position
      commit := commit
      armed := true
      retryFetch := false }) : Chained r s' := by
  subst hafter
  have hmem : event ∈ s.events := by simp [hevents]
  have hposition := h.reported event.seq hseq event hmem rfl
  obtain ⟨hempty, _, hidle⟩ := h.tracked.free_of_reported hmem hseq
  refine ⟨htracked, fun _ => ?_, ?_, ?_⟩
  · change Linked r s.lastApplied s.inHand event.position
    rw [inHand_of_free hidle, hempty, hposition]
    rfl
  · intro entry _ hheld
    cases hidle.symm.trans hheld
  · intro n hn
    cases hn

theorem overhear (h : Chained r s) {event : InstallEvent} {rest : List InstallEvent}
    (hevents : s.events = event :: rest) (htracked : InstallsTracked { s with events := rest }) :
    Chained r { s with events := rest } := by
  refine ⟨htracked, h.linked, h.uncancelled, ?_⟩
  intro n hn e he
  exact h.reported n hn e (by simp [hevents, show e ∈ rest from he])

/-- What was dropped for a snapshot is missing from the chain, until the install
is settled. -/
theorem preempt (h : Chained r s) (htracked : s'.InstallsTracked)
    (hpending : s'.pendingInstall = some (s.installSeq + 1)) (hevents : s'.events = s.events) :
    Chained r s' := by
  refine ⟨htracked, ?_, ?_, ?_⟩
  · intro hnone
    cases hpending.symm.trans hnone
  · intro _ hnone
    cases hpending.symm.trans hnone
  · intro n hn e he hseq
    cases hpending.symm.trans hn
    rw [hevents] at he
    have hle := h.tracked.reported_le e he
    exact absurd hle (by rw [hseq]; exact Nat.not_succ_le_self _)

theorem extend (h : Chained r s) (hpending : s.pendingInstall = none) {entries : List LogEntry}
    (hread : ReadLinked r s entries) : Chained r (s.onFetched (.ok entries)) := by
  refine ⟨h.tracked.extend hpending entries, fun _ => ?_, h.uncancelled, h.reported⟩
  rw [inHand_onFetched]
  exact (h.linked hpending).append hread

theorem takeEntry (h : Chained r s) (htracked : s'.InstallsTracked) {entry : LogEntry}
    {rest : List Task} {due : Instant} (hidle : s.work = .idle)
    (hqueue : s.queue = .entry entry :: rest)
    (hafter : s' = { s with
      queue := rest
      work := .waiting entry 0 due
      taskCancelled := false }) : Chained r s' := by
  subst hafter
  refine ⟨htracked, fun hnone => ?_, fun _ _ _ => rfl, h.reported⟩
  have hlinked := h.linked hnone
  rw [inHand_of_free (by rw [hidle]; rfl), hqueue] at hlinked
  exact hlinked

/-- A worker that holds an install holds up the chain. -/
theorem of_install (h : Chained r s) (htracked : s'.InstallsTracked) {held : InstallTask × Nat}
    (hheld : s'.work.install? = some held) (hpending : s'.pendingInstall = s.pendingInstall)
    (hevents : s'.events = s.events) (hlast : s'.lastApplied = s.lastApplied) : Chained r s' := by
  refine ⟨htracked, fun hnone => ?_, ?_, ?_⟩
  · exact absurd hnone (htracked.pending_of_held hheld)
  · intro entry _ hentry
    cases (Work.entry_of_install hheld).symm.trans hentry
  · rw [hpending, hevents, hlast]
    exact h.reported

/-- The worker goes on with the entry that it holds. -/
theorem keepHeld (h : Chained r s) (htracked : s'.InstallsTracked) {entry : LogEntry}
    {work : Work} {metrics : ReplayMetrics} (hheld : s.work.entry? = some entry)
    (hkept : work.entry? = some entry) (hafter : s' = { s with work := work, metrics := metrics }) :
    Chained r s' := by
  subst hafter
  refine ⟨htracked, fun hnone => ?_, fun _ hnone _ => ?_, h.reported⟩
  · rw [inHand_of_held hkept]
    have hlinked := h.linked hnone
    rw [inHand_of_held hheld] at hlinked
    exact hlinked
  · exact h.uncancelled entry hnone hheld

/-- The worker gives up its entry only for an install. -/
theorem giveUp (h : Chained r s) (htracked : s'.InstallsTracked) {entry : LogEntry}
    {metrics : ReplayMetrics} (hheld : s.work.entry? = some entry)
    (hcancelled : s.taskCancelled = true)
    (hafter : s' = { s with work := .idle, metrics := metrics }) : Chained r s' := by
  subst hafter
  refine ⟨htracked, fun hnone => ?_, ?_, h.reported⟩
  · cases hcancelled.symm.trans (h.uncancelled entry hnone hheld)
  · intro _ _ hidle
    cases hidle

/-- The apply went through: the chain is one entry shorter. -/
theorem advance (h : Chained r s) (htracked : s'.InstallsTracked) {entry : LogEntry}
    {metrics : ReplayMetrics} (hheld : s.work.entry? = some entry)
    (hafter : s' = { s with work := .idle, lastApplied := entry.index, metrics := metrics }) :
    Chained r s' := by
  subst hafter
  refine ⟨htracked, fun hnone => ?_, ?_, ?_⟩
  · have hlinked := h.linked hnone
    rw [inHand_of_held hheld] at hlinked
    exact hlinked.2
  · intro _ _ hidle
    cases hidle
  · intro n hn e he hseq
    exact absurd hseq (h.tracked.unreported hn (by simp [hheld]) e he)

/-- The install is over: its outcome carries the position of the worker. -/
theorem report (h : Chained r s) {task : InstallTask} {event : InstallEvent}
    {requests : List RequestState} {metrics : ReplayMetrics}
    (hheld : s.work.install? = some (task, event.seq)) :
    Chained r { s with
      work := .idle
      lastApplied := event.position
      events := s.events ++ [event]
      requests := requests
      metrics := metrics } := by
  refine ⟨h.tracked.report hheld, fun hnone => ?_, ?_, ?_⟩
  · exact absurd hnone (h.tracked.pending_of_held hheld)
  · intro _ _ hidle
    cases hidle
  · intro n hn e he hseq
    rcases List.mem_append.mp he with hold | hnew
    · exact absurd hseq (h.tracked.unreported hn (by simp [hheld]) e hold)
    · rw [List.mem_singleton.mp hnew]

end Chained

/-- Until the subscription is stopped, every step keeps the chain, if every read
extends it. -/
theorem Step.chained (h : Step now s m s') (hlive : s'.stopped = false) (hf : s.FetchDisciplined)
    (hread : ∀ entries, m = .endRead (.ok entries) → ReadLinked r s entries) (hc : Chained r s) :
    Chained r s' := by
  have hbefore := h.live_before hlive
  have htracked := h.tracked hlive hf hc.tracked
  cases h.effect with
  | signal | schedule | learn | beginRead | readCompacted | readFailed =>
      exact ⟨htracked, hc.linked, hc.uncancelled, hc.reported⟩
  | leave _ _ hstopped => cases hbefore.symm.trans hstopped
  | settle _ _ _ _ hevents hseq => exact hc.settle htracked hevents hseq rfl
  | overhear _ _ _ hevents => exact hc.overhear hevents htracked
  | preempt => exact hc.preempt htracked rfl rfl
  | handOn f entries hfetch => exact hc.extend (hf f hfetch).1 (hread entries rfl)
  | finish _ hstopped => cases hbefore.symm.trans hstopped
  | takeEntry _ _ hidle _ hqueue => exact hc.takeEntry htracked hidle hqueue rfl
  | takeInstall | beginInstall => exact hc.of_install htracked rfl rfl rfl rfl
  | giveUp _ hheld hcancelled =>
      have hcancelled : s.taskCancelled = true := by
        simpa [isCancelled, hbefore] using hcancelled
      exact hc.giveUp htracked hheld hcancelled rfl
  | beginApply _ _ hheld => exact hc.keepHeld htracked hheld rfl rfl
  | applied _ _ hwork => exact hc.advance htracked (Work.entry_of_applying hwork).1 rfl
  | refused _ _ _ _ hwork => exact hc.keepHeld htracked (Work.entry_of_applying hwork).1 rfl rfl
  | abort _ _ _ hheld | installed _ _ _ _ hheld | installFailed _ _ _ _ hheld =>
      exact hc.report hheld

/-- A worker without an entry does not hold the wrong one. -/
theorem HeldNext.of_free (h : s.work.entry? = none) : HeldNext r s := by
  intro entry hentry
  cases h.symm.trans hentry

theorem HeldNext.keepHeld {entry : LogEntry} (h : HeldNext r s) (hheld : s.work.entry? = some entry)
    (hkept : s'.work.entry? = some entry) (hlast : s'.lastApplied = s.lastApplied) :
    HeldNext r s' := by
  intro entry' hentry
  cases hkept.symm.trans hentry
  rw [hlast]
  exact h entry hheld

/-- The first entry of the queue continues the chain. -/
theorem Chained.next_of_queued (h : Chained r s) {entry : LogEntry} {rest : List Task}
    (hidle : s.work = .idle) (hqueue : s.queue = .entry entry :: rest) :
    r s.lastApplied entry.index := by
  have hlinked := h.linked (h.tracked.pending_of_entry hqueue)
  rw [inHand_of_free (by rw [hidle]; rfl), hqueue] at hlinked
  exact hlinked.1

/-- Stopped or not, every step leaves the worker with the entry that comes next,
or with none. -/
theorem Step.held_next (h : Step now s m s') (hc : s.stopped = false → Chained r s)
    (hheld : HeldNext r s) : HeldNext r s' := by
  cases h.effect with
  | takeEntry entry rest hidle hlive hqueue =>
      intro entry' hentry
      cases hentry
      exact (hc hlive).next_of_queued hidle hqueue
  | beginApply _ _ hbefore => exact hheld.keepHeld hbefore rfl rfl
  | refused _ _ _ _ hwork => exact hheld.keepHeld (Work.entry_of_applying hwork).1 rfl rfl
  | finish | takeInstall | giveUp | applied => exact .of_free rfl
  | abort | beginInstall | installed | installFailed => exact .of_free rfl
  | _ => exact hheld

/-- After every history whose reads extend the chain, the worker holds the entry
that comes next, and until the subscription is stopped the chain holds. -/
theorem chained_of_run {settings : ReplaySettings} {first : UInt64} {past : List Occurrence}
    (h : Run Interleaved settings first past now s)
    (hreads : ∀ x ∈ past, ∀ entries, x.move = .endRead (.ok entries) →
      ReadLinked r x.before entries) :
    HeldNext r s ∧ (s.stopped = false → Chained r s) := by
  induction h with
  | start hstart =>
      have htracked := InstallsTracked.of_start hstart
      rw [start_eq hstart] at htracked ⊢
      refine ⟨fun _ hentry => ?_, fun _ => ⟨htracked, fun _ => rfl, fun _ _ _ => rfl, ?_⟩⟩
      · cases hentry
      · intro _ hn
        cases hn
  | @step past before now m s s' hrun _ hstep ih =>
      obtain ⟨hheld, hc⟩ := ih fun x hx => hreads x (by simp [hx])
      refine ⟨Step.held_next hstep hc hheld, fun hlive => ?_⟩
      exact Step.chained hstep hlive (disciplined_of_run hrun)
        (fun entries hm => hreads ⟨now, s, m⟩ (by simp) entries hm)
        (hc (Step.live_before hstep hlive))

end Subscription

end RangeKeeper
