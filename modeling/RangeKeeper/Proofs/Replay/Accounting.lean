import RangeKeeper.Proofs.Replay.Tasks

/-!
The account of the entries. Every entry that was handed on is in hand until it
is applied or given up, and is counted as the one or the other exactly then. The
counters are words that wrap around, and so does the account.
-/

namespace RangeKeeper

def handedOnIn (past : List Occurrence) : List LogEntry := past.flatMap Occurrence.handedOn

theorem appliedIn_eq (past : List Occurrence) :
    appliedIn past = past.flatMap fun x => x.applied?.toList :=
  List.filterMap_eq_flatMap_toList ..

def cancelledIn (past : List Occurrence) (s : Subscription) : List LogEntry :=
  gathered Occurrence.cancelled past s

namespace Subscription

/-- The entries handed on are those applied, those given up and those in
hand. -/
def Balanced (s : Subscription) : Prop :=
  s.metrics.entriesFetched =
    s.metrics.entriesApplied + s.metrics.appliesCancelled + UInt64.ofNat s.inHand.length

variable {s s' : Subscription} {now : Instant} {m : Move}

theorem length_inHand (s : Subscription) :
    s.inHand.length = s.work.entry?.toList.length + s.queue.countP Task.isEntry := by
  rw [inHand, List.length_append, Task.countP_isEntry]

/-- Every step lets an entry go only by applying it or by cancelling it. -/
theorem Step.entry_flow (h : Step now s m s') :
    (s.inHand ++ Occurrence.handedOn ⟨now, s, m⟩).Perm
      ((Occurrence.applied? ⟨now, s, m⟩).toList ++ Occurrence.cancelled ⟨now, s, m⟩ s' ++
        s'.inHand) := by
  have hflow := h.flow_of_kind Task.entry?
  rw [tasks_entries, tasks_entries, Occurrence.queued_entries, Occurrence.finished_entries,
    List.append_assoc (Option.toList _)] at hflow
  exact hflow

end Subscription

open Subscription

namespace Run

variable {settings : ReplaySettings} {first : UInt64} {past : List Occurrence}
variable {now : Instant} {s : Subscription}

/-- The entries handed on in a history are those applied, those cancelled and
those in hand. -/
theorem entries_flow (h : Run Interleaved settings first past now s) :
    (handedOnIn past).Perm (appliedIn past ++ cancelledIn past s ++ s.inHand) := by
  have hflow := h.flow Subscription.inHand (fun x _ => x.handedOn)
    (fun x after => x.applied?.toList ++ x.cancelled after)
    (fun s hstart => by rw [start_eq hstart]; rfl) (fun _ _ _ _ hstep => Step.entry_flow hstep)
  have hleft := gathered_both (fun x _ => x.applied?.toList) Occurrence.cancelled past s
  rw [gathered_of_moves] at hflow
  rw [gathered_of_moves, ← appliedIn_eq] at hleft
  exact hflow.trans (hleft.append_right _)

/-- The three counters count what was handed on, what was applied and what was
cancelled. -/
theorem entries_counted (h : Run Interleaved settings first past now s) :
    s.metrics.entriesFetched = UInt64.ofNat (handedOnIn past).length ∧
    s.metrics.entriesApplied = UInt64.ofNat (appliedIn past).length ∧
    s.metrics.appliesCancelled = UInt64.ofNat (cancelledIn past s).length := by
  have hzero : ∀ s, Subscription.start settings first = .ok s → s.metrics = {} := by
    intro s hstart
    rw [start_eq hstart]
  have hfetched := h.counted (·.metrics.entriesFetched) (fun x _ => x.handedOn)
    (fun s hstart => by rw [hzero s hstart]) (fun _ _ _ _ hstep => (Step.counts hstep).fetched)
  have happlied := h.counted (·.metrics.entriesApplied) (fun x _ => x.applied?.toList)
    (fun s hstart => by rw [hzero s hstart]) (fun _ _ _ _ hstep => (Step.counts hstep).applied)
  have hcancelled := h.counted (·.metrics.appliesCancelled) Occurrence.cancelled
    (fun s hstart => by rw [hzero s hstart]) (fun _ _ _ _ hstep => (Step.counts hstep).cancelled)
  rw [gathered_of_moves] at hfetched happlied
  rw [← appliedIn_eq] at happlied
  exact ⟨hfetched, happlied, hcancelled⟩

theorem balanced (h : Run Interleaved settings first past now s) : s.Balanced := by
  obtain ⟨hfetched, happlied, hcancelled⟩ := h.entries_counted
  rw [Subscription.Balanced, hfetched, happlied, hcancelled, h.entries_flow.length_eq,
    List.length_append,
    List.length_append, UInt64.ofNat_add, UInt64.ofNat_add]

/-- Entry accounting. At every moment the entries handed on so far are, each as
often as it was handed on, those applied, those cancelled and those in hand, and
the counters say how many of each there were. So the one counter is the sum of
the other two, of the entries that wait in the queue and of the one that the
worker holds, as far as words can tell. -/
theorem entries_accounted (h : Run Interleaved settings first past now s) :
    s.metrics.entriesFetched = s.metrics.entriesApplied + s.metrics.appliesCancelled +
      UInt64.ofNat (s.queue.countP Task.isEntry) + (if s.work.entry?.isSome then 1 else 0) ∧
    (handedOnIn past).Perm (appliedIn past ++ cancelledIn past s ++ s.inHand) ∧
    s.metrics.entriesFetched = UInt64.ofNat (handedOnIn past).length ∧
    s.metrics.entriesApplied = UInt64.ofNat (appliedIn past).length ∧
    s.metrics.appliesCancelled = UInt64.ofNat (cancelledIn past s).length := by
  refine ⟨?_, h.entries_flow, h.entries_counted⟩
  have hheld : (UInt64.ofNat s.work.entry?.toList.length : UInt64) =
      if s.work.entry?.isSome then 1 else 0 := by
    cases s.work.entry? <;> rfl
  have hbalanced := h.balanced
  rw [Subscription.Balanced, length_inHand, Nat.add_comm, UInt64.ofNat_add, hheld,
    ← UInt64.add_assoc]
    at hbalanced
  exact hbalanced

/-- A snapshot arrives while the second of four entries is being applied, and
cannot be installed. What was dropped for it is read again. -/
def readAgain : List (Instant × Move) :=
  [(0, .receive (.commit 4)), (0, .drive), (0, .drive), (0, .beginRead),
    (1, .endRead (.ok [⟨1, 1, []⟩, ⟨2, 1, []⟩, ⟨3, 1, []⟩, ⟨4, 1, []⟩])),
    (1, .work), (1, .beginApply), (2, .endApply (.ok ())),
    (2, .work), (2, .beginApply),
    (3, .receive (.install ⟨⟨1, 1⟩, 1, "", 9, .normal⟩ "store1")),
    (3, .drive), (3, .work), (3, .work),
    (3, .beginInstall), (4, .endInstall (.error (.log (.installFailed "torn")))),
    (4, .drive), (4, .drive), (4, .beginRead),
    (5, .endRead (.ok [⟨2, 1, []⟩, ⟨3, 1, []⟩, ⟨4, 1, []⟩])), (5, .work)]

theorem entries_accounted_read_again :
    ∃ past now s, Run Interleaved {} 0 past now s ∧
      (handedOnIn past).map (·.index) = [1, 2, 3, 4, 2, 3, 4] ∧
      (appliedIn past).map (·.index) = [1] ∧ (cancelledIn past s).map (·.index) = [3, 4, 2] ∧
      s.work.entry?.map (·.index) = some 2 ∧ s.queue.countP Task.isEntry = 2 ∧
      s.metrics.entriesFetched = s.metrics.entriesApplied + s.metrics.appliesCancelled +
        UInt64.ofNat (s.queue.countP Task.isEntry) +
          (if s.work.entry?.isSome then 1 else 0) := by
  obtain ⟨fresh, past, s, hstart, hplay, hlists⟩ :
      ∃ fresh past s, Subscription.start {} 0 = .ok fresh ∧
        play? [] fresh readAgain = some (past, s) ∧
        (handedOnIn past).map (·.index) = [1, 2, 3, 4, 2, 3, 4] ∧
        (appliedIn past).map (·.index) = [1] ∧ (cancelledIn past s).map (·.index) = [3, 4, 2] ∧
        s.work.entry?.map (·.index) = some 2 ∧ s.queue.countP Task.isEntry = 2 :=
    ⟨_, _, _, rfl, rfl, rfl, rfl, rfl, rfl, rfl⟩
  obtain ⟨now, hrun⟩ := run_of_play (.start hstart) (by decide) hplay
  obtain ⟨hfetched, happlied, hcancelled, hheld, hqueued⟩ := hlists
  exact ⟨past, now, s, hrun.interleaved, hfetched, happlied, hcancelled, hheld, hqueued,
    (entries_accounted hrun.interleaved).1⟩

end Run

end RangeKeeper
