import RangeKeeper.Proofs.Replay.Ascending

/-!
A subscription that stands still is one that has caught up. It stands still when
nothing but a signal from outside can move it, which is when no stream holds
anything, no read is in flight and the worker has nothing in hand. Then no
install is pending, the two positions agree, and there is a reason not to read:
no commit index is known, the last one is reached, or the next entry was
compacted away and nothing has happened since that could change this.
-/

namespace RangeKeeper

namespace Occurrence

def FoundCompacted (x : Occurrence) : Prop :=
  ∃ cause, x.move = .endRead (.error cause) ∧ cause.isCompaction = true

def commit? (x : Occurrence) : Option UInt64 :=
  match x.move with
  | .receive (.commit index) =>
    if x.before.driving && x.before.commitsOpen then some index else none
  | _ => none

/-- The worker is through with the install of this number. -/
def settled? (x : Occurrence) : Option Nat :=
  match x.move with
  | .work | .endInstall _ => x.before.work.install?.map Prod.snd
  | _ => none

end Occurrence

/-- A read found the log compacted. No commit index and no outcome waited for
the driver then, and since then no commit index has come in and no install was
settled. -/
def CompactedSince (past : List Occurrence) : Prop :=
  ∃ earlier x later, past = earlier ++ x :: later ∧ x.FoundCompacted ∧
    x.before.commits = [] ∧ x.before.events = [] ∧
    ∀ y ∈ later, y.commit? = none ∧ y.settled? = none

namespace Subscription

structure Idle (s : Subscription) : Prop where
  commits : s.commits = []
  snapshots : s.snapshots = []
  events : s.events = []
  fetch : s.fetch = none
  queue : s.queue = []
  work : s.work = .idle

/-- Nothing but a signal can move the subscription, neither now nor when a pause
is over. -/
def Stuck (s : Subscription) : Prop :=
  ∀ later m, (∀ signal, m ≠ .receive signal) → s.move? later m = none

def OutcomesAwaited (s : Subscription) : Prop := s.pendingInstall = none → s.events = []

/-- What made the driver stop reading, with the commit indexes that came in
since still waiting. -/
def DisarmedBy (past : List Occurrence) (s : Subscription) : Prop :=
  ∃ earlier x later, past = earlier ++ x :: later ∧ x.FoundCompacted ∧ x.before.events = [] ∧
    s.commits = x.before.commits ++ later.filterMap Occurrence.commit? ∧
    (s.pendingInstall = none → ∀ y ∈ later, y.settled? = none)

variable {s s' : Subscription} {now : Instant} {m : Move} {past : List Occurrence}

/-- The worker ends only after a stop. -/
theorem Step.ended_stopped (h : Step now s m s') (hs : s.work = .ended → s.stopped = true)
    (hended : s'.work = .ended) : s'.stopped = true := by
  cases h.effect with
  | signal _ _ _ _ _ _ _ hstopped => exact hstopped.mpr (.inl (hs hended))
  | finish _ hstopped => exact hstopped
  | takeEntry | takeInstall | giveUp | abort | beginApply | applied => cases hended
  | refused | beginInstall | installed | installFailed => cases hended
  | _ => exact hs hended

/-- The pending install is the latest, so nothing can follow its outcome. -/
theorem InstallsTracked.last_outcome (h : s.InstallsTracked) {event : InstallEvent}
    {rest : List InstallEvent} (hevents : s.events = event :: rest)
    (hseq : s.pendingInstall = some event.seq) : rest = [] := by
  have hlatest : event.seq = s.installSeq := (h.pending event.seq hseq).1
  have hascending := h.ascending
  rw [hevents] at hascending
  rw [List.eq_nil_iff_forall_not_mem]
  intro e he
  have hafter : event.seq < e.seq := (List.pairwise_cons.mp hascending).1 e he
  have hle : e.seq ≤ s.installSeq := h.reported_le e (by simp [hevents, he])
  omega

theorem Step.awaited (h : Step now s m s') (hlive : s.stopped = false) (ht : s.InstallsTracked)
    (hs : s.OutcomesAwaited) : s'.OutcomesAwaited := by
  cases h.effect with
  | leave _ _ hstopped => cases hlive.symm.trans hstopped
  | settle _ _ _ _ hevents hseq => exact fun _ => ht.last_outcome hevents hseq
  | overhear _ _ _ hevents =>
      intro hnone
      cases hevents.symm.trans (hs hnone)
  | preempt =>
      intro hnone
      cases hnone
  | abort _ _ _ hheld | installed _ _ _ _ hheld | installFailed _ _ _ _ hheld =>
      exact fun hnone => absurd hnone (ht.pending_of_held hheld)
  | _ => exact hs

/-- A signal adds to the commit indexes that wait what came in with it. -/
theorem receive_commits (s : Subscription) (now : Instant) (signal : Signal) :
    (s.receive signal).commits =
      s.commits ++ (Occurrence.commit? ⟨now, s, .receive signal⟩).toList := by
  cases signal with
  | commit index =>
      by_cases hopen : (s.driving && s.commitsOpen) = true
      · simp [receive, publish, Occurrence.commit?, hopen]
      · simp [receive, publish, Occurrence.commit?, hopen]
  | install snapshot leader =>
      simp only [receive, request]
      split
      · exact (List.append_nil _).symm
      · exact (List.append_nil _).symm
  | abandon | endCommits | endSnapshots | stop => exact (List.append_nil _).symm

theorem Step.receives_commits {signal : Signal} (h : Step now s (.receive signal) s') :
    s'.commits = s.commits ++ (Occurrence.commit? ⟨now, s, .receive signal⟩).toList := by
  cases h with
  | receive => exact s.receive_commits now signal

theorem settled_of_free (h : s.work.install? = none) :
    Occurrence.settled? ⟨now, s, m⟩ = none := by
  simp only [Occurrence.settled?, h]
  split <;> rfl

/-- A driver that was disarmed stays so: the commit indexes that come in wait
for it, and while no install is pending none is settled. -/
structure StaysDisarmed (x : Occurrence) (after : Subscription) : Prop where
  disarmed : x.before.armed = false
  commits : after.commits = x.before.commits ++ x.commit?.toList
  settled : after.pendingInstall = none → x.before.pendingInstall = none ∧ x.settled? = none

/-- While no install is pending the worker holds none that it could be through
with. -/
theorem StaysDisarmed.of_quiet (ht : s.InstallsTracked) (hdisarmed : s.armed = false)
    (hquiet : Occurrence.commit? ⟨now, s, m⟩ = none) (hcommits : s'.commits = s.commits)
    (hpending : s'.pendingInstall = none → s.pendingInstall = none) :
    StaysDisarmed ⟨now, s, m⟩ s' := by
  refine ⟨hdisarmed, ?_, fun hnone => ⟨hpending hnone, ?_⟩⟩
  · rw [hcommits, hquiet]
    exact (List.append_nil _).symm
  · exact settled_of_free (ht.free (hpending hnone)).2

/-- Reading is disarmed by a read of what is compacted, or it was disarmed
before. -/
theorem Step.disarms (h : Step now s m s') (hlive : s.stopped = false) (ht : s.InstallsTracked)
    (hf : s.FetchDisciplined) (hdisarmed : s'.armed = false) :
    (Occurrence.FoundCompacted ⟨now, s, m⟩ ∧ s.pendingInstall = none ∧ s'.commits = s.commits) ∨
      StaysDisarmed ⟨now, s, m⟩ s' := by
  cases h.effect with
  | signal => exact .inr ⟨hdisarmed, h.receives_commits, fun hnone => ⟨hnone, rfl⟩⟩
  | leave _ _ hstopped => cases hlive.symm.trans hstopped
  | settle | learn => cases hdisarmed
  | preempt => exact .inr (.of_quiet ht hdisarmed rfl rfl fun hnone => nomatch hnone)
  | readCompacted f cause hfetch _ hcause =>
      exact .inl ⟨⟨cause, rfl, hcause⟩, (hf f hfetch).1, rfl⟩
  | _ => exact .inr (.of_quiet ht hdisarmed rfl rfl id)

theorem DisarmedBy.snoc {x : Occurrence} (h : DisarmedBy past x.before)
    (hstays : StaysDisarmed x s) :
    DisarmedBy (past ++ [x]) s := by
  obtain ⟨earlier, y, later, rfl, hcompacted, hevents, hwaiting, hquiet⟩ := h
  refine ⟨earlier, y, later ++ [x], by simp, hcompacted, hevents, ?_, fun hnone => ?_⟩
  · have hlast : [x].filterMap Occurrence.commit? = x.commit?.toList := by
      cases hcommit : x.commit? <;> simp [hcommit]
    rw [hstays.commits, hwaiting, List.filterMap_append, hlast, List.append_assoc]
  · obtain ⟨hbefore, hnot⟩ := hstays.settled hnone
    intro z hz
    rcases List.mem_append.mp hz with hz | hz
    · exact hquiet hbefore z hz
    · rw [List.mem_singleton.mp hz]
      exact hnot

theorem driverStep_none (hdriving : s.driving = true) (hlive : s.stopped = false) :
    s.driverStep? now = none ↔
      s.wantsFetch = false ∧ s.events = [] ∧ s.snapshots = [] ∧ s.commits = [] := by
  simp only [driverStep?, hdriving, hlive]
  cases hwants : s.wantsFetch <;> cases hevents : s.events <;> cases hsnapshots : s.snapshots <;>
    cases hcommits : s.commits <;> simp

theorem Idle.stuck (h : s.Idle) (hwaiting : s.wantsFetch = false) (hlive : s.stopped = false) :
    s.Stuck := by
  intro later m hm
  cases m with
  | receive signal => exact absurd rfl (hm signal)
  | drive => simp [move?, driverStep?, hlive, hwaiting, h.events, h.snapshots, h.commits]
  | beginRead => simp [move?, beginRead?, h.fetch]
  | endRead => simp [move?, endRead?, h.fetch]
  | work => simp [move?, workerStep?, hlive, h.work, h.queue]
  | beginApply => simp [move?, beginApply?, h.work]
  | endApply => simp [move?, endApply?, h.work]
  | beginInstall => simp [move?, beginInstall?, h.work]
  | endInstall => simp [move?, endInstall?, h.work]

namespace Stuck

theorem driver (h : s.Stuck) (later : Instant) : s.driverStep? later = none :=
  h later .drive (by simp)

theorem worker (h : s.Stuck) (later : Instant) : s.workerStep? later = none :=
  h later .work (by simp)

theorem fetch (h : s.Stuck) : s.fetch = none := by
  cases hfetch : s.fetch with
  | none => rfl
  | some f =>
      cases hreading : f.reading with
      | false =>
          have hread := h f.due .beginRead (by simp)
          simp [move?, h.driver, beginRead?, hfetch, hreading] at hread
      | true =>
          have hread := h 0 (.endRead (.ok [])) (by simp)
          simp [move?, h.driver, endRead?, hfetch, hreading] at hread

theorem work (h : s.Stuck) (hwork : s.work ≠ .ended) : s.work = .idle := by
  cases hheld : s.work with
  | idle => rfl
  | waiting entry failures due =>
      have happly := h due .beginApply (by simp)
      simp [move?, h.worker, beginApply?, hheld] at happly
  | applying entry failures =>
      have happly := h 0 (.endApply (.ok ())) (by simp)
      simp [move?, h.worker, endApply?, hheld] at happly
  | preparing task seq =>
      have hinstall := h 0 .beginInstall (by simp)
      simp [move?, h.worker, beginInstall?, hheld] at hinstall
  | installing task seq =>
      have hinstall := h 0 (.endInstall (.error .cancelled)) (by simp)
      simp [move?, h.worker, endInstall?, hheld] at hinstall
  | ended => exact absurd hheld hwork

theorem idle (h : s.Stuck) (hdriving : s.driving = true) (hlive : s.stopped = false)
    (hwork : s.work ≠ .ended) : s.Idle ∧ s.wantsFetch = false := by
  obtain ⟨hwaiting, hevents, hsnapshots, hcommits⟩ :=
    (driverStep_none hdriving hlive).mp (h.driver 0)
  have hidle : s.work = .idle := h.work hwork
  have hqueue : s.queue = [] := by
    have htake := h.worker 0
    cases hqueue : s.queue with
    | nil => rfl
    | cons task rest => simp [workerStep?, hidle, hlive, hqueue] at htake
  exact ⟨⟨hcommits, hsnapshots, hevents, h.fetch, hqueue, hidle⟩, hwaiting⟩

end Stuck

theorem Idle.inHand (h : s.Idle) : s.inHand = [] := by
  simp [Subscription.inHand, h.work, h.queue, Work.entry?]

/-- An install that is pending leaves something to do. -/
theorem Idle.pendingInstall (h : s.Idle) (ht : s.InstallsTracked) : s.pendingInstall = none := by
  cases hpending : s.pendingInstall with
  | none => rfl
  | some n =>
      rcases (ht.pending n hpending).2 with ⟨_, hqueue, _⟩ | ⟨_, _, hheld, _⟩ |
        ⟨_, _, _, _, hmem, _⟩
      · rw [h.queue] at hqueue
        cases hqueue
      · rw [h.work] at hheld
        cases hheld
      · rw [h.events] at hmem
        cases hmem

end Subscription

open Subscription

namespace Run

variable {settings : ReplaySettings} {first : UInt64} {past : List Occurrence}
variable {now : Instant} {s : Subscription}

theorem ended_stopped (h : Run Interleaved settings first past now s)
    (hended : s.work = .ended) : s.stopped = true := by
  have hinvariant : s.work = .ended → s.stopped = true := by
    refine invariant ?_ (fun _ _ _ _ hstep hs => hstep.ended_stopped hs) h
    intro s hstart hwork
    rw [start_eq hstart] at hwork
    cases hwork
  exact hinvariant hended

/-- While a subscription goes on, a driver that does not read was disarmed by
its last read. -/
theorem disarmed_since (h : Run Interleaved settings first past now s) (hlive : s.stopped = false) :
    s.OutcomesAwaited ∧ (s.armed = false → DisarmedBy past s) := by
  induction h with
  | start hstart =>
      rw [start_eq hstart]
      refine ⟨fun _ => rfl, fun hdisarmed => ?_⟩
      cases hdisarmed
  | @step past before now m s s' hrun _ hstep ih =>
      have hbefore : s.stopped = false := Step.live_before hstep hlive
      have htracked : s.InstallsTracked := (hrun.chained_above.2 hbefore).tracked
      obtain ⟨hawaited, hdisarmed⟩ := ih hbefore
      refine ⟨Step.awaited hstep hbefore htracked hawaited, fun hnow => ?_⟩
      rcases Step.disarms hstep hbefore htracked (disciplined_of_run hrun) hnow with
        ⟨hcompacted, hnone, hcommits⟩ | hstays
      · exact ⟨past, _, [], rfl, hcompacted, hawaited hnone, by simpa using hcommits, by simp⟩
      · exact DisarmedBy.snoc (hdisarmed hstays.disarmed) hstays

/-- Idle means caught up. Of a subscription that goes on and is idle no install
is pending, and what was fetched is what was applied. A driver that comes to its
wait has scheduled every read that it wants; where it waits and the subscription
is idle, nothing behind the position is there to be read, and only a signal can
change that. -/
theorem idle_is_caught_up (h : Run Interleaved settings first past now s)
    (hlive : s.stopped = false) :
    (s.Idle → s.pendingInstall = none ∧ s.lastFetched = s.lastApplied ∧
      (s.wantsFetch = false → s.commit = none ∨ s.armed = false ∧ CompactedSince past ∨
        ∃ c, s.commit = some c ∧ c ≤ s.lastApplied)) ∧
    (s.Idle ∧ s.wantsFetch = false ↔ s.Stuck) := by
  have hchained := h.chained_above.2 hlive
  have hended : s.work ≠ .ended := by
    intro hended
    rw [h.ended_stopped hended] at hlive
    cases hlive
  refine ⟨fun hidle => ?_, fun ⟨hidle, hwaiting⟩ => hidle.stuck hwaiting hlive,
    fun hstuck => hstuck.idle hchained.tracked.driving hlive hended⟩
  have hnone : s.pendingInstall = none := hidle.pendingInstall hchained.tracked
  have hmeet : s.lastApplied = s.lastFetched := by
    have hlinked := hchained.linked hnone
    rw [hidle.inHand] at hlinked
    exact hlinked
  refine ⟨hnone, hmeet.symm, fun hwaiting => ?_⟩
  cases hcommit : s.commit with
  | none => exact .inl rfl
  | some c =>
      refine .inr ?_
      cases harmed : s.armed with
      | false =>
          obtain ⟨earlier, x, later, rfl, hcompacted, hevents, hcommits, hsettled⟩ :=
            (h.disarmed_since hlive).2 harmed
          rw [hidle.commits] at hcommits
          obtain ⟨hbefore, hlater⟩ := List.append_eq_nil_iff.mp hcommits.symm
          refine .inl ⟨rfl, earlier, x, later, rfl, hcompacted, hbefore, hevents, ?_⟩
          intro y hy
          exact ⟨List.filterMap_eq_nil_iff.mp hlater y hy, hsettled hnone y hy⟩
      | true =>
          simp only [wantsFetch, hidle.fetch, hnone, harmed, hcommit, Option.isNone_none,
            Option.any_some, Bool.and_self, Bool.true_and, decide_eq_false_iff_not,
            UInt64.not_lt] at hwaiting
          rw [← hmeet] at hwaiting
          exact .inr ⟨c, rfl, hwaiting⟩

/-- One snapshot supersedes another before it is installed, and the log was
compacted past it. -/
def leftBehind : List (Instant × Move) :=
  [(0, .receive (.commit 2)), (0, .drive), (0, .drive), (0, .beginRead),
    (1, .endRead (.ok [⟨1, 1, []⟩, ⟨2, 1, []⟩])),
    (1, .work), (1, .beginApply), (2, .endApply (.ok ())),
    (2, .receive (.install ⟨⟨1, 1⟩, 1, "", 9, .normal⟩ "store1")), (2, .drive), (2, .work),
    (2, .receive (.install ⟨⟨1, 1⟩, 1, "", 7, .normal⟩ "store2")), (2, .drive), (2, .work),
    (2, .drive), (2, .work), (2, .beginInstall),
    (3, .endInstall (.ok ⟨⟨1, 1⟩, 1, "", 7, .normal⟩)), (3, .drive),
    (3, .receive (.commit 12)), (3, .drive), (3, .drive), (3, .beginRead),
    (4, .endRead (.error (.log (.compacted 8 11))))]

theorem idle_is_caught_up_left_behind :
    ∃ past now s, Run Interleaved {} 0 past now s ∧ s.stopped = false ∧ s.Idle ∧
      s.pendingInstall = none ∧ s.lastFetched = s.lastApplied ∧ s.commit = some 12 ∧
      s.armed = false ∧ CompactedSince past := by
  obtain ⟨fresh, past, s, hstart, hplay, hlive, hidle, hwaiting, hcommit, happlied⟩ :
      ∃ fresh past s, Subscription.start {} 0 = .ok fresh ∧
        play? [] fresh leftBehind = some (past, s) ∧ s.stopped = false ∧ s.Idle ∧
        s.wantsFetch = false ∧ s.commit = some 12 ∧ s.lastApplied = 7 :=
    ⟨_, _, _, rfl, rfl, rfl, ⟨rfl, rfl, rfl, rfl, rfl, rfl⟩, rfl, rfl, rfl⟩
  obtain ⟨now, hrun⟩ := run_of_play (.start hstart) (by decide) hplay
  obtain ⟨hnone, hmeet, hreason⟩ := (idle_is_caught_up hrun.interleaved hlive).1 hidle
  refine ⟨past, now, s, hrun.interleaved, hlive, hidle, hnone, hmeet, hcommit, ?_⟩
  rcases hreason hwaiting with hunknown | hcompacted | ⟨c, hknown, hreached⟩
  · rw [hcommit] at hunknown
    cases hunknown
  · exact hcompacted
  · rw [hcommit] at hknown
    cases hknown
    rw [happlied] at hreached
    exact absurd hreached (by decide)

end Run

end RangeKeeper
