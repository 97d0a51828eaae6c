import RangeKeeper.Proofs.Replay.Idle
import RangeKeeper.Proofs.Replay.Transitions

/-!
The messages of a single-threaded driver. It takes them off its three streams
one at a time, install outcomes before snapshots and snapshots before commit
indexes, and takes none once it was stopped. The commit indexes reach it in the
order in which they came in.
-/

namespace RangeKeeper

inductive Message where
  | outcome (event : InstallEvent)
  | snapshot (task : InstallTask)
  | commit (index : UInt64)

def Message.commit? : Message → Option UInt64
  | .commit index => some index
  | .outcome _ | .snapshot _ => none

namespace Occurrence

def taken (x : Occurrence) (after : Subscription) : List Message :=
  (x.takenOff (·.events) after).map .outcome ++ (x.takenOff (·.snapshots) after).map .snapshot ++
    (x.takenOff (·.commits) after).map .commit

variable {x : Occurrence} {after : Subscription}

theorem taken_of_same (h : x.move = .drive → after.events = x.before.events ∧
    after.snapshots = x.before.snapshots ∧ after.commits = x.before.commits) :
    x.taken after = [] := by
  rw [taken, takenOff_of_same fun hdrive => (h hdrive).1,
    takenOff_of_same fun hdrive => (h hdrive).2.1, takenOff_of_same fun hdrive => (h hdrive).2.2]
  rfl

theorem taken_of_left (h : after.driving = false) : x.taken after = [] := by
  rw [taken, takenOff_of_left h, takenOff_of_left h, takenOff_of_left h]
  rfl

/-- What the streams have lost is what a listening driver has taken, if that is
one message. -/
theorem taken_of_lost (events : List InstallEvent) (snapshots : List InstallTask)
    (commits : List UInt64) (hmove : x.move = .drive) (hdriving : after.driving = true)
    (hevents : x.before.events = events ++ after.events)
    (hsnapshots : x.before.snapshots = snapshots ++ after.snapshots)
    (hcommits : x.before.commits = commits ++ after.commits)
    (hone : events.length + snapshots.length + commits.length ≤ 1) :
    x.taken after =
      events.map .outcome ++ snapshots.map .snapshot ++ commits.map .commit := by
  rw [taken, takenOff_of_prefix hmove hdriving hevents (by omega),
    takenOff_of_prefix hmove hdriving hsnapshots (by omega),
    takenOff_of_prefix hmove hdriving hcommits (by omega)]

end Occurrence

def takenIn (past : List Occurrence) (s : Subscription) : List Message :=
  gathered Occurrence.taken past s

/-- The commit indexes that came in on their stream in a history. -/
def publishedIn (past : List Occurrence) : List UInt64 := past.filterMap Occurrence.commit?

def learnedIn (past : List Occurrence) (s : Subscription) : List UInt64 :=
  (takenIn past s).filterMap Message.commit?

theorem takenIn_snoc (past : List Occurrence) (x : Occurrence) (s : Subscription) :
    takenIn (past ++ [x]) s = takenIn past x.before ++ x.taken s :=
  gathered_snoc Occurrence.taken past x s

theorem learnedIn_append (earlier : List Occurrence) (x : Occurrence) (later : List Occurrence)
    (s : Subscription) :
    learnedIn (earlier ++ x :: later) s =
      learnedIn earlier x.before ++ learnedIn (x :: later) s := by
  simp only [learnedIn, takenIn, gathered_append, List.filterMap_append]

theorem learnedIn_snoc (past : List Occurrence) (x : Occurrence) (s : Subscription) :
    learnedIn (past ++ [x]) s =
      learnedIn past x.before ++ (x.taken s).filterMap Message.commit? := by
  rw [learnedIn, takenIn_snoc, List.filterMap_append, learnedIn]

theorem publishedIn_snoc (past : List Occurrence) (x : Occurrence) :
    publishedIn (past ++ [x]) = publishedIn past ++ x.commit?.toList := by
  rw [publishedIn, publishedIn, List.filterMap_append]
  cases hcommit : x.commit? <;> simp [hcommit]

namespace Subscription

/-- The driver takes no message in this move. What it goes by stays as it was,
the outcomes on their way to it stay there until it is stopped, and commit
indexes only come in. -/
structure TakesNothing (now : Instant) (s : Subscription) (m : Move) (s' : Subscription) :
    Prop where
  taken : Occurrence.taken ⟨now, s, m⟩ s' = []
  commit : s'.commit = s.commit
  pendingInstall : s'.pendingInstall = s.pendingInstall
  events : s'.stopped = false → ∀ e ∈ s.events, e ∈ s'.events
  commits : s'.driving = true → s.driving = true ∧
    s'.commits = s.commits ++ (Occurrence.commit? ⟨now, s, m⟩).toList

/-- Which message a single-threaded driver takes in a move, and what that
does. -/
inductive Taking (now : Instant) (s : Subscription) : Move → Subscription → Prop where
  | outcome (event : InstallEvent) (rest : List InstallEvent) :
      s.driving = true → s.stopped = false → s.events = event :: rest →
      Taking now s .drive ({ s with events := rest }.onEvent event)
  | snapshot (task : InstallTask) (rest : List InstallTask) :
      s.driving = true → s.stopped = false → s.events = [] → s.snapshots = task :: rest →
      Taking now s .drive ({ s with snapshots := rest }.onSnapshot task)
  | commit (index : UInt64) (rest : List UInt64) :
      s.driving = true → s.stopped = false → s.events = [] → s.snapshots = [] →
      s.commits = index :: rest → Taking now s .drive ({ s with commits := rest }.onCommit index)
  | nothing {m : Move} {s' : Subscription} : TakesNothing now s m s' → Taking now s m s'

variable {s s' : Subscription} {now : Instant} {m : Move}

theorem taken_onEvent {event : InstallEvent} {rest : List InstallEvent}
    (hdriving : s.driving = true) (hevents : s.events = event :: rest) :
    Occurrence.taken ⟨now, s, .drive⟩ ({ s with events := rest }.onEvent event) =
      [.outcome event] := by
  obtain ⟨_, _, _, _, _, heq⟩ := onEvent_frame { s with events := rest } event
  rw [heq]
  exact Occurrence.taken_of_lost [event] [] [] rfl hdriving hevents rfl rfl (by simp)

theorem taken_onSnapshot {task : InstallTask} {rest : List InstallTask}
    (hdriving : s.driving = true) (hsnapshots : s.snapshots = task :: rest) :
    Occurrence.taken ⟨now, s, .drive⟩ ({ s with snapshots := rest }.onSnapshot task) =
      [.snapshot task] := by
  obtain ⟨_, heq⟩ := onSnapshot_eq { s with snapshots := rest } task
  rw [heq]
  exact Occurrence.taken_of_lost [] [task] [] rfl hdriving rfl hsnapshots rfl (by simp)

theorem taken_onCommit {index : UInt64} {rest : List UInt64} (hdriving : s.driving = true)
    (hcommits : s.commits = index :: rest) :
    Occurrence.taken ⟨now, s, .drive⟩ ({ s with commits := rest }.onCommit index) =
      [.commit index] :=
  Occurrence.taken_of_lost [] [] [index] rfl hdriving rfl rfl hcommits (by simp)

/-- Only the driver by itself takes messages. -/
theorem Step.takes_nothing (h : Step now s m s') (hm : m ≠ .drive) : TakesNothing now s m s' := by
  have htaken : Occurrence.taken ⟨now, s, m⟩ s' = [] :=
    Occurrence.taken_of_same fun hdrive => absurd hdrive hm
  cases h.effect with
  | leave | schedule | settle | overhear | preempt | learn => exact absurd rfl hm
  | signal =>
      exact ⟨htaken, rfl, rfl, fun _ _ he => he, fun hdriving => ⟨hdriving, h.receives_commits⟩⟩
  | abort | installed | installFailed =>
      exact ⟨htaken, rfl, rfl, fun _ _ he => List.mem_append_left _ he,
        fun hdriving => ⟨hdriving, (List.append_nil _).symm⟩⟩
  | _ =>
      exact ⟨htaken, rfl, rfl, fun _ _ he => he,
        fun hdriving => ⟨hdriving, (List.append_nil _).symm⟩⟩

theorem taking_of_driverStep (h : s.driverStep? now = some s') : Taking now s .drive s' := by
  unfold driverStep? at h
  split at h
  next => cases h
  next hdriving =>
    have hdriving : s.driving = true := by simpa using hdriving
    split at h
    next hstopped =>
      cases h
      obtain ⟨_, heq⟩ := s.leave_eq
      have hgone : s.leave.driving = false := by rw [heq]
      refine .nothing ⟨Occurrence.taken_of_left hgone, by rw [heq], by rw [heq],
        fun hlive => ?_, fun hafter => ?_⟩
      · rw [heq] at hlive
        cases hstopped.symm.trans hlive
      · cases hgone.symm.trans hafter
    next hlive =>
      have hlive : s.stopped = false := by simpa using hlive
      split at h
      next =>
        cases h
        have htaken : Occurrence.taken ⟨now, s, .drive⟩ (s.scheduleFetch now) = [] :=
          Occurrence.taken_of_same fun _ => ⟨rfl, rfl, rfl⟩
        exact .nothing ⟨htaken, rfl, rfl, fun _ _ he => he,
          fun _ => ⟨hdriving, (List.append_nil _).symm⟩⟩
      next =>
        split at h
        next event rest hevents =>
          cases h
          exact .outcome event rest hdriving hlive hevents
        next task rest hevents hsnapshots =>
          cases h
          exact .snapshot task rest hdriving hlive hevents hsnapshots
        next index rest hevents hsnapshots hcommits =>
          cases h
          exact .commit index rest hdriving hlive hevents hsnapshots hcommits
        next => cases h

theorem taking_of_move (h : s.move? now m = some s') : Taking now s m s' := by
  by_cases hdrive : m = .drive
  · subst hdrive
    exact taking_of_driverStep h
  · exact .nothing ((step_of_move h).takes_nothing hdrive)

end Subscription

open Subscription

namespace Run

variable {settings : ReplaySettings} {first : UInt64} {past : List Occurrence}
variable {now : Instant} {s : Subscription}

/-- The commit indexes that the driver took are the first of those that came in,
and the others wait for it while it is there. -/
theorem learned_in_order (h : Run SingleThreaded settings first past now s) :
    ∃ waiting, publishedIn past = learnedIn past s ++ waiting ∧
      (s.driving = true → waiting = s.commits) := by
  induction h with
  | start hstart =>
      rw [start_eq hstart]
      exact ⟨[], rfl, fun _ => rfl⟩
  | @step past before now m s s' _ _ hs ih =>
      obtain ⟨waiting, hsplit, hwaiting⟩ := ih
      rw [publishedIn_snoc, learnedIn_snoc, hsplit]
      cases taking_of_move hs with
      | outcome event rest hdriving _ hevents =>
          obtain ⟨_, _, _, _, _, heq⟩ := onEvent_frame { s with events := rest } event
          rw [taken_onEvent hdriving hevents]
          exact ⟨waiting, by simp [Occurrence.commit?, Message.commit?],
            by rw [heq]; exact hwaiting⟩
      | snapshot task rest hdriving _ _ hsnapshots =>
          obtain ⟨_, heq⟩ := onSnapshot_eq { s with snapshots := rest } task
          rw [taken_onSnapshot hdriving hsnapshots]
          exact ⟨waiting, by simp [Occurrence.commit?, Message.commit?],
            by rw [heq]; exact hwaiting⟩
      | commit index rest hdriving _ _ _ hcommits =>
          rw [taken_onCommit hdriving hcommits, hwaiting hdriving, hcommits]
          exact ⟨rest, by simp [Occurrence.commit?, Message.commit?], fun _ => rfl⟩
      | nothing hnothing =>
          rw [hnothing.taken]
          refine ⟨waiting ++ (Occurrence.commit? ⟨now, s, m⟩).toList, by simp, fun hafter => ?_⟩
          obtain ⟨hbefore, hcommits⟩ := hnothing.commits hafter
          rw [hcommits, hwaiting hbefore]

end Run

end RangeKeeper
