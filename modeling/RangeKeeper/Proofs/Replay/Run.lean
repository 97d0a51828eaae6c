import Mathlib.Data.List.Induction
import RangeKeeper.Replay.Move

/-!
Runs of a subscription. The driver and the worker are two tasks, and on threads
of their own either may act while the other has something left to do. `Step`
lets each of them, and the outside, do at any moment whatever its own data
allow, so a call that was begun may still be answered although a snapshot or a
stop arrived meanwhile. The moves of a single thread, where a task looks at all
that waits for it before it calls or hears anyone, are some of these steps. A
history lists what was done, each step with the moment and the state it was done
in.
-/

namespace RangeKeeper

/-- The entry that the worker holds, whether or not the state machine was asked
for it. -/
def Work.entry? : Work → Option LogEntry
  | .waiting entry _ _ | .applying entry _ => some entry
  | _ => none

def Work.install? : Work → Option (InstallTask × Nat)
  | .preparing task seq | .installing task seq => some (task, seq)
  | _ => none

theorem Work.entry_of_waiting {w : Work} {entry : LogEntry} {failures : Nat} {due : Instant}
    (hw : w = .waiting entry failures due) : w.entry? = some entry ∧ w.install? = none := by
  subst hw
  exact ⟨rfl, rfl⟩

theorem Work.entry_of_applying {w : Work} {entry : LogEntry} {failures : Nat}
    (hw : w = .applying entry failures) : w.entry? = some entry ∧ w.install? = none := by
  subst hw
  exact ⟨rfl, rfl⟩

theorem Work.install_of_preparing {w : Work} {task : InstallTask} {seq : Nat}
    (hw : w = .preparing task seq) : w.install? = some (task, seq) ∧ w.entry? = none := by
  subst hw
  exact ⟨rfl, rfl⟩

theorem Work.install_of_installing {w : Work} {task : InstallTask} {seq : Nat}
    (hw : w = .installing task seq) : w.install? = some (task, seq) ∧ w.entry? = none := by
  subst hw
  exact ⟨rfl, rfl⟩

theorem Work.install_of_entry {w : Work} {entry : LogEntry} (hw : w.entry? = some entry) :
    w.install? = none := by
  cases w with
  | waiting | applying => rfl
  | idle | preparing | installing | ended => cases hw

theorem Work.entry_of_install {w : Work} {held : InstallTask × Nat} (hw : w.install? = some held) :
    w.entry? = none := by
  cases w with
  | preparing | installing => rfl
  | idle | waiting | applying | ended => cases hw

namespace Subscription

/-- What one of the tasks, or the outside, can do in a state by itself. Neither
task has to look at anything but what it acts on, so a step is possible in every
order that two threads can produce. -/
inductive Step (now : Instant) (s : Subscription) : Move → Subscription → Prop where
  | receive (signal : Signal) : Step now s (.receive signal) (s.receive signal)
  | leave : s.driving = true → s.stopped = true → Step now s .drive s.leave
  | schedule : s.driving = true → s.wantsFetch = true → Step now s .drive (s.scheduleFetch now)
  | hear (event : InstallEvent) (rest : List InstallEvent) :
      s.driving = true → s.events = event :: rest →
      Step now s .drive ({ s with events := rest }.onEvent event)
  | preempt (task : InstallTask) (rest : List InstallTask) :
      s.driving = true → s.snapshots = task :: rest →
      Step now s .drive ({ s with snapshots := rest }.onSnapshot task)
  | learn (index : UInt64) (rest : List UInt64) :
      s.driving = true → s.commits = index :: rest →
      Step now s .drive ({ s with commits := rest }.onCommit index)
  | beginRead (f : Fetch) :
      s.fetch = some f → f.reading = false → f.due ≤ now →
      Step now s .beginRead { s with fetch := some { f with reading := true } }
  | endRead (f : Fetch) (answer : Except Fault (List LogEntry)) :
      s.fetch = some f → f.reading = true → Step now s (.endRead answer) (s.onFetched answer)
  | finish : s.work = .idle → s.stopped = true → Step now s .work { s with work := .ended }
  | take (task : Task) (rest : List Task) :
      s.work = .idle → s.stopped = false → s.queue = task :: rest →
      Step now s .work ({ s with queue := rest }.take now task)
  | giveUp (entry : LogEntry) :
      s.work.entry? = some entry → s.isCancelled = true → Step now s .work s.giveUpApply
  | abort (task : InstallTask) (seq : Nat) :
      s.work.install? = some (task, seq) →
      s.isCancelled = true ∨ s.isAbandoned task.ticket = true →
      Step now s .work (s.abortInstall task seq .cancelled)
  | beginApply (entry : LogEntry) (failures : Nat) (due : Instant) :
      s.work = .waiting entry failures due → due ≤ now →
      Step now s .beginApply { s with work := .applying entry failures }
  | endApply (entry : LogEntry) (failures : Nat) (answer : Except Fault Unit) :
      s.work = .applying entry failures →
      Step now s (.endApply answer) (s.onApplied now entry failures answer)
  | beginInstall (task : InstallTask) (seq : Nat) :
      s.work = .preparing task seq →
      Step now s .beginInstall { s with work := .installing task seq }
  | endInstall (task : InstallTask) (seq : Nat) (answer : Except Fault Snapshot) :
      s.work = .installing task seq →
      Step now s (.endInstall answer) (s.onInstalled task seq answer)

variable {s s' : Subscription} {now : Instant} {m : Move}

theorem driverStep_is_step (h : s.driverStep? now = some s') : Step now s .drive s' := by
  unfold driverStep? at h
  split at h
  next => cases h
  next hdriving =>
    have hdriving : s.driving = true := by simpa using hdriving
    split at h
    next hstopped =>
      cases h
      exact .leave hdriving hstopped
    next =>
      split at h
      next hwants =>
        cases h
        exact .schedule hdriving hwants
      next =>
        -- The streams are looked at in the order outcomes, snapshots, commit
        -- indexes.
        split at h
        next event rest hevents =>
          cases h
          exact .hear event rest hdriving hevents
        next task rest _ hsnapshots =>
          cases h
          exact .preempt task rest hdriving hsnapshots
        next index rest _ _ hcommits =>
          cases h
          exact .learn index rest hdriving hcommits
        next => cases h

theorem workerStep_is_step (h : s.workerStep? now = some s') : Step now s .work s' := by
  unfold workerStep? at h
  split at h
  next => cases h
  next hidle =>
    split at h
    next hstopped =>
      cases h
      exact .finish hidle hstopped
    next hlive =>
      have hlive : s.stopped = false := by simpa using hlive
      split at h
      next => cases h
      next task rest hqueue =>
        cases h
        exact .take task rest hidle hlive hqueue
  next entry failures due hwork =>
    split at h
    next hcancelled =>
      cases h
      exact .giveUp entry (Work.entry_of_waiting hwork).1 hcancelled
    next => cases h
  next entry failures hwork =>
    split at h
    next hcancelled =>
      cases h
      exact .giveUp entry (Work.entry_of_applying hwork).1 hcancelled
    next => cases h
  next task seq hwork =>
    split at h
    next hgone =>
      cases h
      exact .abort task seq (Work.install_of_preparing hwork).1 (by simpa using hgone)
    next => cases h
  next task seq hwork =>
    split at h
    next hgone =>
      cases h
      exact .abort task seq (Work.install_of_installing hwork).1 (by simpa using hgone)
    next => cases h

theorem beginRead_is_step (h : s.beginRead? now = some s') : Step now s .beginRead s' := by
  unfold beginRead? at h
  split at h
  next => cases h
  next f hfetch =>
    split at h
    next hdue =>
      cases h
      simp only [Bool.and_eq_true, Bool.not_eq_true', decide_eq_true_eq] at hdue
      exact .beginRead f hfetch hdue.1 hdue.2
    next => cases h

theorem endRead_is_step {answer : Except Fault (List LogEntry)} (h : s.endRead? answer = some s') :
    Step now s (.endRead answer) s' := by
  unfold endRead? at h
  split at h
  next hreading =>
    cases h
    cases hfetch : s.fetch with
    | none => simp [hfetch] at hreading
    | some f => exact .endRead f answer hfetch (by simpa [hfetch] using hreading)
  next => cases h

theorem beginApply_is_step (h : s.beginApply? now = some s') : Step now s .beginApply s' := by
  unfold beginApply? at h
  split at h
  next entry failures due hwork =>
    split at h
    next hdue =>
      cases h
      exact .beginApply entry failures due hwork hdue
    next => cases h
  next => cases h

theorem endApply_is_step {answer : Except Fault Unit} (h : s.endApply? now answer = some s') :
    Step now s (.endApply answer) s' := by
  unfold endApply? at h
  split at h
  next entry failures hwork =>
    cases h
    exact .endApply entry failures answer hwork
  next => cases h

theorem beginInstall_is_step (h : s.beginInstall? = some s') : Step now s .beginInstall s' := by
  unfold beginInstall? at h
  split at h
  next task seq hwork =>
    cases h
    exact .beginInstall task seq hwork
  next => cases h

theorem endInstall_is_step {answer : Except Fault Snapshot} (h : s.endInstall? answer = some s') :
    Step now s (.endInstall answer) s' := by
  unfold endInstall? at h
  split at h
  next task seq hwork =>
    cases h
    exact .endInstall task seq answer hwork
  next => cases h

/-- Every move of a single thread is a step. -/
theorem step_of_move (h : s.move? now m = some s') : Step now s m s' := by
  cases m with
  | receive signal =>
      cases h
      exact .receive signal
  | drive => exact driverStep_is_step h
  | beginRead =>
      simp only [move?, Option.ite_none_left_eq_some] at h
      exact beginRead_is_step h.2
  | endRead answer =>
      simp only [move?, Option.ite_none_left_eq_some] at h
      exact endRead_is_step h.2
  | work => exact workerStep_is_step h
  | beginApply =>
      simp only [move?, Option.ite_none_left_eq_some] at h
      exact beginApply_is_step h.2
  | endApply answer =>
      simp only [move?, Option.ite_none_left_eq_some] at h
      exact endApply_is_step h.2
  | beginInstall =>
      simp only [move?, Option.ite_none_left_eq_some] at h
      exact beginInstall_is_step h.2
  | endInstall answer =>
      simp only [move?, Option.ite_none_left_eq_some] at h
      exact endInstall_is_step h.2

end Subscription

structure Occurrence where
  time : Instant
  before : Subscription
  move : Move

abbrev Transition := Instant → Subscription → Move → Subscription → Prop

/-- The histories of a subscription over time, the latest occurrence last, and
where they lead. -/
inductive Run (next : Transition) (settings : ReplaySettings) (first : UInt64) :
    List Occurrence → Instant → Subscription → Prop where
  | start {s : Subscription} :
      Subscription.start settings first = .ok s → Run next settings first [] 0 s
  | step {past : List Occurrence} {before now : Instant} {m : Move} {s s' : Subscription} :
      Run next settings first past before s → before ≤ now → next now s m s' →
      Run next settings first (past ++ [⟨now, s, m⟩]) now s'

/-- The steps that two threads can take. -/
abbrev Interleaved : Transition := fun now s m s' => Subscription.Step now s m s'

/-- The moves of a single thread. -/
abbrev SingleThreaded : Transition := fun now s m s' => s.move? now m = some s'

namespace Run

variable {next : Transition} {settings : ReplaySettings} {first : UInt64}
variable {past earlier later : List Occurrence} {now : Instant} {s : Subscription}

theorem mono {next' : Transition} (h : Run next settings first past now s)
    (hnext : ∀ now s m s', next now s m s' → next' now s m s') :
    Run next' settings first past now s := by
  induction h with
  | start hstart => exact .start hstart
  | step _ htime hstep ih => exact .step ih htime (hnext _ _ _ _ hstep)

theorem interleaved (h : Run SingleThreaded settings first past now s) :
    Run Interleaved settings first past now s :=
  h.mono fun _ _ _ _ => Subscription.step_of_move

/-- What holds at the start and is kept by every step holds after every
history. -/
theorem invariant {holds : Subscription → Prop}
    (hstart : ∀ s, Subscription.start settings first = .ok s → holds s)
    (hstep : ∀ now s m s', next now s m s' → holds s → holds s')
    (h : Run next settings first past now s) : holds s := by
  induction h with
  | start hs => exact hstart _ hs
  | step _ _ hs ih => exact hstep _ _ _ _ hs ih

/-- Every occurrence of a history was a step from a state that the history
before it led to. -/
theorem at_occurrence {x : Occurrence}
    (h : Run next settings first (earlier ++ x :: later) now s) :
    ∃ before s', Run next settings first earlier before x.before ∧ before ≤ x.time ∧
      next x.time x.before x.move s' := by
  generalize hpast : earlier ++ x :: later = past at h
  induction h generalizing later with
  | start => simp at hpast
  | @step past before now m s s' hrun htime hstep ih =>
      rcases List.eq_nil_or_concat later with rfl | ⟨rest, last, rfl⟩
      · obtain ⟨rfl, hx⟩ := List.append_inj' hpast rfl
        cases hx
        exact ⟨before, s', hrun, htime, hstep⟩
      · rw [List.concat_eq_append, ← List.cons_append, ← List.append_assoc] at hpast
        exact ih (List.append_inj' hpast rfl).1

/-- The last occurrence of a history is the step that led to where it ends. -/
theorem last_step {x : Occurrence} (h : Run next settings first (past ++ [x]) now s) :
    (∃ before, Run next settings first past before x.before) ∧ next x.time x.before x.move s := by
  generalize hpast : past ++ [x] = whole at h
  cases h with
  | start => simp at hpast
  | @step before _ _ _ _ _ hrun _ hstep =>
      obtain ⟨rfl, hx⟩ := List.append_inj' hpast rfl
      cases hx
      exact ⟨⟨_, hrun⟩, hstep⟩

/-- A history that ends with an occurrence leads to its moment, from where the
history before it led. -/
theorem last_occurrence {x : Occurrence} (h : Run next settings first (past ++ [x]) now s) :
    now = x.time ∧ ∃ before, Run next settings first past before x.before ∧ before ≤ x.time ∧
      next x.time x.before x.move s := by
  generalize hpast : past ++ [x] = whole at h
  cases h with
  | start => simp at hpast
  | step hrun htime hstep =>
      obtain ⟨rfl, hx⟩ := List.append_inj' hpast rfl
      cases hx
      exact ⟨rfl, _, hrun, htime, hstep⟩

/-- What holds right after an occurrence and is kept by every one that follows
holds from then on. -/
theorem since {x : Occurrence} (holds : List Occurrence → Instant → Subscription → Prop)
    (h : Run next settings first (earlier ++ x :: later) now s)
    (hfirst : ∀ before s', Run next settings first earlier before x.before → before ≤ x.time →
      next x.time x.before x.move s' → holds [] x.time s')
    (hnext : ∀ between before y s',
      Run next settings first (earlier ++ x :: between) before y.before → before ≤ y.time →
      next y.time y.before y.move s' → holds between before y.before →
      holds (between ++ [y]) y.time s') : holds later now s := by
  induction later using List.reverseRecOn generalizing now s with
  | nil =>
      obtain ⟨rfl, before, hrun, htime, hstep⟩ := h.last_occurrence
      exact hfirst before s hrun htime hstep
  | append_singleton rest y ih =>
      rw [← List.cons_append, ← List.append_assoc] at h
      obtain ⟨rfl, before, hrun, htime, hstep⟩ := h.last_occurrence
      exact hnext rest before y s hrun htime hstep (ih hrun)

/-- A history is also one up to each of its occurrences, and up to its end. -/
theorem prefix_run (h : Run next settings first (earlier ++ later) now s) :
    ∃ before s', Run next settings first earlier before s' := by
  cases later with
  | nil => exact ⟨now, s, by simpa using h⟩
  | cons x rest =>
      obtain ⟨before, _, hrun, _⟩ := h.at_occurrence
      exact ⟨before, x.before, hrun⟩

end Run

namespace Subscription

/-- Make moves one after the other, noting each, as long as they are
possible. -/
def play? (past : List Occurrence) (s : Subscription) :
    List (Instant × Move) → Option (List Occurrence × Subscription)
  | [] => some (past, s)
  | (now, m) :: rest => (s.move? now m).bind fun s' => play? (past ++ [⟨now, s, m⟩]) s' rest

theorem run_of_play {settings : ReplaySettings} {first : UInt64} {past past' : List Occurrence}
    {before : Instant} {s s' : Subscription} {moves : List (Instant × Move)}
    (h : Run SingleThreaded settings first past before s)
    (hmoves : (before :: moves.map Prod.fst).Pairwise (· ≤ ·))
    (hplay : play? past s moves = some (past', s')) :
    ∃ now, Run SingleThreaded settings first past' now s' := by
  induction moves generalizing past before s with
  | nil =>
      cases hplay
      exact ⟨before, h⟩
  | cons head rest ih =>
      obtain ⟨now, m⟩ := head
      simp only [play?, Option.bind_eq_some_iff] at hplay
      obtain ⟨next, hmove, hplay⟩ := hplay
      obtain ⟨hfirst, hrest⟩ := List.pairwise_cons.mp hmoves
      exact ih (.step h (hfirst now (by simp)) hmove) hrest hplay

end Subscription

end RangeKeeper
