import RangeKeeper.Proofs.Replay.InOrder
import RangeKeeper.Proofs.Replay.Transitions

/-!
What becomes of the tasks. A task is an entry to apply or a snapshot to install.
A read or a snapshot queues it, the worker takes it up, and it goes when the
worker is through with it or when the driver drops what is queued. The counters
follow the tasks. Both are said here of one step and for both kinds of task at
once; the accounts of the entries and of the installs are what this comes to
over a history.
-/

namespace RangeKeeper

def Task.install? : Task → Option InstallTask
  | .entry _ => none
  | .install task _ => some task

theorem Task.isEntry_eq (task : Task) : task.isEntry = task.entry?.isSome := by
  cases task <;> rfl

theorem Task.countP_isEntry (queue : List Task) :
    queue.countP Task.isEntry = (queue.filterMap Task.entry?).length := by
  rw [List.length_filterMap_eq_countP]
  exact List.countP_congr fun task _ => by rw [task.isEntry_eq]

namespace Work

def task? : Work → Option Task
  | .waiting entry _ _ | .applying entry _ => some (.entry entry)
  | .preparing task seq | .installing task seq => some (.install task seq)
  | .idle | .ended => none

def installTask? (w : Work) : Option InstallTask := w.install?.map Prod.fst

variable {w : Work}

theorem task_of_entry {entry : LogEntry} (h : w.entry? = some entry) :
    w.task? = some (.entry entry) := by
  cases w with
  | waiting | applying =>
      cases h
      rfl
  | idle | preparing | installing | ended => cases h

theorem task_of_install {task : InstallTask} {seq : Nat} (h : w.install? = some (task, seq)) :
    w.task? = some (.install task seq) := by
  cases w with
  | preparing | installing =>
      cases h
      rfl
  | idle | waiting | applying | ended => cases h

end Work

namespace Occurrence

def handedOn (x : Occurrence) : List LogEntry :=
  match x.move with
  | .endRead (.ok entries) => Subscription.accept x.before.lastFetched entries
  | _ => []

/-- The entry that the worker gives up in a move of its own. -/
def givenUp (x : Occurrence) : List LogEntry :=
  match x.move with
  | .work => x.before.work.entry?.toList
  | _ => []

/-- The entries that are cancelled, in the hands of the worker or in the
queue. -/
def cancelled (x : Occurrence) (after : Subscription) : List LogEntry :=
  x.givenUp ++ (x.dropped after).filterMap Task.entry?

def installDone? (x : Occurrence) : Option InstallTask :=
  match x.move with
  | .endInstall (.ok _) => x.before.work.installTask?
  | _ => none

/-- The install that the state machine refused, or that the worker gave up. -/
def installFailed? (x : Occurrence) : Option InstallTask :=
  match x.move with
  | .endInstall (.error _) | .work => x.before.work.installTask?
  | _ => none

def installEnded (x : Occurrence) : List InstallTask :=
  x.installDone?.toList ++ x.installFailed?.toList

def installsDropped (x : Occurrence) (after : Subscription) : List InstallTask :=
  (x.dropped after).filterMap Task.install?

/-- The tasks that come into hand: what a read hands on, and the install that a
snapshot becomes. -/
def queued (x : Occurrence) (after : Subscription) : List Task :=
  x.handedOn.map .entry ++
    (x.takenOff (·.snapshots) after).map fun task => .install task after.installSeq

def finished (x : Occurrence) : List Task :=
  match x.move with
  | .endApply (.ok _) => x.applied?.toList.map .entry
  | .endInstall _ => x.before.work.install?.toList.map fun held => .install held.1 held.2
  | .work => x.before.work.task?.toList
  | _ => []

variable {x : Occurrence} {after : Subscription}

theorem cancelled_of_undropped (h : x.dropped after = []) : x.cancelled after = x.givenUp := by
  rw [cancelled, h, List.filterMap_nil, List.append_nil]

theorem queued_entries : (x.queued after).filterMap Task.entry? = x.handedOn := by
  have hinstalls : ((x.takenOff (·.snapshots) after).map
      fun task => Task.install task after.installSeq).filterMap Task.entry? = [] := by
    simp [List.filterMap_eq_nil_iff, Task.entry?]
  rw [queued, List.filterMap_append, hinstalls, List.append_nil, List.filterMap_map]
  exact List.filterMap_some

theorem queued_installs :
    (x.queued after).filterMap Task.install? = x.takenOff (·.snapshots) after := by
  have hentries : (x.handedOn.map Task.entry).filterMap Task.install? = [] := by
    simp [List.filterMap_eq_nil_iff, Task.install?]
  rw [queued, List.filterMap_append, hentries, List.nil_append, List.filterMap_map]
  exact List.filterMap_some

theorem finished_entries : x.finished.filterMap Task.entry? = x.applied?.toList ++ x.givenUp := by
  obtain ⟨time, before, move⟩ := x
  cases move with
  | endApply answer =>
      cases answer with
      | ok _ =>
          rw [finished, List.filterMap_map]
          exact List.filterMap_some.trans (List.append_nil _).symm
      | error cause => rfl
  | endInstall answer =>
      simp only [finished, givenUp, applied?, List.filterMap_map]
      cases before.work.install? <;> rfl
  | work =>
      simp only [finished, givenUp, applied?]
      cases before.work <;> rfl
  | receive | drive | beginRead | endRead | beginApply | beginInstall => rfl

theorem finished_installs : x.finished.filterMap Task.install? = x.installEnded := by
  obtain ⟨time, before, move⟩ := x
  cases move with
  | endApply answer =>
      cases answer with
      | ok _ => simp [finished, installEnded, installDone?, installFailed?, Task.install?]
      | error cause => rfl
  | endInstall answer =>
      cases answer <;>
        simp only [finished, installEnded, installDone?, installFailed?, Work.installTask?] <;>
        cases before.work.install? <;> rfl
  | work =>
      simp only [finished, installEnded, installDone?, installFailed?, Work.installTask?]
      cases before.work <;> rfl
  | receive | drive | beginRead | endRead | beginApply | beginInstall => rfl

end Occurrence

namespace Subscription

open scoped List

/-- The tasks in hand: the one that the worker holds, then the queue. -/
def tasks (s : Subscription) : List Task := s.work.task?.toList ++ s.queue

def installsHeld (s : Subscription) : List InstallTask :=
  s.work.installTask?.toList ++ s.queue.filterMap Task.install?

variable {s s' : Subscription} {now : Instant} {m : Move}

theorem tasks_entries (s : Subscription) : s.tasks.filterMap Task.entry? = s.inHand := by
  rw [tasks, inHand, List.filterMap_append]
  cases s.work <;> rfl

theorem tasks_installs (s : Subscription) : s.tasks.filterMap Task.install? = s.installsHeld := by
  rw [tasks, installsHeld, List.filterMap_append]
  cases s.work <;> rfl

/-- What the driver takes up comes into hand, and what it drops goes. -/
theorem Step.drive_tasks (h : Step now s .drive s') :
    (s.tasks ++ Occurrence.queued ⟨now, s, .drive⟩ s').Perm
      (Occurrence.dropped ⟨now, s, .drive⟩ s' ++ s'.tasks) := by
  have hwork : s'.work = s.work := h.work_kept (by decide)
  calc s.tasks ++ Occurrence.queued ⟨now, s, .drive⟩ s'
    _ = s.work.task?.toList ++ (s.queue ++ Occurrence.queued ⟨now, s, .drive⟩ s') :=
      List.append_assoc ..
    _ = s.work.task?.toList ++ (Occurrence.dropped ⟨now, s, .drive⟩ s' ++ s'.queue) :=
      congrArg (s.work.task?.toList ++ ·) h.drive_queue
    _ ~ Occurrence.dropped ⟨now, s, .drive⟩ s' ++ (s.work.task?.toList ++ s'.queue) :=
      List.perm_append_comm_assoc ..
    _ = Occurrence.dropped ⟨now, s, .drive⟩ s' ++ s'.tasks := by rw [tasks, hwork]

/-- A step lets a task go only when the worker is through with it or when it
drops what is queued. -/
theorem Step.task_flow (h : Step now s m s') :
    (s.tasks ++ Occurrence.queued ⟨now, s, m⟩ s').Perm
      (Occurrence.finished ⟨now, s, m⟩ ++ Occurrence.dropped ⟨now, s, m⟩ s' ++ s'.tasks) := by
  by_cases hdrive : m = .drive
  · subst hdrive
    exact h.drive_tasks
  obtain ⟨htaken, hdropped⟩ := h.drops_nothing hdrive
  rw [Occurrence.queued, htaken, hdropped, List.map_nil, List.append_nil, List.append_nil]
  refine .of_eq ?_
  cases h.effect with
  | leave | schedule | settle | overhear | preempt | learn => exact absurd rfl hdrive
  | signal | beginRead | readCompacted | readFailed => exact List.append_nil _
  | handOn => exact List.append_assoc ..
  | finish | giveUp | abort => exact List.append_nil _
  | takeEntry _ _ hidle _ hqueue | takeInstall _ _ _ hidle _ hqueue =>
      simp only [Occurrence.finished, tasks, hidle, hqueue]
      exact List.append_nil _
  | beginApply _ _ hheld =>
      rw [tasks, Work.task_of_entry hheld]
      exact List.append_nil _
  | applied _ _ hwork =>
      simp only [Occurrence.finished, Occurrence.applied?, tasks, hwork]
      exact List.append_nil _
  | refused _ _ _ _ hwork | beginInstall _ _ hwork =>
      rw [tasks, hwork]
      exact List.append_nil _
  | installed _ _ _ _ hheld | installFailed _ _ _ _ hheld =>
      simp only [Occurrence.finished, tasks, hheld, Work.task_of_install hheld]
      exact List.append_nil _

/-- The same holds of the tasks of one kind. -/
theorem Step.flow_of_kind {α : Type} (h : Step now s m s') (kind? : Task → Option α) :
    (s.tasks.filterMap kind? ++ (Occurrence.queued ⟨now, s, m⟩ s').filterMap kind?).Perm
      ((Occurrence.finished ⟨now, s, m⟩).filterMap kind? ++
        (Occurrence.dropped ⟨now, s, m⟩ s').filterMap kind? ++ s'.tasks.filterMap kind?) := by
  have hflow := h.task_flow.filterMap kind?
  simp only [List.filterMap_append] at hflow
  exact hflow

/-- Each counter gains what became of the tasks in a step that cancels the
entries `gone`. -/
structure Counts (x : Occurrence) (gone : List LogEntry) (after : Subscription) : Prop where
  fetched : after.metrics.entriesFetched =
    x.before.metrics.entriesFetched + UInt64.ofNat x.handedOn.length
  applied : after.metrics.entriesApplied =
    x.before.metrics.entriesApplied + UInt64.ofNat x.applied?.toList.length
  cancelled : after.metrics.appliesCancelled =
    x.before.metrics.appliesCancelled + UInt64.ofNat gone.length
  installed : after.metrics.snapshotsInstalled =
    x.before.metrics.snapshotsInstalled + UInt64.ofNat x.installDone?.toList.length
  failed : after.metrics.installFailures =
    x.before.metrics.installFailures + UInt64.ofNat x.installFailed?.toList.length

/-- Of what the driver drops the entries are counted, and no install is. -/
theorem Step.counts_of_drive (h : Step now s .drive s') :
    Counts ⟨now, s, .drive⟩ (Occurrence.cancelled ⟨now, s, .drive⟩ s') s' := by
  have hmetrics := h.drive_counts
  rw [Task.countP_isEntry] at hmetrics
  constructor
  · rw [hmetrics]
    exact counter_kept _
  · rw [hmetrics]
    exact counter_kept _
  · rw [hmetrics]
    rfl
  · rw [hmetrics]
    exact counter_kept _
  · rw [hmetrics]
    exact counter_kept _

theorem Step.counts (h : Step now s m s') :
    Counts ⟨now, s, m⟩ (Occurrence.cancelled ⟨now, s, m⟩ s') s' := by
  by_cases hdrive : m = .drive
  · subst hdrive
    exact h.counts_of_drive
  rw [Occurrence.cancelled_of_undropped (h.drops_nothing hdrive).2]
  have kept := counter_kept
  cases h.effect with
  | leave | schedule | settle | overhear | preempt | learn => exact absurd rfl hdrive
  | signal | beginRead | readCompacted | readFailed =>
      exact ⟨kept _, kept _, kept _, kept _, kept _⟩
  | handOn => exact ⟨rfl, kept _, kept _, kept _, kept _⟩
  | finish hidle | takeEntry _ _ hidle | takeInstall _ _ _ hidle =>
      refine ⟨kept _, kept _, ?_, kept _, ?_⟩
      · simp only [Occurrence.givenUp, hidle]
        exact kept _
      · simp only [Occurrence.installFailed?, Work.installTask?, hidle]
        exact kept _
  | giveUp _ hheld =>
      refine ⟨kept _, kept _, ?_, kept _, ?_⟩
      · simp only [Occurrence.givenUp, hheld]
        rfl
      · simp only [Occurrence.installFailed?, Work.installTask?, Work.install_of_entry hheld]
        exact kept _
  | abort _ _ _ hheld =>
      refine ⟨kept _, kept _, ?_, kept _, ?_⟩
      · simp only [Occurrence.givenUp, Work.entry_of_install hheld]
        exact kept _
      · simp only [Occurrence.installFailed?, Work.installTask?, hheld]
        rfl
  | applied _ _ hwork =>
      refine ⟨kept _, ?_, kept _, kept _, kept _⟩
      simp only [Occurrence.applied?, hwork]
      rfl
  | beginApply | refused | beginInstall => exact ⟨kept _, kept _, kept _, kept _, kept _⟩
  | installed _ _ _ _ hheld =>
      refine ⟨kept _, kept _, kept _, ?_, kept _⟩
      simp only [Occurrence.installDone?, Work.installTask?, hheld]
      rfl
  | installFailed _ _ _ _ hheld =>
      refine ⟨kept _, kept _, kept _, kept _, ?_⟩
      simp only [Occurrence.installFailed?, Work.installTask?, hheld]
      rfl

end Subscription

end RangeKeeper
