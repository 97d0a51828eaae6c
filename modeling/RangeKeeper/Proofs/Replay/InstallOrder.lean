import RangeKeeper.Proofs.Replay.Ascending
import RangeKeeper.Proofs.Replay.InstallAccounting

/-!
The way of an install. The driver numbers a snapshot when it takes it up. The
install waits in the queue, is held by the worker, and its outcome waits for the
driver. It may drop out on the way, but none overtakes another: each stage is
left in the order in which it was entered. So installs start, and their outcomes
are heard, in the order in which the snapshots were taken up, and no outcome is
heard twice. The install that the driver waits for does not drop out while the
subscription goes on: it is always at exactly one stage.
-/

namespace RangeKeeper

def Task.numbered? : Task → Option (InstallTask × Nat)
  | .entry _ => none
  | .install task seq => some (task, seq)

/-- The install that the worker holds, until the state machine is asked for
it. -/
def Work.unasked? : Work → Option (InstallTask × Nat)
  | .preparing task seq => some (task, seq)
  | _ => none

namespace Occurrence

/-- The snapshot that the driver takes up in this move, with its number. -/
def installNumbered (x : Occurrence) (after : Subscription) : List (InstallTask × Nat) :=
  (x.takenOff (·.snapshots) after).map fun task => (task, after.installSeq)

def installStarted (x : Occurrence) (after : Subscription) : List (InstallTask × Nat) :=
  if x.before.work.install? = none then after.work.install?.toList else []

def installOver (x : Occurrence) (after : Subscription) : List (InstallTask × Nat) :=
  if after.work.install? = none then x.before.work.install?.toList else []

def installAsked (x : Occurrence) (_ : Subscription) : List (InstallTask × Nat) :=
  match x.move with
  | .beginInstall => x.before.work.install?.toList
  | _ => []

variable {x : Occurrence} {after : Subscription}

theorem installStarted_of_kept
    (h : after.work.install? = none ∨ after.work.install? = x.before.work.install?) :
    x.installStarted after = [] := by
  unfold installStarted
  split
  next hfree =>
    rw [hfree, or_self] at h
    rw [h]
    rfl
  next => rfl

end Occurrence

def installsNumberedIn (past : List Occurrence) (s : Subscription) : List (InstallTask × Nat) :=
  gathered Occurrence.installNumbered past s

def installsStartedIn (past : List Occurrence) (s : Subscription) : List (InstallTask × Nat) :=
  gathered Occurrence.installStarted past s

def installsOverIn (past : List Occurrence) (s : Subscription) : List (InstallTask × Nat) :=
  gathered Occurrence.installOver past s

def installsAskedIn (past : List Occurrence) (s : Subscription) : List (InstallTask × Nat) :=
  gathered Occurrence.installAsked past s

def outcomesHeardIn (past : List Occurrence) (s : Subscription) : List InstallEvent :=
  gathered (Occurrence.takenOff (·.events)) past s

namespace Subscription

open scoped List

def queuedInstalls (s : Subscription) : List (InstallTask × Nat) :=
  s.queue.filterMap Task.numbered?

/-- The install numbered `n` is all that is queued. -/
def QueuedAlone (s : Subscription) (n : Nat) : Prop := ∃ task, s.queue = [.install task n]

/-- The worker is at the install numbered `n`. -/
def Installs (s : Subscription) (n : Nat) : Prop := ∃ task, s.work.install? = some (task, n)

/-- Exactly one outcome that waits for the driver is that of the install
numbered `n`. -/
def ReportedOnce (s : Subscription) (n : Nat) : Prop :=
  ∃ event, s.events.filter (fun e => e.seq = n) = [event]

variable {s s' : Subscription} {now : Instant} {m : Move} {n : Nat}

namespace InstallsTracked

theorem unreported_of_lt (h : ∀ e ∈ s.events, e.seq < n) : ¬s.ReportedOnce n := by
  rintro ⟨event, hfilter⟩
  have hevent : event ∈ s.events.filter (fun e => e.seq = n) := by rw [hfilter]; simp
  obtain ⟨hmem, hseq⟩ := List.mem_filter.mp hevent
  have hlt := h event hmem
  rw [decide_eq_true_eq] at hseq
  omega

theorem reported_once (h : s.InstallsTracked) {event : InstallEvent} (hmem : event ∈ s.events)
    (hseq : event.seq = n) : s.ReportedOnce n := by
  obtain ⟨earlier, later, hevents⟩ := List.append_of_mem hmem
  have hascending := h.ascending
  rw [hevents, List.pairwise_append, List.pairwise_cons] at hascending
  obtain ⟨-, ⟨hlater, -⟩, hearlier⟩ := hascending
  have hbefore : earlier.filter (fun e => e.seq = n) = [] := by
    apply List.filter_eq_nil_iff.mpr
    intro e he
    have hlt := hearlier e he event (by simp)
    simp only [decide_eq_true_eq]
    omega
  have hafter : later.filter (fun e => e.seq = n) = [] := by
    apply List.filter_eq_nil_iff.mpr
    intro e he
    have hlt := hlater e he
    simp only [decide_eq_true_eq]
    omega
  exact ⟨event, by simp [hevents, hbefore, hafter, hseq]⟩

/-- What the driver waits for is at exactly one of the three places. -/
theorem at_one_place (h : s.InstallsTracked) (hpending : s.pendingInstall = some n) :
    s.QueuedAlone n ∧ ¬s.Installs n ∧ ¬s.ReportedOnce n ∨
    ¬s.QueuedAlone n ∧ s.Installs n ∧ ¬s.ReportedOnce n ∨
    ¬s.QueuedAlone n ∧ ¬s.Installs n ∧ s.ReportedOnce n := by
  have hunqueued : s.queue = [] → ¬s.QueuedAlone n := by
    rintro hempty ⟨task, hqueue⟩
    rw [hempty] at hqueue
    cases hqueue
  rcases (h.pending n hpending).2 with ⟨task, hqueue, hheld, hevents⟩ |
    ⟨task, hempty, hheld, hevents⟩ | ⟨event, hempty, hfree, -, hmem, hseq⟩
  · refine .inl ⟨⟨task, hqueue⟩, ?_, unreported_of_lt hevents⟩
    rintro ⟨held, hheld'⟩
    exact absurd (hheld held n hheld') (Nat.lt_irrefl n)
  · exact .inr (.inl ⟨hunqueued hempty, ⟨task, hheld⟩, unreported_of_lt hevents⟩)
  · refine .inr (.inr ⟨hunqueued hempty, ?_, h.reported_once hmem hseq⟩)
    rintro ⟨held, hheld⟩
    rw [hfree] at hheld
    cases hheld

theorem queuedInstalls_length (h : s.InstallsTracked) : s.queuedInstalls.length ≤ 1 := by
  cases hpending : s.pendingInstall with
  | none =>
      have hnone : s.queuedInstalls = [] := by
        apply List.filterMap_eq_nil_iff.mpr
        intro task htask
        have hentry := (h.free hpending).1 task htask
        cases task with
        | entry entry => rfl
        | install task seq => cases hentry
      simp [hnone]
  | some n =>
      rcases (h.pending n hpending).2 with ⟨task, hqueue, -⟩ | ⟨_, hempty, -⟩ | ⟨_, hempty, -⟩
      · simp [queuedInstalls, hqueue, Task.numbered?]
      · simp [queuedInstalls, hempty]
      · simp [queuedInstalls, hempty]

end InstallsTracked

/-- The driver queues what it takes up, and takes nothing from the queue but
what it drops. -/
theorem Step.drive_queuedInstalls (h : Step now s .drive s') :
    s.queuedInstalls ++ Occurrence.installNumbered ⟨now, s, .drive⟩ s' =
      (Occurrence.dropped ⟨now, s, .drive⟩ s').filterMap Task.numbered? ++ s'.queuedInstalls := by
  have hqueue := congrArg (List.filterMap Task.numbered?) h.drive_queue
  rw [List.filterMap_append, List.filterMap_append, List.filterMap_map] at hqueue
  have hnumbered : (Occurrence.takenOff (·.snapshots) ⟨now, s, .drive⟩ s').filterMap
      (Task.numbered? ∘ fun task => .install task s'.installSeq) =
        Occurrence.installNumbered ⟨now, s, .drive⟩ s' :=
    congrFun List.filterMap_eq_map _
  rw [hnumbered] at hqueue
  exact hqueue

/-- The queue is left in the order in which it was entered. -/
theorem Step.leaves_queue_in_order (h : Step now s m s') :
    Occurrence.installStarted ⟨now, s, m⟩ s' ++ s'.queuedInstalls <+
      s.queuedInstalls ++ Occurrence.installNumbered ⟨now, s, m⟩ s' := by
  by_cases hdrive : m = .drive
  · subst hdrive
    have hkept : s'.work.install? = s.work.install? := by rw [h.work_kept (by decide)]
    rw [Occurrence.installStarted_of_kept (.inr hkept), List.nil_append, h.drive_queuedInstalls]
    exact List.sublist_append_right _ _
  have hnone : Occurrence.installNumbered ⟨now, s, m⟩ s' = [] := by
    rw [Occurrence.installNumbered, (h.drops_nothing hdrive).1, List.map_nil]
  rw [hnone, List.append_nil]
  have hkept : (s'.work.install? = none ∨ s'.work.install? = s.work.install?) →
      s'.queuedInstalls = s.queuedInstalls →
      Occurrence.installStarted ⟨now, s, m⟩ s' ++ s'.queuedInstalls <+ s.queuedInstalls := by
    intro hwork hqueue
    rw [Occurrence.installStarted_of_kept hwork, List.nil_append, hqueue]
  cases h.effect with
  | leave | schedule | settle | overhear | preempt | learn => exact absurd rfl hdrive
  | signal | beginRead | readCompacted | readFailed => exact hkept (.inr rfl) rfl
  | handOn f entries =>
      have hentries : ((accept s.lastFetched entries).map Task.entry).filterMap
          Task.numbered? = [] := by
        simp [List.filterMap_eq_nil_iff, Task.numbered?]
      apply hkept (.inr rfl)
      simp only [queuedInstalls, onFetched, List.filterMap_append, hentries, List.append_nil]
  | takeEntry _ _ hidle _ hqueue | takeInstall _ _ _ hidle _ hqueue =>
      rw [Occurrence.installStarted, queuedInstalls, queuedInstalls, hidle, hqueue]
      exact List.Sublist.refl _
  | finish | giveUp | abort | beginApply | applied => exact hkept (.inl rfl) rfl
  | refused | installed | installFailed => exact hkept (.inl rfl) rfl
  | beginInstall _ _ hwork => exact hkept (.inr (Work.install_of_preparing hwork).1.symm) rfl

/-- The worker holds one install at a time, from when it takes it up until it is
through with it. -/
theorem Step.holds_one (h : Step now s m s') : s.work.install? = none ∨ s'.work.install? = none ∨
    s'.work.install? = s.work.install? := by
  cases h.effect with
  | takeEntry _ _ hidle | takeInstall _ _ _ hidle => exact .inl (by rw [hidle]; rfl)
  | finish | giveUp | abort | beginApply | applied => exact .inr (.inl rfl)
  | refused | installed | installFailed => exact .inr (.inl rfl)
  | beginInstall _ _ hwork => exact .inr (.inr (Work.install_of_preparing hwork).1.symm)
  | _ => exact .inr (.inr rfl)

/-- The hands of the worker are left in the order in which they were entered. -/
theorem Step.leaves_worker_in_order (h : Step now s m s') :
    Occurrence.installOver ⟨now, s, m⟩ s' ++ s'.work.install?.toList <+
      s.work.install?.toList ++ Occurrence.installStarted ⟨now, s, m⟩ s' := by
  rw [Occurrence.installOver, Occurrence.installStarted]
  rcases h.holds_one with hfree | hfree | hsame
  · rw [hfree, if_pos rfl]
    split <;> simp
  · rw [hfree, if_pos rfl]
    split <;> simp
  · rw [hsame]
    split
    next hfree => simp [hfree]
    next => simp

/-- The state machine is asked for installs in the order in which they were
taken up. -/
theorem Step.asks_in_order (h : Step now s m s') :
    Occurrence.installAsked ⟨now, s, m⟩ s' ++ s'.work.unasked?.toList <+
      s.work.unasked?.toList ++ Occurrence.installStarted ⟨now, s, m⟩ s' := by
  cases h.effect with
  | takeEntry _ _ hidle | takeInstall _ _ _ hidle =>
      rw [Occurrence.installStarted, hidle]
      exact List.Sublist.refl _
  | beginInstall _ _ hwork =>
      rw [Occurrence.installAsked, hwork]
      exact List.sublist_append_left _ _
  | finish | giveUp | abort | beginApply | applied => exact List.nil_sublist _
  | refused | installed | installFailed => exact List.nil_sublist _
  | _ => exact List.sublist_append_left _ _

/-- What a step does to the outcomes that wait for the driver: it hears the
first of them or leaves them, it throws them away, or it adds the one of the
install that the worker is through with. -/
theorem Step.outcomes (h : Step now s m s') :
    Occurrence.takenOff (·.events) ⟨now, s, m⟩ s' ++ s'.events = s.events ∨
    Occurrence.takenOff (·.events) ⟨now, s, m⟩ s' ++ s'.events = [] ∨
    ∃ task event, s.work.install? = some (task, event.seq) ∧ s'.work.install? = none ∧
      Occurrence.takenOff (·.events) ⟨now, s, m⟩ s' ++ s'.events = s.events ++ [event] := by
  have hsame : s'.events = s.events →
      Occurrence.takenOff (·.events) ⟨now, s, m⟩ s' ++ s'.events = s.events := by
    intro hevents
    rw [Occurrence.takenOff_of_same fun _ => hevents, hevents, List.nil_append]
  have hheard : ∀ event, m = .drive → s'.driving = true → s.events = event :: s'.events →
      Occurrence.takenOff (·.events) ⟨now, s, m⟩ s' ++ s'.events = s.events := by
    intro event hmove hdriving hevents
    rw [Occurrence.takenOff_head hmove hdriving hevents, hevents, List.singleton_append]
  cases h.effect with
  | leave => exact .inr (.inl (congrArg (· ++ []) (Occurrence.takenOff_of_left rfl)))
  | settle event _ _ hdriving hevents | overhear event _ hdriving hevents =>
      exact .inl (hheard event rfl hdriving hevents)
  | abort task seq _ hheld | installFailed task seq _ _ hheld =>
      exact .inr (.inr ⟨task, .aborted seq s.lastApplied, hheld, rfl, rfl⟩)
  | installed task seq snapshot _ hheld =>
      exact .inr (.inr ⟨task, .installed seq snapshot.lastApplied, hheld, rfl, rfl⟩)
  | _ => exact .inl (hsame rfl)

/-- Outcomes are heard in the order in which the worker was through with the
installs. -/
theorem Step.hears_in_order (h : Step now s m s') :
    (Occurrence.takenOff (·.events) ⟨now, s, m⟩ s' ++ s'.events).map (·.seq) <+
      s.events.map (·.seq) ++ (Occurrence.installOver ⟨now, s, m⟩ s').map Prod.snd := by
  rcases h.outcomes with hkept | hlost | ⟨task, event, hheld, hfree, hadded⟩
  · rw [hkept]
    exact List.sublist_append_left _ _
  · rw [hlost]
    exact List.nil_sublist _
  · rw [hadded, Occurrence.installOver, if_pos hfree, hheld, List.map_append]
    exact List.Sublist.refl _

/-- The driver counts the snapshots that it takes up, one at a time. -/
theorem Step.takes_up (h : Step now s m s') :
    (Occurrence.takenOff (·.snapshots) ⟨now, s, m⟩ s' = [] ∧ s'.installSeq = s.installSeq) ∨
    ∃ task, Occurrence.takenOff (·.snapshots) ⟨now, s, m⟩ s' = [task] ∧
      s'.installSeq = s.installSeq + 1 := by
  cases h.effect with
  | signal => exact .inl ⟨Occurrence.takenOff_of_same (by simp), rfl⟩
  | leave => exact .inl ⟨Occurrence.takenOff_of_left rfl, rfl⟩
  | preempt task _ _ hdriving hsnapshots =>
      exact .inr ⟨task, Occurrence.takenOff_head rfl hdriving hsnapshots, rfl⟩
  | _ => exact .inl ⟨Occurrence.takenOff_of_same fun _ => rfl, rfl⟩

/-- Snapshots are numbered as they are taken up. -/
theorem Step.numbers_in_order (h : Step now s m s') :
    Occurrence.installNumbered ⟨now, s, m⟩ s' =
        (Occurrence.takenOff (·.snapshots) ⟨now, s, m⟩ s').zipIdx (1 + s.installSeq) ∧
      s'.installSeq =
        s.installSeq + (Occurrence.takenOff (·.snapshots) ⟨now, s, m⟩ s').length := by
  rcases h.takes_up with ⟨htaken, hseq⟩ | ⟨task, htaken, hseq⟩
  · rw [Occurrence.installNumbered, htaken, hseq]
    exact ⟨rfl, rfl⟩
  · rw [Occurrence.installNumbered, htaken, hseq, Nat.add_comm 1]
    exact ⟨rfl, rfl⟩

end Subscription

open Subscription

namespace Run

open scoped List

variable {settings : ReplaySettings} {first : UInt64} {past : List Occurrence}
variable {now : Instant} {s : Subscription}

theorem installs_numbered (h : Run Interleaved settings first past now s) :
    installsNumberedIn past s = (installsTakenIn past s).zipIdx 1 ∧
      s.installSeq = (installsTakenIn past s).length := by
  induction h with
  | start hs =>
      rw [start_eq hs]
      exact ⟨rfl, rfl⟩
  | step _ _ hs ih =>
      obtain ⟨hnumbered, hcount⟩ := ih
      obtain ⟨hnew, hseq⟩ := Step.numbers_in_order hs
      rw [installsNumberedIn, installsTakenIn, gathered_snoc, gathered_snoc, List.zipIdx_append,
        List.length_append, hnew, hseq, hcount]
      exact ⟨congrArg (· ++ _) hnumbered, rfl⟩

/-- The worker takes up installs in the order in which their snapshots were
taken up. -/
theorem installs_start_in_order (h : Run Interleaved settings first past now s) :
    installsStartedIn past s ++ s.queuedInstalls <+ (installsTakenIn past s).zipIdx 1 := by
  rw [← h.installs_numbered.1]
  exact h.flow_in_order queuedInstalls Occurrence.installNumbered Occurrence.installStarted
    (fun s hs => by rw [start_eq hs]; rfl) fun _ _ _ _ hstep => Step.leaves_queue_in_order hstep

theorem installs_asked_in_order (h : Run Interleaved settings first past now s) :
    installsAskedIn past s <+ installsStartedIn past s := by
  have hasked := h.flow_in_order (·.work.unasked?.toList) Occurrence.installStarted
    Occurrence.installAsked (fun s hs => by rw [start_eq hs]; rfl)
    fun _ _ _ _ hstep => Step.asks_in_order hstep
  exact (List.sublist_append_left _ _).trans hasked

/-- Outcomes are heard in the order in which the snapshots were taken up. -/
theorem outcomes_in_order (h : Run Interleaved settings first past now s) :
    (outcomesHeardIn past s ++ s.events).map (·.seq) <+ List.range' 1 s.installSeq := by
  have hheard := h.flow_in_order (·.events.map (·.seq))
    (fun x after => (x.installOver after).map Prod.snd)
    (fun x after => (x.takenOff (·.events) after).map (·.seq))
    (fun s hs => by rw [start_eq hs]; rfl) fun _ _ _ _ hstep => by
      rw [← List.map_append]
      exact Step.hears_in_order hstep
  rw [gathered_map, gathered_map, ← List.map_append] at hheard
  have hover : installsOverIn past s <+ installsStartedIn past s :=
    (List.sublist_append_left _ _).trans (h.flow_in_order (·.work.install?.toList)
      Occurrence.installStarted Occurrence.installOver (fun s hs => by rw [start_eq hs]; rfl)
      fun _ _ _ _ hstep => Step.leaves_worker_in_order hstep)
  have hstarted : installsStartedIn past s <+ (installsTakenIn past s).zipIdx 1 :=
    (List.sublist_append_left _ _).trans h.installs_start_in_order
  have hnumbers := hheard.trans ((hover.trans hstarted).map Prod.snd)
  rwa [List.zipIdx_map_snd, ← h.installs_numbered.2] at hnumbers

/-- While the subscription goes on, the install that reading waits for is queued
alone, held by the worker or reported, and never two of these at once; without
one, only entries are queued. Installs start in the order of their snapshots,
and no outcome is heard twice. -/
theorem pending_install_at_one_place (h : Run Interleaved settings first past now s)
    (hlive : s.stopped = false) :
    (∀ n, s.pendingInstall = some n →
      s.QueuedAlone n ∧ ¬s.Installs n ∧ ¬s.ReportedOnce n ∨
      ¬s.QueuedAlone n ∧ s.Installs n ∧ ¬s.ReportedOnce n ∨
      ¬s.QueuedAlone n ∧ ¬s.Installs n ∧ s.ReportedOnce n) ∧
    (s.pendingInstall = none → ∀ task ∈ s.queue, task.isEntry = true) ∧
    s.queuedInstalls.length ≤ 1 ∧
    installsStartedIn past s ++ s.queuedInstalls <+ (installsTakenIn past s).zipIdx 1 ∧
    installsAskedIn past s <+ installsStartedIn past s ∧
    (∀ event ∈ outcomesHeardIn past s ++ s.events, event.seq ≤ s.installSeq) ∧
    ((outcomesHeardIn past s ++ s.events).map (·.seq)).Pairwise (· < ·) := by
  have htracked : s.InstallsTracked := (h.chained_above.2 hlive).tracked
  have hnumbers := h.outcomes_in_order
  refine ⟨fun n => htracked.at_one_place, fun hnone => (htracked.free hnone).1,
    htracked.queuedInstalls_length, h.installs_start_in_order, h.installs_asked_in_order, ?_, ?_⟩
  · intro event hevent
    have hmem := hnumbers.subset (List.mem_map_of_mem hevent)
    rw [List.mem_range'_1] at hmem
    omega
  · exact List.Pairwise.sublist hnumbers List.pairwise_lt_range'

/-- Three snapshots arrive while the first is being installed. The second is
dropped from the queue; when the third is installed, the driver has only just
heard that the first was given up. -/
def overtaken : List (Instant × Move) :=
  [(0, .receive (.install ⟨⟨1, 1⟩, 1, "", 5, .normal⟩ "store1")), (0, .drive), (0, .work),
    (0, .beginInstall),
    (1, .receive (.install ⟨⟨1, 1⟩, 1, "", 6, .normal⟩ "store2")),
    (1, .receive (.install ⟨⟨1, 1⟩, 1, "", 7, .normal⟩ "store3")), (1, .drive), (1, .drive),
    (2, .work), (2, .work), (2, .beginInstall),
    (3, .endInstall (.ok ⟨⟨1, 1⟩, 1, "", 7, .normal⟩)), (3, .drive)]

theorem pending_install_at_one_place_overtaken :
    ∃ past now s, Run Interleaved {} 0 past now s ∧ s.stopped = false ∧
      s.pendingInstall = some 3 ∧ (outcomesHeardIn past s).map (·.seq) = [1] ∧
      (installsStartedIn past s).map Prod.snd = [1, 3] ∧
      ¬s.QueuedAlone 3 ∧ ¬s.Installs 3 ∧ s.ReportedOnce 3 := by
  obtain ⟨fresh, past, s, hstart, hplay, hlive, hpending, hheard, hstarted, hqueue, hwork⟩ :
      ∃ fresh past s, Subscription.start {} 0 = .ok fresh ∧
        play? [] fresh overtaken = some (past, s) ∧ s.stopped = false ∧
        s.pendingInstall = some 3 ∧ (outcomesHeardIn past s).map (·.seq) = [1] ∧
        (installsStartedIn past s).map Prod.snd = [1, 3] ∧ s.queue = [] ∧ s.work = .idle :=
    ⟨_, _, _, rfl, rfl, rfl, rfl, rfl, rfl, rfl, rfl⟩
  obtain ⟨now, hrun⟩ := run_of_play (.start hstart) (by decide) hplay
  refine ⟨past, now, s, hrun.interleaved, hlive, hpending, hheard, hstarted, ?_⟩
  rcases (pending_install_at_one_place hrun.interleaved hlive).1 3 hpending with
    ⟨⟨task, hqueued⟩, -⟩ | ⟨-, ⟨task, hheld⟩, -⟩ | hreported
  · rw [hqueue] at hqueued
    cases hqueued
  · rw [hwork] at hheld
    cases hheld
  · exact hreported

end Run

end RangeKeeper
