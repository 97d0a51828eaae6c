import RangeKeeper.Proofs.Replay.Run

/-!
What a subscription does, and what it leaves alone. Each equation writes the
state after an operation as the state before it with the changed fields named.
`Effect` puts them together: of every step it says what was given before and
which fields it writes, so that a property of other fields carries over by
definition, and a proof by cases of what holds after a step splits on its
effect. Requests are answered one by one; none of the other fields sees that.
-/

namespace RangeKeeper

def InstallEvent.seq : InstallEvent → Nat
  | .installed seq _ | .aborted seq _ => seq

/-- Where the state machine stands after the install. -/
def InstallEvent.position : InstallEvent → UInt64
  | .installed _ lastApplied | .aborted _ lastApplied => lastApplied

/-- Below a greater word the successor does not wrap around. -/
theorem toNat_succ_of_lt {a b : UInt64} (h : a < b) : (a + 1).toNat = a.toNat + 1 := by
  have hlt : a.toNat < b.toNat := UInt64.lt_iff_toNat_lt.mp h
  have hb := b.toNat_lt
  have hone : (1 : UInt64).toNat = 1 := rfl
  rw [UInt64.toNat_add, hone]
  omega

namespace Subscription

theorem start_eq {settings : ReplaySettings} {first : UInt64} {s : Subscription}
    (h : Subscription.start settings first = .ok s) :
    s = { settings := settings, lastFetched := first, lastApplied := first } := by
  unfold start at h
  cases hvalid : settings.validate with
  | error cause =>
      rw [hvalid] at h
      cases h
  | ok _ =>
      rw [hvalid] at h
      cases h
      rfl

theorem cancelRequests_eq (s : Subscription) (tickets : List Nat) :
    ∃ requests, s.cancelRequests tickets = { s with requests := requests } := by
  induction tickets generalizing s with
  | nil => exact ⟨s.requests, rfl⟩
  | cons ticket rest ih =>
      obtain ⟨requests, hrest⟩ := ih (s.settle ticket .cancelled)
      exact ⟨requests, hrest⟩

theorem dropQueue_eq (s : Subscription) :
    ∃ requests, s.dropQueue = { s with
      queue := []
      taskCancelled := true
      requests := requests
      metrics := s.metrics.recordCancelled (s.queue.countP Task.isEntry) } := by
  obtain ⟨requests, hrequests⟩ := s.cancelRequests_eq (s.queue.filterMap Task.ticket?)
  exact ⟨requests, by rw [dropQueue, hrequests]⟩

theorem onSnapshot_eq (s : Subscription) (task : InstallTask) :
    ∃ requests, s.onSnapshot task = { s with
      queue := [.install task (s.installSeq + 1)]
      taskCancelled := true
      fetch := none
      installSeq := s.installSeq + 1
      pendingInstall := some (s.installSeq + 1)
      requests := requests
      metrics := s.metrics.recordCancelled (s.queue.countP Task.isEntry) } := by
  obtain ⟨requests, hdrop⟩ := s.dropQueue_eq
  exact ⟨requests, by simp only [onSnapshot, hdrop]⟩

theorem leave_eq (s : Subscription) :
    ∃ requests, s.leave = { s with
      driving := false
      fetch := none
      commits := []
      snapshots := []
      events := []
      queue := []
      taskCancelled := true
      requests := requests
      metrics := s.metrics.recordCancelled (s.queue.countP Task.isEntry) } := by
  obtain ⟨dropped, hdrop⟩ := s.dropQueue_eq
  obtain ⟨requests, hrequests⟩ :=
    s.dropQueue.cancelRequests_eq (s.snapshots.map InstallTask.ticket)
  rw [hdrop] at hrequests
  exact ⟨requests, by simp only [leave, hdrop, hrequests]⟩

theorem publish_eq (s : Subscription) (index : UInt64) :
    ∃ commits, (s.driving = false → commits = s.commits) ∧
      s.publish index = { s with commits := commits } := by
  unfold publish
  split
  next hopen =>
    rw [Bool.and_eq_true] at hopen
    exact ⟨_, by simp [hopen.1], rfl⟩
  next => exact ⟨s.commits, fun _ => rfl, rfl⟩

/-- A request is put on its stream, or is cancelled at once. -/
theorem request_cases (s : Subscription) (snapshot : Snapshot) (leader : String) :
    (s.driving = true ∧ s.request snapshot leader = { s with
      requests := s.requests ++ [.pending]
      snapshots := s.snapshots ++ [⟨snapshot, leader, s.requests.length⟩] }) ∨
    s.request snapshot leader = { s with requests := s.requests ++ [.cancelled] } := by
  unfold request
  split
  next hopen =>
    rw [Bool.and_eq_true] at hopen
    exact .inl ⟨hopen.1, rfl⟩
  next => exact .inr rfl

/-- A signal reaches the streams, the requests and the stop switch, and nothing
else. A driver that has left gets nothing more. -/
theorem receive_eq (s : Subscription) (signal : Signal) :
    ∃ commits commitsOpen snapshots snapshotsOpen requests stopped,
      (stopped = true ↔ s.stopped = true ∨ signal = .stop) ∧
      (s.driving = false → commits = s.commits ∧ snapshots = s.snapshots) ∧
      s.receive signal = { s with
        commits := commits
        commitsOpen := commitsOpen
        snapshots := snapshots
        snapshotsOpen := snapshotsOpen
        requests := requests
        stopped := stopped } := by
  cases signal with
  | commit index =>
      obtain ⟨_, hgone, heq⟩ := s.publish_eq index
      exact ⟨_, _, _, _, _, _, by simp, fun hleft => ⟨hgone hleft, rfl⟩, heq⟩
  | install snapshot leader =>
      rcases s.request_cases snapshot leader with ⟨hdriving, heq⟩ | heq
      · exact ⟨_, _, _, _, _, _, by simp, by simp [hdriving], heq⟩
      · exact ⟨_, _, _, _, _, _, by simp, fun _ => ⟨rfl, rfl⟩, heq⟩
  | abandon ticket => exact ⟨_, _, _, _, _, _, by simp, fun _ => ⟨rfl, rfl⟩, rfl⟩
  | endCommits => exact ⟨_, _, _, _, _, _, by simp, fun _ => ⟨rfl, rfl⟩, rfl⟩
  | endSnapshots => exact ⟨_, _, _, _, _, _, by simp, fun _ => ⟨rfl, rfl⟩, rfl⟩
  | stop => exact ⟨_, _, _, _, _, true, by simp, fun _ => ⟨rfl, rfl⟩, rfl⟩

/-- The outcome that is waited for settles the install; any other changes
nothing. -/
theorem onEvent_eq (s : Subscription) (event : InstallEvent) :
    (s.pendingInstall = some event.seq ∧ ∃ commit, s.onEvent event = { s with
      pendingInstall := none
      lastFetched := event.position
      commit := commit
      armed := true
      retryFetch := false }) ∨
    (s.pendingInstall ≠ some event.seq ∧ s.onEvent event = s) := by
  cases event with
  | installed seq lastApplied =>
      by_cases hseq : s.pendingInstall = some seq
      · exact .inl ⟨hseq, none, by simp only [onEvent, hseq, if_true, InstallEvent.position]⟩
      · exact .inr ⟨hseq, by simp only [onEvent, hseq, if_false]⟩
  | aborted seq lastApplied =>
      by_cases hseq : s.pendingInstall = some seq
      · exact .inl ⟨hseq, s.commit, by simp only [onEvent, hseq, if_true, InstallEvent.position]⟩
      · exact .inr ⟨hseq, by simp only [onEvent, hseq, if_false]⟩

/-- Whether or not it counts, an outcome changes nothing but what reading goes
by. -/
theorem onEvent_frame (s : Subscription) (event : InstallEvent) :
    ∃ pendingInstall lastFetched commit armed retryFetch, s.onEvent event = { s with
      pendingInstall := pendingInstall
      lastFetched := lastFetched
      commit := commit
      armed := armed
      retryFetch := retryFetch } := by
  rcases s.onEvent_eq event with ⟨_, _, heq⟩ | ⟨_, heq⟩
  · exact ⟨_, _, _, _, _, heq⟩
  · exact ⟨_, _, _, _, _, heq⟩

end Subscription

inductive Actor where
  | outside
  | driver
  | worker
  deriving DecidableEq

def Move.actor : Move → Actor
  | .receive _ => .outside
  | .drive | .beginRead | .endRead _ => .driver
  | .work | .beginApply | .endApply _ | .beginInstall | .endInstall _ => .worker

namespace Subscription

/-- What a step does, with the fields that it changes written out. Outcomes are
told apart by whether the driver waits for them, and calls by how they were
answered. What becomes of the requests is left open. -/
inductive Effect (now : Instant) (s : Subscription) : Move → Subscription → Prop where
  | signal (signal : Signal) (commits : List UInt64) (commitsOpen : Bool)
      (snapshots : List InstallTask) (snapshotsOpen : Bool) (requests : List RequestState)
      (stopped : Bool) :
      (stopped = true ↔ s.stopped = true ∨ signal = .stop) →
      (s.driving = false → commits = s.commits ∧ snapshots = s.snapshots) →
      Effect now s (.receive signal) { s with
        commits := commits
        commitsOpen := commitsOpen
        snapshots := snapshots
        snapshotsOpen := snapshotsOpen
        requests := requests
        stopped := stopped }
  | leave (requests : List RequestState) :
      s.driving = true → s.stopped = true →
      Effect now s .drive { s with
        driving := false
        fetch := none
        commits := []
        snapshots := []
        events := []
        queue := []
        taskCancelled := true
        requests := requests
        metrics := s.metrics.recordCancelled (s.queue.countP Task.isEntry) }
  | schedule : s.driving = true → s.wantsFetch = true → Effect now s .drive (s.scheduleFetch now)
  | settle (event : InstallEvent) (rest : List InstallEvent) (commit : Option UInt64) :
      s.driving = true → s.events = event :: rest → s.pendingInstall = some event.seq →
      Effect now s .drive { s with
        events := rest
        pendingInstall := none
        lastFetched := event.position
        commit := commit
        armed := true
        retryFetch := false }
  | overhear (event : InstallEvent) (rest : List InstallEvent) :
      s.driving = true → s.events = event :: rest → s.pendingInstall ≠ some event.seq →
      Effect now s .drive { s with events := rest }
  | preempt (task : InstallTask) (rest : List InstallTask) (requests : List RequestState) :
      s.driving = true → s.snapshots = task :: rest →
      Effect now s .drive { s with
        snapshots := rest
        queue := [.install task (s.installSeq + 1)]
        taskCancelled := true
        fetch := none
        installSeq := s.installSeq + 1
        pendingInstall := some (s.installSeq + 1)
        requests := requests
        metrics := s.metrics.recordCancelled (s.queue.countP Task.isEntry) }
  | learn (index : UInt64) (rest : List UInt64) :
      s.driving = true → s.commits = index :: rest →
      Effect now s .drive ({ s with commits := rest }.onCommit index)
  | beginRead (f : Fetch) :
      s.fetch = some f → f.reading = false → f.due ≤ now →
      Effect now s .beginRead { s with fetch := some { f with reading := true } }
  | handOn (f : Fetch) (entries : List LogEntry) :
      s.fetch = some f → f.reading = true →
      Effect now s (.endRead (.ok entries)) (s.onFetched (.ok entries))
  | readCompacted (f : Fetch) (cause : Fault) :
      s.fetch = some f → f.reading = true → cause.isCompaction = true →
      Effect now s (.endRead (.error cause)) { s with
        fetch := none
        armed := false
        metrics := s.metrics.recordFetchFailure true }
  | readFailed (f : Fetch) (cause : Fault) :
      s.fetch = some f → f.reading = true → cause.isCompaction = false →
      Effect now s (.endRead (.error cause)) { s with
        fetch := none
        retryFetch := true
        metrics := s.metrics.recordFetchFailure false }
  | finish : s.work = .idle → s.stopped = true → Effect now s .work { s with work := .ended }
  | takeEntry (entry : LogEntry) (rest : List Task) :
      s.work = .idle → s.stopped = false → s.queue = .entry entry :: rest →
      Effect now s .work { s with
        queue := rest
        work := .waiting entry 0 now
        taskCancelled := false }
  | takeInstall (task : InstallTask) (seq : Nat) (rest : List Task) :
      s.work = .idle → s.stopped = false → s.queue = .install task seq :: rest →
      Effect now s .work { s with
        queue := rest
        work := .preparing task seq
        taskCancelled := false }
  | giveUp (entry : LogEntry) :
      s.work.entry? = some entry → s.isCancelled = true →
      Effect now s .work { s with work := .idle, metrics := s.metrics.recordCancelled 1 }
  | abort (task : InstallTask) (seq : Nat) (requests : List RequestState) :
      s.work.install? = some (task, seq) →
      Effect now s .work { s with
        work := .idle
        events := s.events ++ [.aborted seq s.lastApplied]
        requests := requests
        metrics := s.metrics.recordInstallFailure }
  | beginApply (entry : LogEntry) (failures : Nat) :
      s.work.entry? = some entry →
      Effect now s .beginApply { s with work := .applying entry failures }
  | applied (entry : LogEntry) (failures : Nat) :
      s.work = .applying entry failures →
      Effect now s (.endApply (.ok ())) { s with
        work := .idle
        lastApplied := entry.index
        metrics := s.metrics.recordApplied entry.index }
  | refused (entry : LogEntry) (failures : Nat) (due : Instant) (cause : Fault) :
      s.work = .applying entry failures →
      Effect now s (.endApply (.error cause)) { s with
        work := .waiting entry (failures + 1) due
        metrics := s.metrics.recordApplyFailure }
  | beginInstall (task : InstallTask) (seq : Nat) :
      s.work = .preparing task seq →
      Effect now s .beginInstall { s with work := .installing task seq }
  | installed (task : InstallTask) (seq : Nat) (snapshot : Snapshot)
      (requests : List RequestState) :
      s.work.install? = some (task, seq) →
      Effect now s (.endInstall (.ok snapshot)) { s with
        work := .idle
        lastApplied := snapshot.lastApplied
        events := s.events ++ [.installed seq snapshot.lastApplied]
        requests := requests
        metrics := s.metrics.recordInstalled snapshot.lastApplied }
  | installFailed (task : InstallTask) (seq : Nat) (cause : Fault) (requests : List RequestState) :
      s.work.install? = some (task, seq) →
      Effect now s (.endInstall (.error cause)) { s with
        work := .idle
        events := s.events ++ [.aborted seq s.lastApplied]
        requests := requests
        metrics := s.metrics.recordInstallFailure }

variable {s s' : Subscription} {now : Instant} {m : Move}

/-- Every step has its effect: whatever holds after all of them holds after the
step. -/
theorem Step.effect (h : Step now s m s') : Effect now s m s' := by
  cases h with
  | receive signal =>
      obtain ⟨_, _, _, _, _, _, hstopped, hgone, heq⟩ := s.receive_eq signal
      rw [heq]
      exact .signal signal _ _ _ _ _ _ hstopped hgone
  | leave hdriving hstopped =>
      obtain ⟨requests, heq⟩ := s.leave_eq
      rw [heq]
      exact .leave requests hdriving hstopped
  | schedule hdriving hwants => exact .schedule hdriving hwants
  | hear event rest hdriving hevents =>
      rcases onEvent_eq { s with events := rest } event with ⟨hseq, commit, heq⟩ | ⟨hother, heq⟩
      · rw [heq]
        exact .settle event rest commit hdriving hevents hseq
      · rw [heq]
        exact .overhear event rest hdriving hevents hother
  | preempt task rest hdriving hsnapshots =>
      obtain ⟨requests, heq⟩ := onSnapshot_eq { s with snapshots := rest } task
      rw [heq]
      exact .preempt task rest requests hdriving hsnapshots
  | learn index rest hdriving hcommits => exact .learn index rest hdriving hcommits
  | beginRead f hfetch hfresh hdue => exact .beginRead f hfetch hfresh hdue
  | endRead f answer hfetch hreading =>
      cases answer with
      | ok entries => exact .handOn f entries hfetch hreading
      | error cause =>
          cases hcause : cause.isCompaction with
          | true =>
              simp only [onFetched, hcause, if_true]
              exact .readCompacted f cause hfetch hreading hcause
          | false =>
              simp only [onFetched, hcause, Bool.false_eq_true, if_false]
              exact .readFailed f cause hfetch hreading hcause
  | finish hidle hstopped => exact .finish hidle hstopped
  | take task rest hidle hlive hqueue =>
      cases task with
      | entry entry => exact .takeEntry entry rest hidle hlive hqueue
      | install task seq => exact .takeInstall task seq rest hidle hlive hqueue
  | giveUp entry hheld hcancelled => exact .giveUp entry hheld hcancelled
  | abort task seq hheld => exact .abort task seq _ hheld
  | beginApply entry failures due hwork =>
      exact .beginApply entry failures (Work.entry_of_waiting hwork).1
  | endApply entry failures answer hwork =>
      cases answer with
      | ok _ => exact .applied entry failures hwork
      | error cause => exact .refused entry failures _ cause hwork
  | beginInstall task seq hwork => exact .beginInstall task seq hwork
  | endInstall task seq answer hwork =>
      have hheld := (Work.install_of_installing hwork).1
      cases answer with
      | ok snapshot => exact .installed task seq snapshot _ hheld
      | error cause => exact .installFailed task seq cause _ hheld

theorem Step.settings_eq (h : Step now s m s') : s'.settings = s.settings := by
  cases h.effect <;> rfl

/-- Only the worker changes what it holds. -/
theorem Step.work_kept (h : Step now s m s') (hm : m.actor ≠ .worker) : s'.work = s.work := by
  cases h.effect with
  | finish | takeEntry | takeInstall | giveUp | abort | beginApply | applied => exact absurd rfl hm
  | refused | beginInstall | installed | installFailed => exact absurd rfl hm
  | _ => rfl

/-- Only a stop stops a subscription, and nothing starts it again. -/
theorem Step.stopped_iff (h : Step now s m s') :
    s'.stopped = true ↔ s.stopped = true ∨ m = .receive .stop := by
  cases h.effect with
  | signal signal _ _ _ _ _ _ hstopped => rw [hstopped, Move.receive.injEq]
  | _ => simp [scheduleFetch, onCommit, onFetched]

theorem Step.live_before (h : Step now s m s') (hlive : s'.stopped = false) :
    s.stopped = false := by
  rw [Bool.eq_false_iff] at hlive ⊢
  exact fun hstopped => hlive (h.stopped_iff.mpr (.inl hstopped))

end Subscription

end RangeKeeper
