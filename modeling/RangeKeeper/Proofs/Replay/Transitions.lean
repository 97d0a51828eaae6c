import Mathlib.Data.List.Induction
import Mathlib.Data.List.Perm.Basic
import RangeKeeper.Proofs.Replay.Frame

/-!
What a history did, move by move. An occurrence says what was done and from
where. Put beside the state that it led to, it also says what the move did to
the streams and to the queue: the moves that the driver makes by itself bear one
label, and only their effect tells one from another. What comes into the hands
of a subscription by some moves and goes out of them by others is accounted for
over every history, once it is accounted for over every step.
-/

namespace RangeKeeper

variable {α : Type}

/-- A counter that counts nothing stays as it was. -/
theorem counter_kept (counter : UInt64) : counter = counter + UInt64.ofNat 0 := by simp

/-- The occurrences of a history, each with the state that it led to. -/
def transitions : List Occurrence → Subscription → List (Occurrence × Subscription)
  | [], _ => []
  | [x], s => [(x, s)]
  | x :: y :: rest, s => (x, y.before) :: transitions (y :: rest) s

/-- What the moves of a history brought up, one after the other. -/
def gathered (f : Occurrence → Subscription → List α) (past : List Occurrence)
    (s : Subscription) : List α :=
  (transitions past s).flatMap fun t => f t.1 t.2

theorem transitions_append (earlier : List Occurrence) (x : Occurrence) (later : List Occurrence)
    (s : Subscription) :
    transitions (earlier ++ x :: later) s =
      transitions earlier x.before ++ transitions (x :: later) s := by
  induction earlier with
  | nil => rfl
  | cons y rest ih =>
      cases rest with
      | nil => rfl
      | cons z rest => exact congrArg ((y, z.before) :: ·) ih

theorem transitions_snoc (past : List Occurrence) (x : Occurrence) (s : Subscription) :
    transitions (past ++ [x]) s = transitions past x.before ++ [(x, s)] :=
  transitions_append past x [] s

theorem gathered_append (f : Occurrence → Subscription → List α) (earlier : List Occurrence)
    (x : Occurrence) (later : List Occurrence) (s : Subscription) :
    gathered f (earlier ++ x :: later) s =
      gathered f earlier x.before ++ gathered f (x :: later) s := by
  simp only [gathered, transitions_append, List.flatMap_append]

theorem gathered_single (f : Occurrence → Subscription → List α) (x : Occurrence)
    (s : Subscription) : gathered f [x] s = f x s := by
  simp [gathered, transitions]

theorem gathered_snoc (f : Occurrence → Subscription → List α) (past : List Occurrence)
    (x : Occurrence) (s : Subscription) :
    gathered f (past ++ [x]) s = gathered f past x.before ++ f x s := by
  rw [gathered_append, gathered_single]

/-- What only the moves themselves tell is gathered from the occurrences
alone. -/
theorem gathered_of_moves (f : Occurrence → List α) (past : List Occurrence) (s : Subscription) :
    gathered (fun x _ => f x) past s = past.flatMap f := by
  induction past using List.reverseRecOn generalizing s with
  | nil => rfl
  | append_singleton rest x ih =>
      rw [gathered_snoc, ih, List.flatMap_append, List.flatMap_singleton]

/-- Gathering two things at a time is gathering the one and then the other, up
to the order. -/
theorem gathered_both (f g : Occurrence → Subscription → List α) (past : List Occurrence)
    (s : Subscription) :
    (gathered (fun x after => f x after ++ g x after) past s).Perm
      (gathered f past s ++ gathered g past s) :=
  (List.flatMap_append_perm _ _ _).symm

theorem gathered_map {β : Type} (g : α → β) (f : Occurrence → Subscription → List α)
    (past : List Occurrence) (s : Subscription) :
    gathered (fun x after => (f x after).map g) past s = (gathered f past s).map g :=
  List.map_flatMap.symm

namespace Occurrence

/-- The message that the driver takes off a stream in this move. A driver that
leaves throws away what waits for it and takes up none of it. -/
def takenOff (stream : Subscription → List α) (x : Occurrence) (after : Subscription) : List α :=
  match x.move with
  | .drive =>
    if after.driving && decide ((stream after).length < (stream x.before).length) then
      (stream x.before).take 1
    else []
  | _ => []

/-- What the driver drops from the queue in this move: all that is there when it
takes up a snapshot, and when it leaves. -/
def dropped (x : Occurrence) (after : Subscription) : List Task :=
  if x.before.driving && !after.driving || !(x.takenOff (·.snapshots) after).isEmpty then
    x.before.queue
  else []

variable {x : Occurrence} {after : Subscription} {stream : Subscription → List α}

theorem takenOff_of_same (h : x.move = .drive → stream after = stream x.before) :
    x.takenOff stream after = [] := by
  unfold takenOff
  split
  next hdrive => simp [h hdrive]
  next => rfl

theorem takenOff_of_left (h : after.driving = false) : x.takenOff stream after = [] := by
  unfold takenOff
  split
  next => simp [h]
  next => rfl

theorem takenOff_head {message : α} (hmove : x.move = .drive) (hdriving : after.driving = true)
    (hstream : stream x.before = message :: stream after) :
    x.takenOff stream after = [message] := by
  simp [takenOff, hmove, hdriving, hstream]

theorem mem_takenOff_head {message : α} (hmove : x.move = .drive) (hdriving : after.driving = true)
    (hstream : stream x.before = message :: stream after) : message ∈ x.takenOff stream after := by
  rw [takenOff_head hmove hdriving hstream]
  exact List.mem_singleton_self message

/-- What a listening driver takes off a stream is what the stream has lost, if
that is one message. -/
theorem takenOff_of_prefix {lost : List α} (hmove : x.move = .drive)
    (hdriving : after.driving = true) (hstream : stream x.before = lost ++ stream after)
    (hone : lost.length ≤ 1) :
    x.takenOff stream after = lost := by
  cases lost with
  | nil => exact takenOff_of_same fun _ => hstream.symm
  | cons message rest =>
      have hrest : rest = [] := List.length_eq_zero_iff.mp (by simpa using hone)
      subst hrest
      exact takenOff_head hmove hdriving hstream

theorem dropped_of_same (hdriving : after.driving = x.before.driving)
    (hsnapshots : x.move = .drive → after.snapshots = x.before.snapshots) :
    x.dropped after = [] := by
  have htaken : x.takenOff (·.snapshots) after = [] := takenOff_of_same hsnapshots
  simp [dropped, hdriving, htaken]

theorem dropped_of_left (hbefore : x.before.driving = true) (hafter : after.driving = false) :
    x.dropped after = x.before.queue := by
  simp [dropped, hbefore, hafter]

theorem dropped_of_taken {task : InstallTask} (h : x.takenOff (·.snapshots) after = [task]) :
    x.dropped after = x.before.queue := by
  simp [dropped, h]

end Occurrence

namespace Subscription

variable {s s' : Subscription} {now : Instant} {m : Move}

/-- When the driver takes up a snapshot, and when it leaves, the queue is
dropped and what it dropped is counted. Whatever else it does by itself leaves
the queue and the counters alone. -/
theorem Step.drops (h : Step now s .drive s') :
    (Occurrence.dropped ⟨now, s, .drive⟩ s' = s.queue ∧
      s'.queue = (Occurrence.takenOff (·.snapshots) ⟨now, s, .drive⟩ s').map
        (fun task => Task.install task s'.installSeq) ∧
      s'.metrics = s.metrics.recordCancelled (s.queue.countP Task.isEntry)) ∨
    (Occurrence.takenOff (·.snapshots) ⟨now, s, .drive⟩ s' = [] ∧
      Occurrence.dropped ⟨now, s, .drive⟩ s' = [] ∧
      s'.queue = s.queue ∧ s'.metrics = s.metrics) := by
  have htaken : ∀ task, s'.driving = true → s.snapshots = task :: s'.snapshots →
      Occurrence.takenOff (·.snapshots) ⟨now, s, .drive⟩ s' = [task] :=
    fun _ hdriving hsnapshots => Occurrence.takenOff_head rfl hdriving hsnapshots
  cases h.effect with
  | leave _ hdriving =>
      exact .inl ⟨Occurrence.dropped_of_left hdriving rfl,
        congrArg (List.map _) (Occurrence.takenOff_of_left rfl).symm, rfl⟩
  | preempt task _ _ hdriving hsnapshots =>
      have htaken := htaken task hdriving hsnapshots
      exact .inl ⟨Occurrence.dropped_of_taken htaken, by rw [htaken]; rfl, rfl⟩
  | schedule | settle | overhear | learn =>
      exact .inr ⟨Occurrence.takenOff_of_same fun _ => rfl,
        Occurrence.dropped_of_same rfl fun _ => rfl, rfl, rfl⟩

/-- A snapshot that the driver takes up is queued as an install, and what it
drops leaves the queue. -/
theorem Step.drive_queue (h : Step now s .drive s') :
    s.queue ++ (Occurrence.takenOff (·.snapshots) ⟨now, s, .drive⟩ s').map
        (fun task => Task.install task s'.installSeq) =
      Occurrence.dropped ⟨now, s, .drive⟩ s' ++ s'.queue := by
  rcases h.drops with ⟨hdropped, hqueue, _⟩ | ⟨htaken, hdropped, hqueue, _⟩
  · rw [hdropped, hqueue]
  · rw [htaken, hdropped, hqueue]
    exact List.append_nil _

/-- Of all that is counted, the driver by itself counts only the entries that it
drops. -/
theorem Step.drive_counts (h : Step now s .drive s') :
    s'.metrics = s.metrics.recordCancelled
      ((Occurrence.dropped ⟨now, s, .drive⟩ s').countP Task.isEntry) := by
  rcases h.drops with ⟨hdropped, _, hmetrics⟩ | ⟨_, hdropped, _, hmetrics⟩
  · rw [hdropped, hmetrics]
  · rw [hdropped, hmetrics]
    simp [ReplayMetrics.recordCancelled]

/-- Snapshots are taken up, and the queue is dropped, only in a move that the
driver makes by itself. -/
theorem Step.drops_nothing (h : Step now s m s') (hm : m ≠ .drive) :
    Occurrence.takenOff (·.snapshots) ⟨now, s, m⟩ s' = [] ∧
      Occurrence.dropped ⟨now, s, m⟩ s' = [] := by
  have hdriving : s'.driving = s.driving := by
    cases h.effect with
    | leave | schedule | settle | overhear | preempt | learn => exact absurd rfl hm
    | _ => rfl
  exact ⟨Occurrence.takenOff_of_same fun hdrive => absurd hdrive hm,
    Occurrence.dropped_of_same hdriving fun hdrive => absurd hdrive hm⟩

end Subscription

namespace Run

open scoped List

variable {next : Transition} {settings : ReplaySettings} {first : UInt64}
variable {past : List Occurrence} {now : Instant} {s : Subscription}

/-- Over a history what came in has gone out or is held, if this is so of every
step. -/
theorem flow (held : Subscription → List α) (enters leaves : Occurrence → Subscription → List α)
    (hstart : ∀ s, Subscription.start settings first = .ok s → held s = [])
    (hstep : ∀ now s m s', next now s m s' →
      (held s ++ enters ⟨now, s, m⟩ s').Perm (leaves ⟨now, s, m⟩ s' ++ held s'))
    (h : Run next settings first past now s) :
    (gathered enters past s).Perm (gathered leaves past s ++ held s) := by
  induction h with
  | start hs =>
      rw [hstart _ hs]
      exact .nil
  | @step past before now m s s' _ _ hs ih =>
      rw [gathered_snoc, gathered_snoc, List.append_assoc]
      calc gathered enters past s ++ enters ⟨now, s, m⟩ s'
        _ ~ gathered leaves past s ++ held s ++ enters ⟨now, s, m⟩ s' := ih.append_right _
        _ = gathered leaves past s ++ (held s ++ enters ⟨now, s, m⟩ s') := List.append_assoc ..
        _ ~ gathered leaves past s ++ (leaves ⟨now, s, m⟩ s' ++ held s') :=
          (hstep _ _ _ _ hs).append_left _

/-- What enters a stage leaves it in the same order or drops out, if this is so
of every step. -/
theorem flow_in_order (held : Subscription → List α)
    (enters leaves : Occurrence → Subscription → List α)
    (hstart : ∀ s, Subscription.start settings first = .ok s → held s = [])
    (hstep : ∀ now s m s', next now s m s' →
      leaves ⟨now, s, m⟩ s' ++ held s' <+ held s ++ enters ⟨now, s, m⟩ s')
    (h : Run next settings first past now s) :
    gathered leaves past s ++ held s <+ gathered enters past s := by
  induction h with
  | start hs =>
      rw [hstart _ hs]
      exact List.nil_sublist _
  | @step past before now m s s' _ _ hs ih =>
      rw [gathered_snoc, gathered_snoc, List.append_assoc]
      have hlater := (hstep _ _ _ _ hs).append_left (gathered leaves past s)
      rw [← List.append_assoc _ (held s)] at hlater
      exact hlater.trans (ih.append_right _)

/-- A counter that grows by what each step brings up counts what the history
brought up. -/
theorem counted (counter : Subscription → UInt64) (f : Occurrence → Subscription → List α)
    (hstart : ∀ s, Subscription.start settings first = .ok s → counter s = 0)
    (hstep : ∀ now s m s', next now s m s' →
      counter s' = counter s + UInt64.ofNat (f ⟨now, s, m⟩ s').length)
    (h : Run next settings first past now s) :
    counter s = UInt64.ofNat (gathered f past s).length := by
  induction h with
  | start hs =>
      rw [hstart _ hs]
      rfl
  | step _ _ hs ih =>
      rw [gathered_snoc, List.length_append, UInt64.ofNat_add, ← ih]
      exact hstep _ _ _ _ hs

end Run

end RangeKeeper
