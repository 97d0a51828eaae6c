import RangeKeeper.Proofs.Replay.Frame

/-!
Install requests. A request that has no answer yet is in someone's hands: its
snapshot waits on the stream or in the queue, or the worker holds it. Nobody
drops one without saying so, hence a requester waits for nothing only while
there is something to wait for.
-/

namespace RangeKeeper

def RequestState.answered : RequestState → Bool
  | .pending | .abandoned | .cancelled => false
  | .failed _ | .installed _ => true

namespace Subscription

/-- The snapshot of this request is on its way to the state machine. -/
def Holds (s : Subscription) (ticket : Nat) : Prop :=
  ticket ∈ s.snapshots.map InstallTask.ticket ∨ ticket ∈ s.queue.filterMap Task.ticket? ∨
    ∃ task seq, s.work.install? = some (task, seq) ∧ task.ticket = ticket

def RequestsHeld (s : Subscription) : Prop :=
  ∀ ticket, s.requests[ticket]? = some .pending → s.Holds ticket

/-- Whatever became of this request, the state machine had no say in it. -/
def Unanswered (s : Subscription) (ticket : Nat) : Prop :=
  ∀ state, s.requests[ticket]? = some state → state.answered = false

variable {s s' : Subscription} {now : Instant} {m : Move} {ticket : Nat}

theorem settle_request (s : Subscription) (settled ticket : Nat) (answer : RequestState) :
    (s.settle settled answer).requests[ticket]? = s.requests[ticket]?.map fun state =>
      if settled = ticket ∧ state = .pending then answer else state := by
  rw [settle, List.getElem?_modify]
  cases s.requests[ticket]? with
  | none => rfl
  | some state => by_cases hticket : settled = ticket <;> simp [hticket]

theorem pending_of_settle {settled : Nat} {answer : RequestState} (hanswer : answer ≠ .pending)
    (h : (s.settle settled answer).requests[ticket]? = some .pending) :
    s.requests[ticket]? = some .pending ∧ ticket ≠ settled := by
  rw [settle_request] at h
  obtain ⟨state, hstate, hkept⟩ := Option.map_eq_some_iff.mp h
  split at hkept
  next => exact absurd hkept hanswer
  next hother =>
    subst hkept
    refine ⟨hstate, fun hsame => ?_⟩
    exact hother ⟨hsame.symm, rfl⟩

theorem pending_of_cancel {tickets : List Nat}
    (h : (s.cancelRequests tickets).requests[ticket]? = some .pending) :
    s.requests[ticket]? = some .pending ∧ ticket ∉ tickets := by
  induction tickets generalizing s with
  | nil => exact ⟨h, by simp⟩
  | cons head rest ih =>
      obtain ⟨hsettled, hrest⟩ := ih (s := s.settle head .cancelled) h
      obtain ⟨hbefore, hhead⟩ := pending_of_settle (by simp) hsettled
      exact ⟨hbefore, by simp [hhead, hrest]⟩

theorem Unanswered.settle (h : s.Unanswered ticket) {settled : Nat} {answer : RequestState}
    (hanswer : answer.answered = false) : (s.settle settled answer).Unanswered ticket := by
  intro state hstate
  rw [settle_request] at hstate
  obtain ⟨before, hbefore, rfl⟩ := Option.map_eq_some_iff.mp hstate
  split
  next => exact hanswer
  next => exact h before hbefore

theorem Unanswered.cancel (h : s.Unanswered ticket) (tickets : List Nat) :
    (s.cancelRequests tickets).Unanswered ticket := by
  induction tickets generalizing s with
  | nil => exact h
  | cons head rest ih => exact ih (s := s.settle head .cancelled) (h.settle rfl)

/-- What stands in a list after one more was added stood there before or is what
was added. -/
theorem getElem?_snoc {α : Type} {xs : List α} {x y : α} {i : Nat} (h : (xs ++ [x])[i]? = some y) :
    xs[i]? = some y ∨ i = xs.length ∧ x = y := by
  rw [List.getElem?_append] at h
  split at h
  next => exact .inl h
  next hlast =>
    rw [List.getElem?_singleton] at h
    split at h
    next hzero =>
      cases h
      exact .inr ⟨by omega, rfl⟩
    next => cases h

theorem Unanswered.snoc (h : s.Unanswered ticket) {state : RequestState}
    (hrequests : s'.requests = s.requests ++ [state]) (hstate : state.answered = false) :
    s'.Unanswered ticket := by
  intro after hafter
  rw [hrequests] at hafter
  rcases getElem?_snoc hafter with hbefore | ⟨_, rfl⟩
  · exact h after hbefore
  · exact hstate

theorem RequestsHeld.of_same (h : s.RequestsHeld) (hrequests : s'.requests = s.requests)
    (hsnapshots : s'.snapshots = s.snapshots) (hqueue : s'.queue = s.queue)
    (hinstall : s'.work.install? = s.work.install?) : s'.RequestsHeld := by
  unfold RequestsHeld Holds
  rw [hrequests, hsnapshots, hqueue, hinstall]
  exact h

theorem RequestsHeld.receive (h : s.RequestsHeld) (signal : Signal) :
    (s.receive signal).RequestsHeld := by
  cases signal with
  | commit index =>
      obtain ⟨_, _, heq⟩ := s.publish_eq index
      rw [Subscription.receive, heq]
      exact h
  | install snapshot leader =>
      intro ticket hpending
      rw [Subscription.receive] at hpending ⊢
      rcases s.request_cases snapshot leader with ⟨_, heq⟩ | heq
      · rw [heq] at hpending ⊢
        rcases getElem?_snoc hpending with hbefore | ⟨rfl, _⟩
        · refine (h ticket hbefore).imp_left fun hmem => ?_
          rw [List.map_append]
          exact List.mem_append_left _ hmem
        · exact .inl (by simp)
      · rw [heq] at hpending ⊢
        rcases getElem?_snoc hpending with hbefore | ⟨_, hnew⟩
        · exact h ticket hbefore
        · cases hnew
  | abandon gone =>
      intro ticket hpending
      exact h ticket (pending_of_settle (by simp) hpending).1
  | endCommits | endSnapshots | stop => exact h

theorem RequestsHeld.leave (h : s.RequestsHeld) : s.leave.RequestsHeld := by
  intro ticket hpending
  obtain ⟨hdropped, hstream⟩ := pending_of_cancel (s := s.dropQueue) hpending
  obtain ⟨hbefore, hqueue⟩ := pending_of_cancel (s := s) hdropped
  have hwork : s.leave.work = s.work := by
    obtain ⟨_, heq⟩ := s.leave_eq
    rw [heq]
  rcases h ticket hbefore with hmem | hmem | hheld
  · exact absurd hmem hstream
  · exact absurd hmem hqueue
  · refine .inr (.inr ?_)
    rw [hwork]
    exact hheld

theorem RequestsHeld.preempt (h : s.RequestsHeld) {task : InstallTask} {rest : List InstallTask}
    (hsnapshots : s.snapshots = task :: rest) :
    ({ s with snapshots := rest }.onSnapshot task).RequestsHeld := by
  intro ticket hpending
  obtain ⟨hbefore, hqueue⟩ := pending_of_cancel (s := { s with snapshots := rest }) hpending
  obtain ⟨_, heq⟩ := onSnapshot_eq { s with snapshots := rest } task
  rw [heq]
  rcases h ticket hbefore with hmem | hmem | hheld
  · rw [hsnapshots] at hmem
    rcases List.mem_cons.mp hmem with rfl | hmem
    · exact .inr (.inl (by simp [Task.ticket?]))
    · exact .inl hmem
  · exact absurd hmem hqueue
  · exact .inr (.inr hheld)

theorem RequestsHeld.take (h : s.RequestsHeld) (now : Instant) {task : Task} {rest : List Task}
    (hidle : s.work = .idle) (hqueue : s.queue = task :: rest) :
    ({ s with queue := rest }.take now task).RequestsHeld := by
  intro ticket hpending
  cases task with
  | entry entry =>
      rcases h ticket hpending with hmem | hmem | ⟨_, _, hheld, _⟩
      · exact .inl hmem
      · rw [hqueue] at hmem
        exact .inr (.inl hmem)
      · rw [hidle] at hheld
        cases hheld
  | install task seq =>
      rcases h ticket hpending with hmem | hmem | ⟨_, _, hheld, _⟩
      · exact .inl hmem
      · rw [hqueue] at hmem
        rcases List.mem_cons.mp hmem with rfl | hmem
        · exact .inr (.inr ⟨task, seq, rfl, rfl⟩)
        · exact .inr (.inl hmem)
      · rw [hidle] at hheld
        cases hheld

/-- The install that the worker held is over, and its requester was told. -/
theorem RequestsHeld.release (h : s.RequestsHeld) {task : InstallTask} {seq : Nat}
    {answer : RequestState} (hheld : s.work.install? = some (task, seq))
    (hanswer : answer ≠ .pending)
    (hrequests : s'.requests = (s.settle task.ticket answer).requests)
    (hsnapshots : s'.snapshots = s.snapshots) (hqueue : s'.queue = s.queue) : s'.RequestsHeld := by
  intro ticket hpending
  rw [hrequests] at hpending
  obtain ⟨hbefore, hother⟩ := pending_of_settle hanswer hpending
  rw [Holds, hsnapshots, hqueue]
  rcases h ticket hbefore with hmem | hmem | ⟨held, _, hwork, hticket⟩
  · exact .inl hmem
  · exact .inr (.inl hmem)
  · rw [hheld] at hwork
    cases hwork
    exact absurd hticket.symm hother

end Subscription

end RangeKeeper
