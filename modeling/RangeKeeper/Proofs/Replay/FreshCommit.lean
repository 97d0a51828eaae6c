import Mathlib.Data.List.Induction
import RangeKeeper.Proofs.Replay.Messages
import RangeKeeper.Proofs.Replay.Requests

/-!
A commit index that is published after an install went well is not forgotten.
The outcome of the install makes the driver forget what it knew, so it has to be
looked at before that commit index is. It is on its way before the requester
hears of the install, and the driver looks at outcomes first; and only the
install that the driver waits for can still go well, since each newer snapshot
cancels what is running.
-/

namespace RangeKeeper

open Subscription

/-- The requester of an install, which still waits, hears that it went well. -/
def Occurrence.AnswersOk (x : Occurrence) (ticket seq : Nat) (snapshot : Snapshot) : Prop :=
  ∃ task, x.move = .endInstall (.ok snapshot) ∧ x.before.work = .installing task seq ∧
    task.ticket = ticket ∧ x.before.requests[ticket]? = some .pending

/-- What the driver makes of an install that went well, by the messages that it
took since: none of them is a commit index as long as the outcome is on its way,
and once the outcome is taken every commit index that follows it is known. -/
inductive Settling (event : InstallEvent) : List Message → Subscription → Prop where
  | waiting {taken : List Message} {s : Subscription} :
      (s.stopped = false → s.pendingInstall = some event.seq ∧ event ∈ s.events) →
      (∀ index, .commit index ∉ taken) → Settling event taken s
  | settled {before behind : List Message} {s : Subscription} :
      (∀ index, .commit index ∉ before) → (s.stopped = false → s.pendingInstall = none) →
      (∀ index, .commit index ∈ behind → ∃ known, s.commit = some known ∧ index ≤ known) →
      Settling event (before ++ .outcome event :: behind) s

namespace Subscription

/-- Unless it was cancelled, the install that the worker holds is the one that
the driver waits for. -/
def HeldIsPending (s : Subscription) : Prop :=
  ∀ task seq, s.work.install? = some (task, seq) → s.taskCancelled = false →
    s.pendingInstall = some seq

variable {s s' : Subscription} {now : Instant} {m : Move}

theorem HeldIsPending.of_free (h : s.work.install? = none) : s.HeldIsPending := by
  intro task seq hheld
  rw [h] at hheld
  cases hheld

theorem HeldIsPending.of_cancelled (h : s.taskCancelled = true) : s.HeldIsPending := by
  intro task seq _ hfresh
  rw [h] at hfresh
  cases hfresh

/-- Until the subscription is stopped, no step leaves the worker with a
superseded install that was not cancelled. -/
theorem Step.held_pending (h : Step now s m s') (hlive : s'.stopped = false)
    (ht : s.InstallsTracked) (hs : s.HeldIsPending) : s'.HeldIsPending := by
  have hbefore := h.live_before hlive
  cases h.effect with
  | leave _ _ hstopped => cases hbefore.symm.trans hstopped
  | settle event _ _ _ hevents hseq =>
      have hmem : event ∈ s.events := by simp [hevents]
      exact .of_free (ht.free_of_reported hmem hseq).2.1
  | preempt => exact .of_cancelled rfl
  | takeInstall task seq _ _ _ hqueue =>
      intro held n hheld _
      cases hheld
      exact ht.pending_of_queued hqueue
  | beginInstall task seq hwork =>
      intro held n hheld
      cases hheld
      exact hs task seq (Work.install_of_preparing hwork).1
  | finish | takeEntry | giveUp | abort | beginApply => exact .of_free rfl
  | applied | refused | installed | installFailed => exact .of_free rfl
  | _ => exact hs

theorem le_max_both (a b : UInt64) : a ≤ max a b ∧ b ≤ max a b := by
  change (a ≤ if a ≤ b then b else a) ∧ b ≤ if a ≤ b then b else a
  split
  next hle => exact ⟨hle, UInt64.le_refl b⟩
  next hgt => exact ⟨UInt64.le_refl a, UInt64.le_of_lt (UInt64.not_le.mp hgt)⟩

/-- A commit index that is learned is known then, and so is all that was known
before. -/
theorem known_of_onCommit (s : Subscription) (index : UInt64) :
    ∃ known, (s.onCommit index).commit = some known ∧ index ≤ known ∧
      ∀ c, s.commit = some c → c ≤ known := by
  cases hcommit : s.commit with
  | none => exact ⟨index, by simp [onCommit, hcommit], UInt64.le_refl _, by simp⟩
  | some c =>
      refine ⟨max c index, by simp [onCommit, hcommit], (le_max_both c index).2, ?_⟩
      rintro _ ⟨⟩
      exact (le_max_both c index).1

end Subscription

namespace Settling

variable {event : InstallEvent} {taken before behind : List Message} {s s' : Subscription}
variable {now : Instant} {m : Move}

/-- The driver takes a message while the outcome is on its way. -/
theorem step_waiting (hwaiting : s.stopped = false →
      s.pendingInstall = some event.seq ∧ event ∈ s.events)
    (hnone : ∀ index, .commit index ∉ taken) (hmove : s.move? now m = some s')
    (ht : s.stopped = false → s.InstallsTracked)
    (hquiet : ∀ task, .snapshot task ∉ Occurrence.taken ⟨now, s, m⟩ s') :
    Settling event (taken ++ Occurrence.taken ⟨now, s, m⟩ s') s' := by
  cases taking_of_move hmove with
  | outcome first rest hdriving hlive hevents =>
      obtain ⟨hpending, hmem⟩ := hwaiting hlive
      rw [taken_onEvent hdriving hevents]
      rw [hevents] at hmem
      rcases List.mem_cons.mp hmem with rfl | hmem
      · refine .settled hnone (fun _ => ?_) (by simp)
        rcases onEvent_eq { s with events := rest } event with ⟨_, _, heq⟩ | ⟨hother, _⟩
        · rw [heq]
        · exact absurd hpending hother
      · have hother := (ht hlive).superseded_first hevents hmem hpending
        rcases onEvent_eq { s with events := rest } first with ⟨hsame, _⟩ | ⟨_, heq⟩
        · exact absurd hsame hother
        · rw [heq]
          exact .waiting (fun _ => ⟨hpending, hmem⟩) (by simpa using hnone)
  | snapshot task rest hdriving _ _ hsnapshots =>
      rw [taken_onSnapshot hdriving hsnapshots] at hquiet
      exact absurd List.mem_cons_self (hquiet task)
  | commit index rest _ hlive hevents =>
      -- The driver would have looked at the outcome first.
      have hmem := (hwaiting hlive).2
      rw [hevents] at hmem
      cases hmem
  | nothing hnothing =>
      rw [hnothing.taken, List.append_nil]
      refine .waiting (fun hlive => ?_) hnone
      have hbefore := (step_of_move hmove).live_before hlive
      rw [hnothing.pendingInstall]
      exact ⟨(hwaiting hbefore).1, hnothing.events hlive event (hwaiting hbefore).2⟩

/-- The driver takes a message after the outcome. -/
theorem step_settled (hnone : ∀ index, .commit index ∉ before)
    (hfree : s.stopped = false → s.pendingInstall = none)
    (hknown : ∀ index, .commit index ∈ behind → ∃ known, s.commit = some known ∧ index ≤ known)
    (hmove : s.move? now m = some s') (ha : s.stopped = false → s.OutcomesAwaited)
    (hquiet : ∀ task, .snapshot task ∉ Occurrence.taken ⟨now, s, m⟩ s') :
    Settling event (before ++ .outcome event :: behind ++ Occurrence.taken ⟨now, s, m⟩ s') s' := by
  rw [List.append_assoc, List.cons_append]
  cases taking_of_move hmove with
  | outcome first rest _ hlive hevents =>
      -- No install is pending, so no further outcome is on its way.
      have hempty := ha hlive (hfree hlive)
      rw [hevents] at hempty
      cases hempty
  | snapshot task rest hdriving _ _ hsnapshots =>
      rw [taken_onSnapshot hdriving hsnapshots] at hquiet
      exact absurd List.mem_cons_self (hquiet task)
  | commit index rest hdriving _ _ _ hcommits =>
      rw [taken_onCommit hdriving hcommits]
      obtain ⟨known, hcommit, hle, hbefore⟩ := known_of_onCommit { s with commits := rest } index
      refine .settled hnone hfree fun c hc => ⟨known, hcommit, ?_⟩
      rcases List.mem_append.mp hc with hold | hnew
      · obtain ⟨c', hc', hle'⟩ := hknown c hold
        exact UInt64.le_trans hle' (hbefore c' hc')
      · cases List.mem_singleton.mp hnew
        exact hle
  | nothing hnothing =>
      rw [hnothing.taken, List.append_nil]
      refine .settled hnone (fun hlive => ?_) ?_
      · rw [hnothing.pendingInstall]
        exact hfree ((step_of_move hmove).live_before hlive)
      · rw [hnothing.commit]
        exact hknown

/-- Every move that takes no snapshot leaves the install either waiting or
settled. -/
theorem step (h : Settling event taken s) (hmove : s.move? now m = some s')
    (ht : s.stopped = false → s.InstallsTracked) (ha : s.stopped = false → s.OutcomesAwaited)
    (hquiet : ∀ task, .snapshot task ∉ Occurrence.taken ⟨now, s, m⟩ s') :
    Settling event (taken ++ Occurrence.taken ⟨now, s, m⟩ s') s' := by
  cases h with
  | waiting hwaiting hnone => exact step_waiting hwaiting hnone hmove ht hquiet
  | settled hnone hfree hknown => exact step_settled hnone hfree hknown hmove ha hquiet

end Settling

namespace Occurrence.AnswersOk

variable {x : Occurrence} {ticket seq : Nat} {snapshot : Snapshot} {s : Subscription}

/-- The request stands as installed afterwards. -/
theorem heard (h : x.AnswersOk ticket seq snapshot)
    (hmove : x.before.move? x.time x.move = some s) :
    s.requests[ticket]? = some (.installed snapshot) := by
  obtain ⟨task, hend, hwork, rfl, hpending⟩ := h
  rw [hend] at hmove
  simp only [move?, Option.ite_none_left_eq_some, endInstall?, hwork, Option.some.injEq] at hmove
  obtain ⟨_, rfl⟩ := hmove
  change (x.before.settle task.ticket (.installed snapshot)).requests[task.ticket]? = _
  rw [settle_request, hpending]
  simp

/-- Whoever is told so before anything else is done finds the outcome on its
way. -/
theorem settling (h : x.AnswersOk ticket seq snapshot)
    (hmove : x.before.move? x.time x.move = some s)
    (hp : x.before.stopped = false → x.before.HeldIsPending) :
    Settling (.installed seq snapshot.lastApplied) (x.taken s) s := by
  obtain ⟨task, hend, hwork, _⟩ := h
  rw [hend] at hmove
  have htaken : x.taken s = [] := Occurrence.taken_of_same fun hdrive => by
    rw [hend] at hdrive
    cases hdrive
  simp only [move?, Option.ite_none_left_eq_some, endInstall?, hwork, Option.some.injEq] at hmove
  obtain ⟨hidle, rfl⟩ := hmove
  have hfresh : x.before.isCancelled = false := by
    simp only [workerStep?, hwork] at hidle
    split at hidle
    next => exact absurd rfl hidle
    next hgone =>
      simp only [Bool.or_eq_true, not_or, Bool.not_eq_true] at hgone
      exact hgone.1
  simp only [isCancelled, Bool.or_eq_false_iff] at hfresh
  rw [htaken]
  refine .waiting (fun _ => ⟨?_, List.mem_append_right _ List.mem_cons_self⟩) (by simp)
  exact hp hfresh.2 task seq (Work.install_of_installing hwork).1 hfresh.1

end Occurrence.AnswersOk

namespace Run

variable {settings : ReplaySettings} {first : UInt64} {earlier later : List Occurrence}
variable {x : Occurrence} {ticket seq : Nat} {snapshot : Snapshot}
variable {now : Instant} {s : Subscription}

theorem held_pending (h : Run Interleaved settings first earlier now s)
    (hlive : s.stopped = false) : s.HeldIsPending := by
  induction h with
  | start hstart =>
      rw [start_eq hstart]
      exact .of_free rfl
  | step hrun _ hstep ih =>
      have hbefore := Step.live_before hstep hlive
      exact Step.held_pending hstep hlive (hrun.chained_above.2 hbefore).tracked (ih hbefore)

/-- Unless a further snapshot is taken, the driver deals with an install that
went well before it looks at any commit index. -/
theorem settling_since (h : Run SingleThreaded settings first (earlier ++ x :: later) now s)
    (hanswer : x.AnswersOk ticket seq snapshot)
    (hquiet : ∀ task, .snapshot task ∉ takenIn (x :: later) s) :
    Settling (.installed seq snapshot.lastApplied) (takenIn (x :: later) s) s := by
  induction later using List.reverseRecOn generalizing now s with
  | nil =>
      obtain ⟨⟨_, hrun⟩, hmove⟩ := h.last_step
      rw [takenIn, gathered_single]
      exact hanswer.settling hmove hrun.interleaved.held_pending
  | append_singleton during y ih =>
      rw [← List.cons_append, ← List.append_assoc] at h
      rw [← List.cons_append, takenIn_snoc] at hquiet ⊢
      obtain ⟨⟨_, hrun⟩, hmove⟩ := h.last_step
      refine (ih hrun fun task htask => ?_).step hmove ?_ ?_ fun task htask => ?_
      · exact hquiet task (List.mem_append_left _ htask)
      · exact fun hlive => (hrun.interleaved.chained_above.2 hlive).tracked
      · exact fun hlive => (hrun.interleaved.disarmed_since hlive).1
      · exact hquiet task (List.mem_append_right _ htask)

/-- The commit index that came in by the move `y` is the one that the driver
took at its place. -/
theorem learned_at {y : Occurrence} {c : UInt64}
    (h : Run SingleThreaded settings first (earlier ++ y :: later) now s)
    (hpublished : y.commit? = some c)
    (hprocessed : (publishedIn earlier).length < (learnedIn (earlier ++ y :: later) s).length) :
    (learnedIn (earlier ++ y :: later) s)[(publishedIn earlier).length]? = some c := by
  obtain ⟨waiting, hsplit, _⟩ := h.learned_in_order
  have hplace : (publishedIn (earlier ++ y :: later))[(publishedIn earlier).length]? = some c := by
    rw [publishedIn, List.filterMap_append, List.filterMap_cons_some hpublished]
    change (publishedIn earlier ++ c :: publishedIn later)[(publishedIn earlier).length]? = some c
    rw [List.getElem?_append_right (Nat.le_refl _), Nat.sub_self]
    rfl
  rw [hsplit, List.getElem?_append_left hprocessed] at hplace
  exact hplace

/-- What came in after a moment was taken after it. -/
theorem learned_since {n : Nat} {c : UInt64}
    (h : Run SingleThreaded settings first (earlier ++ x :: later) now s)
    (hn : (publishedIn earlier).length ≤ n)
    (hplace : (learnedIn (earlier ++ x :: later) s)[n]? = some c) :
    .commit c ∈ takenIn (x :: later) s := by
  obtain ⟨_, _, hrun, _⟩ := h.at_occurrence
  obtain ⟨waiting, hsplit, _⟩ := hrun.learned_in_order
  have hlearned : (learnedIn earlier x.before).length ≤ n := by
    have hlength := congrArg List.length hsplit
    rw [List.length_append] at hlength
    omega
  rw [learnedIn_append, List.getElem?_append_right hlearned] at hplace
  obtain ⟨message, hmem, hcommit⟩ := List.mem_filterMap.mp (List.mem_of_getElem? hplace)
  cases message with
  | commit index =>
      cases hcommit
      exact hmem
  | outcome | snapshot => cases hcommit

/-- A commit index that comes in after an install went well is not forgotten.
Let the requester hear of the install in the move `x` and the commit index come
in by the move `y`, and let the driver take no snapshot from `x` on. Once it has
taken as many commit indexes as came in up to `y`, this one among them, it knows
one that is no less. It took the outcome of the install, which made it forget,
before this and every other commit index that it took since `x`. -/
theorem fresh_commit_survives {between : List Occurrence} {y : Occurrence} {c : UInt64}
    (h : Run SingleThreaded settings first (earlier ++ x :: (between ++ y :: later)) now s)
    (hanswer : x.AnswersOk ticket seq snapshot) (hpublished : y.commit? = some c)
    (hquiet : ∀ task, .snapshot task ∉ takenIn (x :: (between ++ y :: later)) s)
    (hprocessed : (publishedIn (earlier ++ x :: between)).length <
      (learnedIn (earlier ++ x :: (between ++ y :: later)) s).length) :
    (learnedIn (earlier ++ x :: (between ++ y :: later)) s)[
      (publishedIn (earlier ++ x :: between)).length]? = some c ∧
    (∃ known, s.commit = some known ∧ c ≤ known) ∧
    ∃ before behind, takenIn (x :: (between ++ y :: later)) s =
        before ++ .outcome (.installed seq snapshot.lastApplied) :: behind ∧
      (∀ index, .commit index ∉ before) ∧ .commit c ∈ behind := by
  have hcons : earlier ++ x :: (between ++ y :: later) =
      (earlier ++ x :: between) ++ y :: later := by
    simp
  have hplace : (learnedIn (earlier ++ x :: (between ++ y :: later)) s)[
      (publishedIn (earlier ++ x :: between)).length]? = some c := by
    rw [hcons] at h hprocessed ⊢
    exact h.learned_at hpublished hprocessed
  have hearlier :
      (publishedIn earlier).length ≤ (publishedIn (earlier ++ x :: between)).length := by
    rw [publishedIn, publishedIn, List.filterMap_append, List.length_append]
    exact Nat.le_add_right ..
  have hsince := h.learned_since hearlier hplace
  refine ⟨hplace, ?_⟩
  generalize htaken : takenIn (x :: (between ++ y :: later)) s = taken at hquiet hsince
  have hsettling := h.settling_since hanswer (by rw [htaken]; exact hquiet)
  rw [htaken] at hsettling
  cases hsettling with
  | waiting _ hnone => exact absurd hsince (hnone c)
  | settled hnone hfree hknown =>
      rcases List.mem_cons.mp ((List.mem_append.mp hsince).resolve_left (hnone c)) with
        heq | hbehind
      · cases heq
      · exact ⟨hknown c hbehind, _, _, rfl, hnone, hbehind⟩

/-- A snapshot supersedes another while that one is being installed. Its
requester hears that it was installed and two commit indexes come in before the
driver looks at the outcome of either. -/
def committedMeanwhile : List (Instant × Move) :=
  [(0, .receive (.install ⟨⟨1, 1⟩, 1, "", 5, .normal⟩ "store1")), (0, .drive), (0, .work),
    (0, .beginInstall),
    (1, .receive (.install ⟨⟨1, 1⟩, 1, "", 9, .normal⟩ "store2")), (1, .drive), (1, .work),
    (1, .work), (1, .beginInstall),
    (2, .endInstall (.ok ⟨⟨1, 1⟩, 1, "", 9, .normal⟩)),
    (2, .receive (.commit 11)), (2, .receive (.commit 12)),
    (2, .drive), (2, .drive), (2, .drive), (2, .drive), (2, .drive)]

theorem fresh_commit_survives_meanwhile :
    ∃ earlier x y later now s,
      Run SingleThreaded {} 0 (earlier ++ x :: ([y] ++ later)) now s ∧
      x.AnswersOk 1 2 ⟨⟨1, 1⟩, 1, "", 9, .normal⟩ ∧
      takenIn (x :: ([y] ++ later)) s =
        [.outcome (.aborted 1 0), .outcome (.installed 2 9), .commit 11, .commit 12] ∧
      ∃ known, s.commit = some known ∧ 12 ≤ known := by
  obtain ⟨fresh, earlier, x, y, z, later, s, hstart, hplay, hanswer, hpublished, htaken,
      hbefore, hlearned⟩ :
      ∃ fresh earlier x y z later s, Subscription.start {} 0 = .ok fresh ∧
        play? [] fresh committedMeanwhile = some (earlier ++ x :: ([y] ++ z :: later), s) ∧
        x.AnswersOk 1 2 ⟨⟨1, 1⟩, 1, "", 9, .normal⟩ ∧ z.commit? = some 12 ∧
        takenIn (x :: ([y] ++ z :: later)) s =
          [.outcome (.aborted 1 0), .outcome (.installed 2 9), .commit 11, .commit 12] ∧
        (publishedIn (earlier ++ x :: [y])).length = 1 ∧
        (learnedIn (earlier ++ x :: ([y] ++ z :: later)) s).length = 2 :=
    ⟨_, [_, _, _, _, _, _, _, _, _], _, _, _, [_, _, _, _, _], _, rfl, rfl,
      ⟨_, rfl, rfl, rfl, rfl⟩, rfl, rfl, rfl, rfl⟩
  obtain ⟨now, hrun⟩ := run_of_play (.start hstart) (by decide) hplay
  have hquiet : ∀ task, .snapshot task ∉ takenIn (x :: ([y] ++ z :: later)) s := by
    rw [htaken]
    simp
  obtain ⟨_, hknown, _⟩ := fresh_commit_survives hrun hanswer hpublished hquiet
    (by rw [hbefore, hlearned]; decide)
  exact ⟨earlier, x, y, z :: later, now, s, hrun, hanswer, htaken, hknown⟩

end Run

end RangeKeeper
