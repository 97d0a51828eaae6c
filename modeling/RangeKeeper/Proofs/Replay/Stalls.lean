import Mathlib.Data.List.DropRight
import RangeKeeper.Proofs.Replay.Accounting

/-!
The signal of a stuck range. The gauge of consecutive failures belongs to the
subscription and not to an entry: it starts again from zero where an apply or an
install goes through, and nowhere else, so it goes on counting over entries that
were cancelled, read again and taken up anew. Over a log that answers reads with
consecutive entries these are all one entry, the one right behind the position.
-/

namespace RangeKeeper

def Occurrence.succeeded (x : Occurrence) : Bool := x.applied?.isSome || x.installed?.isSome

def sinceSuccess (past : List Occurrence) : List Occurrence :=
  past.rtakeWhile fun x => !x.succeeded

/-- The entries that were refused since then, each as often as it was. -/
def refusedSince (past : List Occurrence) : List LogEntry :=
  (sinceSuccess past).filterMap Occurrence.refused?

theorem refusedSince_snoc (past : List Occurrence) (x : Occurrence) :
    refusedSince (past ++ [x]) =
      if x.succeeded then [] else refusedSince past ++ x.refused?.toList := by
  rw [refusedSince, sinceSuccess]
  cases hsucceeded : x.succeeded with
  | true =>
      rw [List.rtakeWhile_concat_neg _ _ _ (by simp [hsucceeded])]
      rfl
  | false =>
      rw [List.rtakeWhile_concat_pos _ _ _ (by simp [hsucceeded]), List.filterMap_append]
      cases hrefused : x.refused? <;> simp [refusedSince, sinceSuccess, hrefused]

theorem still_of_sinceSuccess {past : List Occurrence} :
    ∀ x ∈ sinceSuccess past, x.applied? = none ∧ x.installed? = none := by
  intro x hx
  simpa [Occurrence.succeeded] using List.mem_rtakeWhile_imp hx

namespace ReplayMetrics

variable {m : ReplayMetrics} {n : Nat}

/-- As long as the count fits into the gauge, a threshold is reached when there
are as many failures. -/
theorem isStalled_iff (hgauge : m.consecutiveApplyFailures = Int64.ofNat n)
    (hfew : n < Nat.pow 2 63) (threshold : UInt64) :
    m.isStalled threshold = true ↔ 0 < threshold ∧ threshold.toNat ≤ n := by
  have hword : (Int64.ofNat n).toUInt64.toNat = n := by
    rw [Int64.toUInt64_ofNat', UInt64.toNat_ofNat']
    exact Nat.mod_eq_of_lt (Nat.lt_trans hfew (by decide))
  rw [isStalled, Bool.and_eq_true, decide_eq_true_iff, decide_eq_true_iff, hgauge,
    UInt64.le_iff_toNat_le, hword]

end ReplayMetrics

namespace Subscription

variable {s s' : Subscription} {now : Instant} {m : Move}

/-- A step that hears no answer from the state machine leaves the gauge as it
is, a refusal adds one to it and a success sets it to zero. -/
theorem Step.failures (h : Step now s m s') :
    s'.metrics.consecutiveApplyFailures =
      if Occurrence.succeeded ⟨now, s, m⟩ then 0
      else s.metrics.consecutiveApplyFailures +
        Int64.ofNat (Occurrence.refused? ⟨now, s, m⟩).toList.length := by
  cases h.effect with
  | applied _ _ hwork =>
      simp [Occurrence.succeeded, Occurrence.applied?, hwork, ReplayMetrics.recordApplied]
  | refused _ _ _ _ hwork =>
      simp [Occurrence.succeeded, Occurrence.applied?, Occurrence.installed?,
        Occurrence.refused?, hwork, ReplayMetrics.recordApplyFailure]
  | installed => rfl
  | _ => exact (Int64.add_zero _).symm

end Subscription

open Subscription

namespace Run

variable {settings : ReplaySettings} {first : UInt64} {past : List Occurrence}
variable {now : Instant} {s : Subscription}

/-- The gauge counts what was refused since something last went through. -/
theorem failures_counted (h : Run Interleaved settings first past now s) :
    s.metrics.consecutiveApplyFailures = Int64.ofNat (refusedSince past).length := by
  induction h with
  | start hstart =>
      rw [start_eq hstart]
      rfl
  | @step past _ now m s s' _ _ hstep ih =>
      rw [Step.failures hstep, refusedSince_snoc, ih]
      cases Occurrence.succeeded ⟨now, s, m⟩ with
      | true => rfl
      | false =>
          rw [if_neg Bool.false_ne_true, if_neg Bool.false_ne_true, List.length_append,
            Int64.ofNat_add]

/-- Whatever was refused since something last went through comes right behind
the position. -/
theorem refused_index (h : Run Interleaved settings first past now s)
    (hlog : ReadsContiguous past) :
    ∀ entry ∈ refusedSince past, entry.index.toNat = (position first past).toNat + 1 := by
  intro entry hentry
  obtain ⟨x, hx, hrefused⟩ := List.mem_filterMap.mp hentry
  obtain ⟨before, after, hsince⟩ := List.append_of_mem hx
  -- Nothing that went through lies between the refusal and the end, so the
  -- position is the same.
  have hstill : ∀ y ∈ x :: after, y.applied? = none ∧ y.installed? = none := by
    intro y hy
    apply still_of_sinceSuccess y
    rw [hsince]
    exact List.mem_append_right before hy
  have hpast : past = (past.rdropWhile (fun x => !x.succeeded) ++ before) ++ x :: after := by
    rw [List.append_assoc, ← hsince]
    exact List.rdropWhile_append_rtakeWhile.symm
  rw [hpast] at h hlog ⊢
  rw [position_still first _ hstill]
  exact h.held_index hlog (Occurrence.held_of_refused hrefused)

/-- The stall signal counts one stuck entry. The gauge is the number of attempts
that were refused since an apply or an install last went through, and a
threshold is reached exactly when there were as many. Over a log that answers
with consecutive entries all of them were attempts at the entry right behind the
position. -/
theorem stall_signal_counts_refusals (h : Run Interleaved settings first past now s)
    (hfew : (refusedSince past).length < Nat.pow 2 63) :
    s.metrics.consecutiveApplyFailures.toInt = (refusedSince past).length ∧
    (ReadsContiguous past →
      ∀ entry ∈ refusedSince past, entry.index.toNat = (position first past).toNat + 1) ∧
    ∀ threshold, s.metrics.isStalled threshold = true ↔
      0 < threshold ∧ threshold.toNat ≤ (refusedSince past).length := by
  have hgauge := h.failures_counted
  refine ⟨?_, h.refused_index, ReplayMetrics.isStalled_iff hgauge hfew⟩
  rw [hgauge]
  exact Int64.toInt_ofNat_of_lt hfew

/-- The second of two entries is refused, cancelled for a snapshot that cannot
be installed, read again and refused again, twice. -/
def refusedAgain : List (Instant × Move) :=
  [(0, .receive (.commit 2)), (0, .drive), (0, .drive), (0, .beginRead),
    (1, .endRead (.ok [⟨1, 1, []⟩, ⟨2, 1, []⟩])),
    (1, .work), (1, .beginApply), (2, .endApply (.error (.log (.applyFailed 1 "busy")))),
    (2, .beginApply), (3, .endApply (.ok ())),
    (3, .work), (3, .beginApply), (4, .endApply (.error (.log (.applyFailed 2 "full")))),
    (4, .receive (.install ⟨⟨1, 1⟩, 1, "", 9, .normal⟩ "store1")),
    (4, .drive), (4, .work), (4, .work),
    (4, .beginInstall), (5, .endInstall (.error (.log (.installFailed "torn")))),
    (5, .drive), (5, .drive), (5, .beginRead), (6, .endRead (.ok [⟨2, 1, []⟩])),
    (6, .work), (6, .beginApply), (7, .endApply (.error (.log (.applyFailed 2 "full")))),
    (7, .beginApply), (8, .endApply (.error (.log (.applyFailed 2 "full"))))]

theorem stall_signal_counts_refusals_read_again :
    ∃ past now s, Run Interleaved {} 0 past now s ∧ ReadsContiguous past ∧
      (refusedSince past).map (·.index) = [2, 2, 2] ∧ position 0 past = 1 ∧
      s.metrics.applyFailures = 4 ∧ s.metrics.consecutiveApplyFailures.toInt = 3 ∧
      (∀ entry ∈ refusedSince past, entry.index.toNat = (position 0 past).toNat + 1) ∧
      s.metrics.isStalled 3 = true ∧ s.metrics.isStalled 4 = false := by
  obtain ⟨fresh, past, s, hstart, hplay, hreads, hrefused, hposition, htotal⟩ :
      ∃ fresh past s, Subscription.start {} 0 = .ok fresh ∧
        play? [] fresh refusedAgain = some (past, s) ∧
        past.filterMap Occurrence.read? =
          [(1, [⟨1, 1, []⟩, ⟨2, 1, []⟩]), (2, [⟨2, 1, []⟩])] ∧
        (refusedSince past).map (·.index) = [2, 2, 2] ∧ position 0 past = 1 ∧
        s.metrics.applyFailures = 4 :=
    ⟨_, _, _, rfl, rfl, rfl, rfl, rfl, rfl⟩
  obtain ⟨now, hrun⟩ := run_of_play (.start hstart) (by decide) hplay
  have hlog : ReadsContiguous past := by
    rw [ReadsContiguous, hreads]
    simp [ContiguousFrom]
  have hcount : (refusedSince past).length = 3 := by
    rw [← List.length_map (·.index), hrefused]
    rfl
  obtain ⟨hgauge, hindex, hstalled⟩ :=
    stall_signal_counts_refusals hrun.interleaved (by rw [hcount]; decide)
  rw [hcount] at hgauge hstalled
  refine ⟨past, now, s, hrun.interleaved, hlog, hrefused, hposition, htotal, hgauge, hindex hlog,
    (hstalled 3).mpr (by decide), ?_⟩
  rw [Bool.eq_false_iff, Ne, hstalled]
  decide

end Run

end RangeKeeper
