import RangeKeeper.Proofs.Replay.InOrder

/-!
Order without trust in the log. A read may answer with anything: entries out of
order, repeated, below the index that was asked for or far beyond it. The driver
hands on only what lies above everything it handed on before, and every reset
puts the driver back to where the worker stands. So what the worker holds is
always above the position, and between two installs the position only grows.
-/

namespace RangeKeeper

namespace Subscription

theorem linked_accept (last : UInt64) (entries : List LogEntry) :
    Linked (· < ·) last (accept last entries) (lastIndexOf last (accept last entries)) := by
  induction entries generalizing last with
  | nil => rfl
  | cons entry rest ih =>
      by_cases hold : entry.index ≤ last
      · simp only [accept, hold, if_true]
        exact ih last
      · have hnew : last < entry.index := UInt64.not_le.mp hold
        simp only [accept, hold, if_false]
        exact ⟨hnew, ih entry.index⟩

end Subscription

open Subscription

namespace Run

variable {settings : ReplaySettings} {first : UInt64} {past earlier during later : List Occurrence}
variable {now : Instant} {s : Subscription}

/-- Over any log the worker holds nothing below the position, and while the
subscription goes on the entries in hand ascend from the one position to the
other. -/
theorem chained_above (h : Run Interleaved settings first past now s) :
    HeldNext (· < ·) s ∧ (s.stopped = false → Chained (· < ·) s) :=
  chained_of_run h fun x _ entries _ => linked_accept x.before.lastFetched entries

theorem held_above_position {x : Occurrence} {entry : LogEntry}
    (h : Run Interleaved settings first (earlier ++ x :: later) now s)
    (hheld : x.before.work.entry? = some entry) : position first earlier < entry.index := by
  obtain ⟨before, _, hrun, _⟩ := h.at_occurrence
  have hnext := hrun.chained_above.1 entry hheld
  rw [hrun.lastApplied_eq_position] at hnext
  exact hnext

/-- Between two installs the position and the entries applied from there on
ascend. -/
theorem applied_ascend (h : Run Interleaved settings first (earlier ++ during) now s)
    (hquiet : ∀ x ∈ during, x.installed? = none) :
    (position first earlier :: (appliedIn during).map (·.index)).Pairwise (· < ·) := by
  induction during generalizing earlier with
  | nil => simp [appliedIn]
  | cons x rest ih =>
      have hhead : x.installed? = none := hquiet x (by simp)
      have hrest : ∀ y ∈ rest, y.installed? = none := fun y hy => hquiet y (by simp [hy])
      have hsplit : earlier ++ x :: rest = (earlier ++ [x]) ++ rest := by simp
      have htail := @ih (earlier ++ [x]) (hsplit ▸ h) hrest
      rw [position_snoc] at htail
      cases happlied : x.applied? with
      | none =>
          rw [Occurrence.advance_of_none happlied hhead] at htail
          simpa [appliedIn, happlied] using htail
      | some entry =>
          have habove : position first earlier < entry.index :=
            h.held_above_position (Occurrence.held_of_applied happlied)
          rw [Occurrence.advance_of_applied happlied] at htail
          have hlisted : (appliedIn (x :: rest)).map (·.index) =
              entry.index :: (appliedIn rest).map (·.index) := by simp [appliedIn, happlied]
          rw [hlisted]
          apply List.pairwise_cons.mpr
          refine ⟨?_, htail⟩
          intro index hindex
          rcases List.mem_cons.mp hindex with rfl | hlater
          · exact habove
          · have hnext : entry.index < index := (List.pairwise_cons.mp htail).1 index hlater
            exact UInt64.lt_trans habove hnext

/-- Whatever the log answers, every call for an entry is for one above the
position. So between two installs the entries applied ascend strictly, and none
is applied twice. -/
theorem applies_ascend_over_any_log (h : Run Interleaved settings first past now s) :
    (∀ earlier x later entry, past = earlier ++ x :: later → x.attempted? = some entry →
      position first earlier < entry.index) ∧
    ∀ earlier during later, past = earlier ++ during ++ later →
      (∀ x ∈ during, x.installed? = none) →
      (∀ entry ∈ appliedIn during, position first earlier < entry.index) ∧
      ((appliedIn during).map (·.index)).Pairwise (· < ·) ∧
      ((appliedIn during).map (·.index)).Nodup := by
  refine ⟨?_, ?_⟩
  · rintro earlier x later entry rfl hattempt
    exact h.held_above_position (Occurrence.held_of_attempted hattempt)
  · rintro earlier during later rfl hquiet
    obtain ⟨_, _, hrun⟩ := h.prefix_run
    obtain ⟨habove, hascend⟩ := List.pairwise_cons.mp (hrun.applied_ascend hquiet)
    refine ⟨?_, hascend, ?_⟩
    · intro entry hentry
      exact habove entry.index (List.mem_map.mpr ⟨entry, hentry, rfl⟩)
    · exact hascend.imp fun hlt => UInt64.ne_of_lt hlt

/-- A log that repeats entries, goes back and leaps ahead, and a snapshot that
goes back behind what was applied. -/
def unruly : List (Instant × Move) :=
  [(0, .receive (.commit 3)), (0, .drive), (0, .drive), (0, .beginRead),
    (1, .endRead (.ok [⟨5, 1, []⟩, ⟨2, 1, []⟩, ⟨5, 2, []⟩, ⟨1, 1, []⟩, ⟨7, 1, []⟩])),
    (1, .work), (1, .beginApply), (2, .endApply (.error (.log (.applyFailed 5 "full")))),
    (2, .beginApply), (3, .endApply (.ok ())),
    (3, .work), (3, .beginApply), (4, .endApply (.ok ())),
    (4, .receive (.install ⟨⟨1, 1⟩, 1, "", 2, .normal⟩ "store1")),
    (4, .drive), (4, .work), (4, .beginInstall),
    (5, .endInstall (.ok ⟨⟨1, 1⟩, 1, "", 2, .normal⟩)), (5, .drive),
    (5, .receive (.commit 18446744073709551615)), (5, .drive), (5, .drive), (5, .beginRead),
    (6, .endRead (.ok [⟨2, 1, []⟩, ⟨18446744073709551615, 1, []⟩, ⟨3, 1, []⟩])),
    (6, .work), (6, .beginApply), (7, .endApply (.ok ()))]

theorem applies_ascend_over_unruly_log :
    ∃ past now s, Run Interleaved {} 0 past now s ∧
      (past.filterMap Occurrence.attempted?).map (·.index) = [5, 5, 7, 18446744073709551615] ∧
      (appliedIn past).map (·.index) = [5, 7, 18446744073709551615] ∧
      ∀ earlier x later entry, past = earlier ++ x :: later → x.attempted? = some entry →
        position 0 earlier < entry.index := by
  obtain ⟨fresh, past, s, hstart, hplay, hattempted, happlied⟩ :
      ∃ fresh past s, Subscription.start {} 0 = .ok fresh ∧
        play? [] fresh unruly = some (past, s) ∧
        (past.filterMap Occurrence.attempted?).map (·.index) =
          [5, 5, 7, 18446744073709551615] ∧
        (appliedIn past).map (·.index) = [5, 7, 18446744073709551615] :=
    ⟨_, _, _, rfl, rfl, rfl, rfl⟩
  obtain ⟨now, hrun⟩ := run_of_play (.start hstart) (by decide) hplay
  exact ⟨past, now, s, hrun.interleaved, hattempted, happlied,
    (applies_ascend_over_any_log hrun.interleaved).1⟩

end Run

end RangeKeeper
