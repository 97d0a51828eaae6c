import RangeKeeper.Proofs.Log.Contiguous
import RangeKeeper.Proofs.Replay.Chain

/-!
Entries are applied exactly once and in order. The position of the state machine
is read off a history from the calls that came back alone: it begins behind the
first entry to apply, moves to each entry whose apply succeeded and to each
snapshot that was installed. Over a log that answers reads with consecutive
entries, every call that is made for an entry is for the one right behind the
position, however snapshots, failures and cancellations fall in between.
-/

namespace RangeKeeper

namespace Occurrence

def attempted? (x : Occurrence) : Option LogEntry :=
  match x.move, x.before.work with
  | .beginApply, .waiting entry _ _ => some entry
  | _, _ => none

def applied? (x : Occurrence) : Option LogEntry :=
  match x.move, x.before.work with
  | .endApply (.ok _), .applying entry _ => some entry
  | _, _ => none

def refused? (x : Occurrence) : Option LogEntry :=
  match x.move, x.before.work with
  | .endApply (.error _), .applying entry _ => some entry
  | _, _ => none

def installed? (x : Occurrence) : Option Snapshot :=
  match x.move with
  | .endInstall (.ok snapshot) => some snapshot
  | _ => none

/-- A read was asked for the entries from this index on, and gave these. -/
def read? (x : Occurrence) : Option (UInt64 × List LogEntry) :=
  match x.move, x.before.fetch with
  | .endRead (.ok entries), some f => some (f.start, entries)
  | _, _ => none

/-- Where the state machine stands afterwards. -/
def advance (position : UInt64) (x : Occurrence) : UInt64 :=
  match x.applied?, x.installed? with
  | some entry, _ => entry.index
  | none, some snapshot => snapshot.lastApplied
  | none, none => position

end Occurrence

/-- Where the state machine stands after a history that began at `first`. -/
def position (first : UInt64) (past : List Occurrence) : UInt64 :=
  past.foldl Occurrence.advance first

theorem position_snoc (first : UInt64) (past : List Occurrence) (x : Occurrence) :
    position first (past ++ [x]) = Occurrence.advance (position first past) x := by
  simp [position]

def appliedIn (during : List Occurrence) : List LogEntry := during.filterMap Occurrence.applied?

/-- Every successful read of the history gave a run of consecutive entries from
the index that it was asked for. -/
def ReadsContiguous (past : List Occurrence) : Prop :=
  ∀ read ∈ past.filterMap Occurrence.read?, ContiguousFrom read.1.toNat read.2

/-- The index right behind another, without wrapping around. -/
def Follows (a b : UInt64) : Prop := b.toNat = a.toNat + 1

theorem ReadsContiguous.of_append {earlier later : List Occurrence}
    (h : ReadsContiguous (earlier ++ later)) : ReadsContiguous earlier := by
  intro read hread
  rw [ReadsContiguous, List.filterMap_append] at h
  exact h read (List.mem_append_left _ hread)

namespace Occurrence

variable {x : Occurrence} {entry : LogEntry}

theorem held_of_attempted (h : x.attempted? = some entry) : x.before.work.entry? = some entry := by
  unfold attempted? at h
  split at h
  next hwork =>
    cases h
    exact (Work.entry_of_waiting hwork).1
  next => cases h

theorem held_of_applied (h : x.applied? = some entry) : x.before.work.entry? = some entry := by
  unfold applied? at h
  split at h
  next hwork =>
    cases h
    exact (Work.entry_of_applying hwork).1
  next => cases h

theorem held_of_refused (h : x.refused? = some entry) : x.before.work.entry? = some entry := by
  unfold refused? at h
  split at h
  next hwork =>
    cases h
    exact (Work.entry_of_applying hwork).1
  next => cases h

theorem still_of_refused (h : x.refused? = some entry) :
    x.applied? = none ∧ x.installed? = none := by
  unfold refused? at h
  split at h
  next hmove hwork => simp [applied?, installed?, hmove]
  next => cases h

theorem advance_of_applied {p : UInt64} (h : x.applied? = some entry) :
    advance p x = entry.index := by
  simp [advance, h]

theorem advance_of_none {p : UInt64} (happlied : x.applied? = none)
    (hinstalled : x.installed? = none) : advance p x = p := by
  simp [advance, happlied, hinstalled]

end Occurrence

namespace Subscription

/-- Entries that go on right behind the position are all taken, and the position
moves to the last. -/
theorem accept_of_contiguous {last : UInt64} {entries : List LogEntry}
    (h : ContiguousFrom (last.toNat + 1) entries) :
    accept last entries = entries ∧
      (lastIndexOf last entries).toNat = last.toNat + entries.length := by
  induction entries generalizing last with
  | nil => exact ⟨rfl, rfl⟩
  | cons e rest ih =>
      obtain ⟨hindex, hrest⟩ := h
      have hnew : ¬e.index ≤ last := by
        rw [UInt64.le_iff_toNat_le]
        omega
      rw [← hindex] at hrest
      obtain ⟨htaken, hlast⟩ := ih hrest
      constructor
      · rw [accept, if_neg hnew, htaken]
      · change (lastIndexOf e.index rest).toNat = _
        rw [hlast, hindex, List.length_cons]
        omega

theorem linked_of_contiguous {last : UInt64} {entries : List LogEntry}
    (h : ContiguousFrom (last.toNat + 1) entries) :
    Linked Follows last (accept last entries) (lastIndexOf last (accept last entries)) := by
  rw [(accept_of_contiguous h).1]
  induction entries generalizing last with
  | nil => rfl
  | cons entry rest ih =>
      obtain ⟨hindex, hrest⟩ := h
      rw [← hindex] at hrest
      exact ⟨hindex, ih hrest⟩

theorem Step.position_moves {now : Instant} {s s' : Subscription} {m : Move}
    (h : Step now s m s') : s'.lastApplied = Occurrence.advance s.lastApplied ⟨now, s, m⟩ := by
  cases h.effect with
  | applied entry failures hwork => simp [Occurrence.advance, Occurrence.applied?, hwork]
  | _ => rfl

end Subscription

open Subscription

namespace Run

variable {settings : ReplaySettings} {first : UInt64} {past earlier during : List Occurrence}
variable {now : Instant} {s : Subscription}

/-- The worker always knows where the state machine stands. -/
theorem lastApplied_eq_position (h : Run Interleaved settings first past now s) :
    s.lastApplied = position first past := by
  induction h with
  | start hstart =>
      rw [start_eq hstart]
      rfl
  | step _ _ hstep ih =>
      rw [position_snoc, ← ih]
      exact Step.position_moves hstep

theorem held_follows (h : Run Interleaved settings first past now s)
    (hlog : ReadsContiguous past) : HeldNext Follows s := by
  refine (chained_of_run h ?_).1
  intro x hx entries hm
  obtain ⟨earlier, later, rfl⟩ := List.append_of_mem hx
  obtain ⟨before, s', hrun, _, hstep⟩ := h.at_occurrence
  rw [hm] at hstep
  cases hstep with
  | endRead f _ hfetch =>
      have hstart := (disciplined_of_run hrun f hfetch).2.2.2
      have hread : x.read? = some (f.start, entries) := by simp [Occurrence.read?, hm, hfetch]
      have hcontiguous := hlog _ (List.mem_filterMap.mpr ⟨x, hx, hread⟩)
      rw [hstart] at hcontiguous
      exact linked_of_contiguous hcontiguous

/-- Whatever entry the worker holds at some point of a history is the one right
behind the position reached there. -/
theorem held_index {x : Occurrence} {later : List Occurrence} {entry : LogEntry}
    (h : Run Interleaved settings first (earlier ++ x :: later) now s)
    (hlog : ReadsContiguous (earlier ++ x :: later))
    (hheld : x.before.work.entry? = some entry) :
    entry.index.toNat = (position first earlier).toNat + 1 := by
  obtain ⟨before, _, hrun, _⟩ := h.at_occurrence
  rw [← hrun.lastApplied_eq_position]
  exact hrun.held_follows hlog.of_append entry hheld

/-- Between two installs the applied entries are consecutive, and the position
counts them. -/
theorem applied_consecutive (h : Run Interleaved settings first (earlier ++ during) now s)
    (hlog : ReadsContiguous (earlier ++ during)) (hquiet : ∀ x ∈ during, x.installed? = none) :
    (appliedIn during).map (·.index.toNat) =
      List.range' ((position first earlier).toNat + 1) (appliedIn during).length := by
  induction during generalizing earlier with
  | nil => rfl
  | cons x rest ih =>
      have hhead : x.installed? = none := hquiet x (by simp)
      have hrest : ∀ y ∈ rest, y.installed? = none := fun y hy => hquiet y (by simp [hy])
      have hsplit : earlier ++ x :: rest = (earlier ++ [x]) ++ rest := by simp
      have htail := @ih (earlier ++ [x]) (hsplit ▸ h) (hsplit ▸ hlog) hrest
      rw [position_snoc] at htail
      cases happlied : x.applied? with
      | none =>
          rw [Occurrence.advance_of_none happlied hhead] at htail
          simpa [appliedIn, happlied] using htail
      | some entry =>
          have hindex := h.held_index hlog (Occurrence.held_of_applied happlied)
          rw [Occurrence.advance_of_applied happlied, hindex] at htail
          simp only [appliedIn] at htail
          simp [appliedIn, happlied, List.range'_succ, hindex, htail]

/-- Nothing that succeeded moved the position. -/
theorem position_still (first : UInt64) (earlier : List Occurrence) {between : List Occurrence}
    (hquiet : ∀ x ∈ between, x.applied? = none ∧ x.installed? = none) :
    position first (earlier ++ between) = position first earlier := by
  induction between generalizing earlier with
  | nil => simp
  | cons x rest ih =>
      have hsplit : earlier ++ x :: rest = (earlier ++ [x]) ++ rest := by simp
      obtain ⟨happlied, hinstalled⟩ := hquiet x (by simp)
      rw [hsplit, ih (earlier ++ [x]) fun y hy => hquiet y (by simp [hy]), position_snoc,
        Occurrence.advance_of_none happlied hinstalled]

/-- Exactly-once, in-order application. Every call for an entry is for the one
right behind the position. So the entries applied between two installs are
consecutive, and after a failed apply no other entry is tried before something
succeeded. -/
theorem applies_each_entry_once (h : Run Interleaved settings first past now s)
    (hlog : ReadsContiguous past) :
    (∀ earlier x later entry, past = earlier ++ x :: later → x.attempted? = some entry →
      entry.index.toNat = (position first earlier).toNat + 1) ∧
    (∀ earlier during later, past = earlier ++ during ++ later →
      (∀ x ∈ during, x.installed? = none) →
      (appliedIn during).map (·.index.toNat) =
        List.range' ((position first earlier).toNat + 1) (appliedIn during).length) ∧
    (∀ earlier x between y later failed entry, past = earlier ++ x :: between ++ y :: later →
      x.refused? = some failed → (∀ z ∈ between, z.applied? = none ∧ z.installed? = none) →
      y.attempted? = some entry → entry.index = failed.index) := by
  refine ⟨?_, ?_, ?_⟩
  · rintro earlier x later entry rfl hattempt
    exact h.held_index hlog (Occurrence.held_of_attempted hattempt)
  · rintro earlier during later rfl hquiet
    obtain ⟨_, _, hrun⟩ := h.prefix_run
    exact hrun.applied_consecutive hlog.of_append hquiet
  · rintro earlier x between y later failed entry rfl hrefused hquiet hattempt
    have hlater := h.held_index hlog (Occurrence.held_of_attempted hattempt)
    rw [List.append_assoc, List.cons_append] at h hlog
    have hearlier := h.held_index hlog (Occurrence.held_of_refused hrefused)
    have hstill : ∀ z ∈ x :: between, z.applied? = none ∧ z.installed? = none := by
      intro z hz
      rcases List.mem_cons.mp hz with rfl | hz
      · exact Occurrence.still_of_refused hrefused
      · exact hquiet z hz
    rw [position_still first earlier hstill] at hlater
    exact UInt64.toNat_inj.mp (hlater.trans hearlier.symm)

/-- A snapshot arrives while the second of three entries is being tried again,
and cannot be installed. -/
def resetInVain : List (Instant × Move) :=
  [(0, .receive (.commit 3)), (0, .drive), (0, .drive), (0, .beginRead),
    (1, .endRead (.ok [⟨1, 1, []⟩, ⟨2, 1, []⟩])),
    (1, .work), (1, .beginApply), (2, .endApply (.ok ())), (2, .drive),
    (2, .work), (2, .beginApply), (3, .endApply (.error (.log (.applyFailed 2 "full")))),
    (3, .receive (.install ⟨⟨1, 1⟩, 1, "", 9, .normal⟩ "store1")),
    (3, .drive), (3, .work), (3, .work),
    (3, .beginInstall), (4, .endInstall (.error (.log (.installFailed "torn")))),
    (4, .drive), (4, .drive), (4, .beginRead),
    (5, .endRead (.ok [⟨2, 1, []⟩, ⟨3, 1, []⟩])),
    (5, .work), (5, .beginApply), (6, .endApply (.ok ())),
    (6, .work), (6, .beginApply), (7, .endApply (.ok ()))]

theorem applies_each_entry_once_reset_in_vain :
    ∃ past now s, Run Interleaved {} 0 past now s ∧ ReadsContiguous past ∧
      (past.filterMap Occurrence.attempted?).map (·.index) = [1, 2, 2, 3] ∧
      (appliedIn past).map (·.index) = [1, 2, 3] ∧
      ∀ earlier x later entry, past = earlier ++ x :: later → x.attempted? = some entry →
        entry.index.toNat = (position 0 earlier).toNat + 1 := by
  obtain ⟨fresh, past, s, hstart, hplay, hreads, hattempted, happlied⟩ :
      ∃ fresh past s, Subscription.start {} 0 = .ok fresh ∧
        play? [] fresh resetInVain = some (past, s) ∧
        past.filterMap Occurrence.read? =
          [(1, [⟨1, 1, []⟩, ⟨2, 1, []⟩]), (2, [⟨2, 1, []⟩, ⟨3, 1, []⟩])] ∧
        (past.filterMap Occurrence.attempted?).map (·.index) = [1, 2, 2, 3] ∧
        (appliedIn past).map (·.index) = [1, 2, 3] :=
    ⟨_, _, _, rfl, rfl, rfl, rfl, rfl⟩
  obtain ⟨now, hrun⟩ := run_of_play (.start hstart) (by decide) hplay
  have hlog : ReadsContiguous past := by
    rw [ReadsContiguous, hreads]
    simp [ContiguousFrom]
  exact ⟨past, now, s, hrun.interleaved, hlog, hattempted, happlied,
    (applies_each_entry_once hrun.interleaved hlog).1⟩

end Run

end RangeKeeper
