import Mathlib.Order.Bounds.Defs
import RangeKeeper.Proofs.Log.Memory

/-!
What one read of the log in memory gives. It is refused exactly when it asks for
an index in front of the first one kept. Otherwise it gives the appended entries
from that index up to the greatest one that is committed, exists and leaves the
sizes of the entries within the budget, though the first entry is given at any
price.
-/

namespace RangeKeeper

namespace MemoryLog

variable {made : List LogEntry} {log : MemoryLog}

/-- What fits into the rest of a budget is taken, and one entry more would be
too much. -/
theorem takeWithin_eq (budget used : Nat) (entries : List LogEntry) :
    ∃ n, n ≤ entries.length ∧ takeWithin budget used entries = entries.take n ∧
      (n = 0 ∨ used + totalSize (entries.take n) ≤ budget) ∧
      ∀ k, n < k → k ≤ entries.length → budget < used + totalSize (entries.take k) := by
  induction entries generalizing used with
  | nil =>
      refine ⟨0, Nat.le_refl 0, rfl, .inl rfl, ?_⟩
      intro k hk hlength
      exact absurd hlength (Nat.not_le_of_gt hk)
  | cons e rest ih =>
      by_cases hover : budget < used + e.size
      · refine ⟨0, Nat.zero_le _, by simp [takeWithin, hover], .inl rfl, ?_⟩
        intro k hk _
        obtain ⟨k, rfl⟩ := Nat.exists_eq_add_of_lt hk
        rw [Nat.zero_add, List.take_succ_cons, totalSize]
        omega
      · obtain ⟨n, hn, heq, hfits, hmore⟩ := ih (used + e.size)
        refine ⟨n + 1, Nat.succ_le_succ hn, ?_, .inr ?_, ?_⟩
        · rw [takeWithin, if_neg hover, heq, List.take_succ_cons]
        · rw [List.take_succ_cons, totalSize, ← Nat.add_assoc]
          rcases hfits with rfl | hfits
          · exact Nat.le_of_not_lt hover
          · exact hfits
        · intro k hk hlength
          obtain ⟨k, rfl⟩ := Nat.exists_eq_add_of_lt (Nat.zero_lt_of_lt hk)
          rw [Nat.zero_add] at hk hlength ⊢
          rw [List.take_succ_cons, totalSize, ← Nat.add_assoc]
          exact hmore k (Nat.lt_of_succ_lt_succ hk) (Nat.le_of_succ_le_succ hlength)

/-- A batch is the longest beginning of the entries that has one entry or keeps
to the budget. -/
theorem batch_eq (budget : Nat) {entries : List LogEntry} (hsome : entries ≠ []) :
    ∃ n, 0 < n ∧ n ≤ entries.length ∧ batch budget entries = entries.take n ∧
      (n = 1 ∨ totalSize (entries.take n) ≤ budget) ∧
      ∀ k, n < k → k ≤ entries.length → budget < totalSize (entries.take k) := by
  cases entries with
  | nil => exact absurd rfl hsome
  | cons e rest =>
      obtain ⟨n, hn, heq, hfits, hmore⟩ := takeWithin_eq budget e.size rest
      refine ⟨n + 1, Nat.succ_pos n, Nat.succ_le_succ hn, ?_, ?_, ?_⟩
      · rw [batch, heq, List.take_succ_cons]
      · rw [List.take_succ_cons, totalSize]
        exact hfits.imp_left (congrArg Nat.succ)
      · intro k hk hlength
        obtain ⟨k, rfl⟩ := Nat.exists_eq_add_of_lt (Nat.zero_lt_of_lt hk)
        rw [Nat.zero_add] at hk hlength ⊢
        rw [List.take_succ_cons, totalSize]
        exact hmore k (Nat.lt_of_succ_lt_succ hk) (Nat.le_of_succ_le_succ hlength)

def lastReadable (log : MemoryLog) : UInt64 := min log.committed log.lastIndex

theorem toNat_lastReadable (log : MemoryLog) :
    log.lastReadable.toNat = min log.committed.toNat log.lastIndex.toNat :=
  toNat_min _ _

theorem lastReadable_le (log : MemoryLog) :
    log.lastReadable ≤ log.committed ∧ log.lastReadable ≤ log.lastIndex := by
  rw [UInt64.le_iff_toNat_le, UInt64.le_iff_toNat_le, toNat_lastReadable]
  exact ⟨Nat.min_le_left _ _, Nat.min_le_right _ _⟩

/-- How far a read may get from `start`: to `start` itself, or as far as the
budget lasts. -/
def Affordable (made : List LogEntry) (log : MemoryLog) (start budget : UInt64) : Set UInt64 :=
  {k | k ≤ log.lastReadable ∧
    (k = start ∨ totalSize (entriesBetween start k made) ≤ budget.toNat)}

namespace Kept

variable {a b start budget : UInt64}

theorem between_entries (h : Kept made log) (ha : log.firstIndex ≤ a) (b : UInt64) :
    entriesBetween a b log.entries = entriesBetween a b made := by
  rw [h.entries_eq, entriesBetween_kept ha]

/-- What was appended from a kept index on is still there, without a gap. -/
theorem contiguous_between (h : Kept made log) (ha : log.firstIndex ≤ a) (b : UInt64) :
    ContiguousFrom a.toNat (entriesBetween a b made) := by
  rw [← h.between_entries ha]
  exact h.contiguous.entriesBetween (UInt64.le_iff_toNat_le.mp ha) b

theorem length_between (h : Kept made log) (ha : log.firstIndex ≤ a) (b : UInt64) :
    (entriesBetween a b made).length =
      min b.toNat log.lastIndex.toNat + 1 - a.toNat := by
  have hpositive := h.positive
  have hle : log.firstIndex.toNat ≤ a.toNat := UInt64.le_iff_toNat_le.mp ha
  rw [← h.between_entries ha, h.contiguous.length_entriesBetween, h.toNat_lastIndex]
  omega

theorem map_index_between (h : Kept made log) (ha : log.firstIndex ≤ a) (hb : b ≤ log.lastIndex) :
    (entriesBetween a b made).map (·.index.toNat) =
      List.range' a.toNat (b.toNat + 1 - a.toNat) := by
  have hle := UInt64.le_iff_toNat_le.mp hb
  rw [(h.contiguous_between ha b).map_index, h.length_between ha b, Nat.min_eq_left hle]

/-- What a shorter range holds is the beginning of what a longer one holds. -/
theorem take_between (h : Kept made log) (ha : log.firstIndex ≤ a) {k : UInt64} (hk : k ≤ b) :
    (entriesBetween a b made).take (k.toNat + 1 - a.toNat) = entriesBetween a k made := by
  rw [← (h.contiguous_between ha b).filter_le k, entriesBetween_le hk]

theorem drop_between (h : Kept made log) (ha : log.firstIndex ≤ a) {k : UInt64} (hk : a ≤ k) :
    (entriesBetween a b made).drop (k.toNat - a.toNat) = entriesBetween k b made := by
  rw [← (h.contiguous_between ha b).filter_ge k, entriesBetween_ge hk]

/-- A range in two: up to an index, and from the one behind it on. -/
theorem between_append (h : Kept made log) (ha : log.firstIndex ≤ a) {k : UInt64} (hak : a ≤ k)
    (hkb : k ≤ b) (hb : b ≤ log.lastIndex) :
    entriesBetween a k made ++ entriesBetween (k + 1) b made = entriesBetween a b made := by
  have hsucc := h.toNat_succ (UInt64.le_trans hkb hb)
  have hnext : a ≤ k + 1 := by
    rw [UInt64.le_iff_toNat_le, hsucc]
    exact Nat.le_succ_of_le (UInt64.le_iff_toNat_le.mp hak)
  rw [← h.take_between ha hkb, ← h.drop_between ha hnext, hsucc, List.take_append_drop]

theorem retrieve_eq (h : Kept made log) (hstart : log.firstIndex ≤ start) :
    log.retrieve start budget =
      .ok (batch budget.toNat (entriesBetween start log.committed made)) := by
  rw [retrieve, if_neg (UInt64.not_lt.mpr hstart), ← h.between_entries hstart]
  rfl

theorem length_readable (h : Kept made log) (hstart : log.firstIndex ≤ start) :
    (entriesBetween start log.committed made).length =
      log.lastReadable.toNat + 1 - start.toNat := by
  rw [h.length_between hstart, toNat_lastReadable]

/-- A read from a readable index on goes as far as it can afford. -/
theorem retrieve_affordable (h : Kept made log) (hstart : log.firstIndex ≤ start)
    (hreadable : start ≤ log.lastReadable) (budget : UInt64) :
    ∃ j, IsGreatest (Affordable made log start budget) j ∧ start ≤ j ∧
      log.retrieve start budget = .ok (entriesBetween start j made) := by
  have hlength := h.length_readable hstart
  have hle : start.toNat ≤ log.lastReadable.toNat := UInt64.le_iff_toNat_le.mp hreadable
  have hcut {k : UInt64} (hk : k ≤ log.lastReadable) :
      (entriesBetween start log.committed made).take (k.toNat + 1 - start.toNat) =
        entriesBetween start k made :=
    h.take_between hstart (UInt64.le_trans hk log.lastReadable_le.1)
  have hsome : entriesBetween start log.committed made ≠ [] := by
    apply List.ne_nil_of_length_pos
    omega
  obtain ⟨n, hpositive, hn, hbatch, hfits, hmore⟩ := batch_eq budget.toNat hsome
  have hbound := log.lastReadable.toNat_lt
  have hj : (start + UInt64.ofNat (n - 1)).toNat = start.toNat + (n - 1) := by
    apply toNat_add_ofNat
    change _ < 2 ^ 64
    omega
  generalize start + UInt64.ofNat (n - 1) = j at hj
  have hcount : j.toNat + 1 - start.toNat = n := by omega
  have hjle : j ≤ log.lastReadable := by
    rw [UInt64.le_iff_toNat_le]
    omega
  have htaken := hcut hjle
  rw [hcount] at htaken
  refine ⟨j, ⟨⟨hjle, ?_⟩, ?_⟩, ?_, ?_⟩
  · rw [htaken] at hfits
    refine hfits.imp_left fun hone => ?_
    apply UInt64.toNat.inj
    omega
  · rintro k ⟨hk, hafford⟩
    apply UInt64.le_iff_toNat_le.mpr
    apply Nat.le_of_not_lt
    intro hbeyond
    have hkle := UInt64.le_iff_toNat_le.mp hk
    have hover := hmore (k.toNat + 1 - start.toNat) (by omega) (by omega)
    rw [hcut hk] at hover
    rcases hafford with rfl | hafford
    · omega
    · exact absurd hafford (Nat.not_le_of_gt hover)
  · rw [UInt64.le_iff_toNat_le]
    omega
  · rw [h.retrieve_eq hstart, hbatch, htaken]

end Kept

/-- A read that nobody meddles with is answered from the entries. -/
theorem read_undisturbed (start budget : UInt64) (hfailing : log.failingReads = 0)
    (hlagging : log.laggingReads = 0) :
    log.read start budget =
      (log.retrieve start budget, { log with fetchStarts := log.fetchStarts ++ [start] }) := by
  simp only [read, hfailing, hlagging, Nat.lt_irrefl, if_false]
  rfl

end MemoryLog

end RangeKeeper
