import RangeKeeper.Log.Memory
import RangeKeeper.Proofs.Log.Contiguous

/-!
The log in memory keeps what its readers rely on. Beside the log stands the list
of everything that was ever appended; a compaction takes entries off the log but
not off that list. Whatever is done to the log, the entries kept stand at
consecutive indexes from the first one on, and they are what the list has from
there on. So a read that is not refused can be said by the list alone: it gives
the appended entries from the index asked for as far as they are committed and
the budget lasts.
-/

namespace RangeKeeper

theorem toNat_max (a b : UInt64) : (max a b).toNat = max a.toNat b.toNat := by
  change (if a ≤ b then b else a).toNat = _
  split
  next hle => exact (Nat.max_eq_right (UInt64.le_iff_toNat_le.mp hle)).symm
  next hgt => exact (Nat.max_eq_left (Nat.le_of_lt (UInt64.not_le.mp hgt))).symm

theorem toNat_min (a b : UInt64) : (min a b).toNat = min a.toNat b.toNat := by
  change (if a ≤ b then a else b).toNat = _
  split
  next hle => exact (Nat.min_eq_left (UInt64.le_iff_toNat_le.mp hle)).symm
  next hgt => exact (Nat.min_eq_right (Nat.le_of_lt (UInt64.not_le.mp hgt))).symm

theorem toNat_add_ofNat {a : UInt64} {n : Nat} (h : a.toNat + n < UInt64.size) :
    (a + UInt64.ofNat n).toNat = a.toNat + n := by
  have hn : n < UInt64.size := by omega
  rw [UInt64.toNat_add, UInt64.toNat_ofNat_of_lt' hn]
  exact Nat.mod_eq_of_lt h

namespace MemoryLog

variable {made : List LogEntry} {log : MemoryLog}

theorem nextIndex_append (log : MemoryLog) (data : Bytes) :
    (log.append data).2.nextIndex = log.nextIndex + 1 := by
  simp only [nextIndex, append, List.length_append, List.length_singleton, UInt64.ofNat_add,
    UInt64.add_assoc]
  rfl

theorem nextIndex_appendMany (log : MemoryLog) (count : Nat) :
    (log.appendMany count).2.nextIndex = log.nextIndex + UInt64.ofNat count := by
  simp only [nextIndex, appendMany, generated, List.length_append, List.length_map,
    List.length_range, UInt64.ofNat_add, UInt64.add_assoc]

theorem generated_succ (log : MemoryLog) (count : Nat) :
    log.generated (count + 1) = log.generated count ++
      [⟨(log.appendMany count).2.nextIndex, 1,
        generatedPayload (log.appendMany count).2.nextIndex⟩] := by
  rw [nextIndex_appendMany]
  simp [generated, List.range_succ]

/-- To append many is to append one after the other, and the last one gives the
index. -/
theorem appendMany_succ (log : MemoryLog) (count : Nat) :
    log.appendMany (count + 1) = (log.appendMany count).2.append
      (generatedPayload (log.appendMany count).2.nextIndex) := by
  have hlog : (log.appendMany (count + 1)).2 = ((log.appendMany count).2.append
      (generatedPayload (log.appendMany count).2.nextIndex)).2 := by
    change { log with entries := log.entries ++ log.generated (count + 1) } = _
    rw [generated_succ, ← List.append_assoc]
    rfl
  have hindex : (log.appendMany (count + 1)).1 = (log.appendMany count).2.nextIndex := by
    change (log.appendMany (count + 1)).2.lastIndex = _
    rw [hlog, lastIndex, nextIndex_append, UInt64.add_sub_cancel]
  exact Prod.ext hindex hlog

inductive Call where
  | append (data : Bytes)
  | appendMany (count : Nat)
  | commit (index : UInt64)
  | compact (index : UInt64)
  | read (start budget : UInt64)
  | failReads (count : Nat)
  | lagReads (count : Nat)
  | listen
  | hear

def perform (log : MemoryLog) : Call → MemoryLog
  | .append data => (log.append data).2
  | .appendMany count => (log.appendMany count).2
  | .commit index => log.commit index
  | .compact index => log.compact index
  | .read start budget => (log.read start budget).2
  | .failReads count => { log with failingReads := count }
  | .lagReads count => { log with laggingReads := count }
  | .listen => log.listen
  | .hear => log.hear.2

def added (log : MemoryLog) : Call → List LogEntry
  | .append data => [⟨log.nextIndex, 1, data⟩]
  | .appendMany count => log.generated count
  | .commit _ | .compact _ | .read _ _ | .failReads _ | .lagReads _ | .listen | .hear => []

/-- The call takes no index to the end of the words. -/
def Fits (log : MemoryLog) : Call → Prop
  | .append _ => log.nextIndex.toNat + 1 < UInt64.size
  | .appendMany count => log.nextIndex.toNat + count < UInt64.size
  | .compact index => index.toNat + 1 < UInt64.size
  | _ => True

instance (log : MemoryLog) : (c : Call) → Decidable (log.Fits c)
  | .append _ | .appendMany _ | .compact _ => inferInstanceAs (Decidable (_ < _))
  | .commit _ | .read _ _ | .failReads _ | .lagReads _ | .listen | .hear =>
    inferInstanceAs (Decidable True)

/-- Some calls led to the log, and `made` is all that they appended. -/
inductive History : List LogEntry → MemoryLog → Prop
  | fresh : History [] {}
  | call {made : List LogEntry} {log : MemoryLog} (c : Call) (past : History made log)
      (fits : log.Fits c) : History (made ++ log.added c) (log.perform c)

/-- The log keeps a consecutive run of entries, all that was appended from the
first index on. -/
structure Kept (made : List LogEntry) (log : MemoryLog) : Prop where
  positive : 1 ≤ log.firstIndex.toNat
  bounded : log.firstIndex.toNat + log.entries.length < UInt64.size
  contiguous : ContiguousFrom log.firstIndex.toNat log.entries
  ascending : made.Pairwise fun d e => d.index < e.index
  below : ∀ e ∈ made, e.index.toNat < log.firstIndex.toNat + log.entries.length
  entries_eq : log.entries = made.filter fun e => decide (log.firstIndex ≤ e.index)

namespace Kept

theorem toNat_nextIndex (h : Kept made log) :
    log.nextIndex.toNat = log.firstIndex.toNat + log.entries.length :=
  toNat_add_ofNat h.bounded

theorem toNat_lastIndex (h : Kept made log) :
    log.lastIndex.toNat = log.firstIndex.toNat + log.entries.length - 1 := by
  have hpositive := h.positive
  have hone : (1 : UInt64) ≤ log.nextIndex := by
    rw [UInt64.le_iff_toNat_le, h.toNat_nextIndex]
    exact Nat.le_trans hpositive (Nat.le_add_right _ _)
  rw [lastIndex, UInt64.toNat_sub_of_le _ _ hone, h.toNat_nextIndex]
  rfl

/-- Behind an entry there is room for another index. -/
theorem toNat_succ (h : Kept made log) {index : UInt64} (hindex : index ≤ log.lastIndex) :
    (index + 1).toNat = index.toNat + 1 := by
  have hpositive := h.positive
  have hbounded := h.bounded
  have hlast := h.toNat_lastIndex
  rw [UInt64.le_iff_toNat_le] at hindex
  have hfits : index.toNat + 1 < UInt64.size := by omega
  exact toNat_add_ofNat hfits

theorem lt_nextIndex (h : Kept made log) {e : LogEntry} (he : e ∈ made) :
    e.index < log.nextIndex := by
  rw [UInt64.lt_iff_toNat_lt, h.toNat_nextIndex]
  exact h.below e he

theorem fresh : Kept [] {} where
  positive := Nat.le_refl 1
  bounded := by decide
  contiguous := trivial
  ascending := .nil
  below := by simp
  entries_eq := rfl

theorem append (h : Kept made log) (hfits : log.nextIndex.toNat + 1 < UInt64.size) (data : Bytes) :
    Kept (made ++ [⟨log.nextIndex, 1, data⟩]) (log.append data).2 := by
  have hnext := h.toNat_nextIndex
  have hlength : (log.append data).2.entries.length = log.entries.length + 1 := by
    simp [MemoryLog.append]
  refine ⟨h.positive, ?_, ?_, ?_, ?_, ?_⟩
  · rw [hlength, ← Nat.add_assoc]
    rw [hnext] at hfits
    exact hfits
  · exact contiguousFrom_append.mpr ⟨h.contiguous, hnext, trivial⟩
  · rw [List.pairwise_append]
    refine ⟨h.ascending, by simp, ?_⟩
    intro d hd e he
    rw [List.mem_singleton.mp he]
    exact h.lt_nextIndex hd
  · intro e he
    rw [hlength]
    rcases List.mem_append.mp he with he | he
    · exact Nat.lt_succ_of_lt (h.below e he)
    · rw [List.mem_singleton.mp he]
      exact Nat.lt_succ_of_le (Nat.le_of_eq hnext)
  · have hfirst : log.firstIndex ≤ log.nextIndex := by
      rw [UInt64.le_iff_toNat_le, hnext]
      exact Nat.le_add_right _ _
    change log.entries ++ _ = (made ++ _).filter fun e => decide (log.firstIndex ≤ e.index)
    rw [List.filter_append, ← h.entries_eq]
    simp [hfirst]

theorem appendMany (h : Kept made log) {count : Nat}
    (hfits : log.nextIndex.toNat + count < UInt64.size) :
    Kept (made ++ log.generated count) (log.appendMany count).2 := by
  induction count with
  | zero => simpa [generated, MemoryLog.appendMany] using h
  | succ count ih =>
      have hearlier : log.nextIndex.toNat + count < UInt64.size := by omega
      rw [generated_succ, appendMany_succ, ← List.append_assoc]
      apply (ih hearlier).append
      rw [nextIndex_appendMany, toNat_add_ofNat hearlier]
      exact hfits

/-- A compaction past the end leaves no entry, and the next one will stand
behind what was compacted. -/
theorem compact (h : Kept made log) {index : UInt64} (hfits : index.toNat + 1 < UInt64.size) :
    Kept made (log.compact index) := by
  have hpositive := h.positive
  have hbounded := h.bounded
  have hnext : (index + 1).toNat = index.toNat + 1 := toNat_add_ofNat hfits
  have hfirst : (log.compact index).firstIndex.toNat =
      max log.firstIndex.toNat (index.toNat + 1) := by
    rw [← hnext]
    exact toNat_max _ _
  have hentries : (log.compact index).entries =
      log.entries.drop (index.toNat + 1 - log.firstIndex.toNat) := h.contiguous.dropWhile_le index
  have hlength := congrArg List.length hentries
  rw [List.length_drop] at hlength
  refine ⟨by omega, by omega, ?_, h.ascending, ?_, ?_⟩
  · have hcut : (log.compact index).firstIndex.toNat =
        log.firstIndex.toNat + (index.toNat + 1 - log.firstIndex.toNat) := by omega
    rw [hcut, hentries]
    exact h.contiguous.drop _
  · intro e he
    have hbelow := h.below e he
    omega
  · have hcut : (log.compact index).firstIndex.toNat - log.firstIndex.toNat =
        index.toNat + 1 - log.firstIndex.toNat := by omega
    have hle : log.firstIndex ≤ (log.compact index).firstIndex := by
      rw [UInt64.le_iff_toNat_le]
      omega
    rw [hentries, ← hcut, ← h.contiguous.filter_ge, h.entries_eq, filter_kept hle]

/-- Commit marks and reads do not matter to what is kept. -/
theorem of_same (h : Kept made log) {log' : MemoryLog} (hfirst : log'.firstIndex = log.firstIndex)
    (hentries : log'.entries = log.entries) : Kept made log' := by
  obtain ⟨hpositive, hbounded, hcontiguous, hascending, hbelow, heq⟩ := h
  rw [← hfirst, ← hentries] at hbounded hcontiguous hbelow
  rw [← hfirst] at hpositive
  rw [← hfirst, ← hentries] at heq
  exact ⟨hpositive, hbounded, hcontiguous, hascending, hbelow, heq⟩

end Kept

/-- A read takes nothing off the log. -/
theorem read_eq (log : MemoryLog) (start budget : UInt64) :
    ∃ failing lagging, (log.read start budget).2 = { log with
      failingReads := failing
      laggingReads := lagging
      fetchStarts := log.fetchStarts ++ [start] } := by
  simp only [read]
  split
  · exact ⟨_, _, rfl⟩
  · split
    · exact ⟨_, _, rfl⟩
    · exact ⟨_, _, rfl⟩

theorem Kept.perform (h : Kept made log) {c : Call} (hfits : log.Fits c) :
    Kept (made ++ log.added c) (log.perform c) := by
  cases c with
  | append data => exact h.append hfits data
  | appendMany count => exact h.appendMany hfits
  | compact index =>
      rw [added, List.append_nil]
      exact h.compact hfits
  | read start budget =>
      obtain ⟨_, _, hread⟩ := log.read_eq start budget
      rw [added, List.append_nil, MemoryLog.perform, hread]
      exact h.of_same rfl rfl
  | commit | failReads | lagReads | listen | hear =>
      rw [added, List.append_nil]
      exact h.of_same rfl rfl

theorem History.kept (h : History made log) : Kept made log := by
  induction h with
  | fresh => exact .fresh
  | call c _ hfits ih => exact ih.perform hfits

theorem History.read (h : History made log) (start budget : UInt64) :
    History made (log.read start budget).2 := by
  have hcall := h.call (.read start budget) trivial
  rwa [added, List.append_nil] at hcall

end MemoryLog

end RangeKeeper
