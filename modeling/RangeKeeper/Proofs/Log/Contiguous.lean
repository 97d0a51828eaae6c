import RangeKeeper.Log.Entry

/-!
Entries at consecutive indexes. Of such a run, what a bound on the index picks
out is what stands on one side of a position, so a search by index and a cut by
position come to the same.
-/

namespace RangeKeeper

def ContiguousFrom : Nat → List LogEntry → Prop
  | _, [] => True
  | i, entry :: rest => entry.index.toNat = i ∧ ContiguousFrom (i + 1) rest

def entriesBetween (a b : UInt64) (entries : List LogEntry) : List LogEntry :=
  entries.filter fun e => decide (a ≤ e.index) && decide (e.index ≤ b)

/-- What entries count together against the budget of a read. -/
def totalSize : List LogEntry → Nat
  | [] => 0
  | e :: rest => e.size + totalSize rest

theorem filter_twice {p q r : LogEntry → Bool} (h : ∀ e, r e = true ↔ p e = true ∧ q e = true)
    (entries : List LogEntry) : (entries.filter q).filter p = entries.filter r := by
  rw [List.filter_filter]
  apply List.filter_congr
  intro e _
  rw [Bool.eq_iff_iff, Bool.and_eq_true, h]

/-- Of two lower bounds the greater one decides. -/
theorem filter_kept {i k : UInt64} (h : i ≤ k) (entries : List LogEntry) :
    (entries.filter fun e => decide (i ≤ e.index)).filter (fun e => decide (k ≤ e.index)) =
      entries.filter fun e => decide (k ≤ e.index) := by
  apply filter_twice
  simp only [decide_eq_true_eq]
  exact fun e => ⟨fun hk => ⟨hk, UInt64.le_trans h hk⟩, fun ⟨hk, _⟩ => hk⟩

/-- A range is cut out the same where only entries in front of it are gone. -/
theorem entriesBetween_kept {i a : UInt64} (h : i ≤ a) (b : UInt64) (entries : List LogEntry) :
    entriesBetween a b (entries.filter fun e => decide (i ≤ e.index)) =
      entriesBetween a b entries := by
  apply filter_twice
  simp only [Bool.and_eq_true, decide_eq_true_eq]
  exact fun e => ⟨fun hab => ⟨hab, UInt64.le_trans h hab.1⟩, fun ⟨hab, _⟩ => hab⟩

/-- A range that ends earlier is cut out the same from a range that ends
later. -/
theorem entriesBetween_le {a b k : UInt64} (h : k ≤ b) (entries : List LogEntry) :
    (entriesBetween a b entries).filter (fun e => decide (e.index ≤ k)) =
      entriesBetween a k entries := by
  apply filter_twice
  simp only [Bool.and_eq_true, decide_eq_true_eq]
  exact fun e => ⟨fun ⟨ha, hk⟩ => ⟨hk, ha, UInt64.le_trans hk h⟩, fun ⟨hk, ha, _⟩ => ⟨ha, hk⟩⟩

/-- A range that begins later is cut out the same from a range that begins
earlier. -/
theorem entriesBetween_ge {a b k : UInt64} (h : a ≤ k) (entries : List LogEntry) :
    (entriesBetween a b entries).filter (fun e => decide (k ≤ e.index)) =
      entriesBetween k b entries := by
  apply filter_twice
  simp only [Bool.and_eq_true, decide_eq_true_eq]
  exact fun e => ⟨fun ⟨hk, hb⟩ => ⟨hk, UInt64.le_trans h hk, hb⟩, fun ⟨hk, _, hb⟩ => ⟨hk, hb⟩⟩

/-- One run goes on where another ends. -/
theorem contiguousFrom_append {i : Nat} {earlier later : List LogEntry} :
    ContiguousFrom i (earlier ++ later) ↔
      ContiguousFrom i earlier ∧ ContiguousFrom (i + earlier.length) later := by
  induction earlier generalizing i with
  | nil => simp [ContiguousFrom]
  | cons e rest ih =>
      have hlength : i + 1 + rest.length = i + (rest.length + 1) := by omega
      simp only [List.cons_append, ContiguousFrom, ih, List.length_cons, hlength, and_assoc]

namespace ContiguousFrom

variable {i n : Nat} {entries : List LogEntry}

protected theorem take (h : ContiguousFrom i entries) (n : Nat) :
    ContiguousFrom i (entries.take n) := by
  rw [← List.take_append_drop n entries] at h
  exact (contiguousFrom_append.mp h).1

protected theorem drop (h : ContiguousFrom i entries) (n : Nat) :
    ContiguousFrom (i + n) (entries.drop n) := by
  by_cases hn : n ≤ entries.length
  · have hlength : (entries.take n).length = n := List.length_take_of_le hn
    rw [← List.take_append_drop n entries, contiguousFrom_append, hlength] at h
    exact h.2
  · rw [List.drop_eq_nil_of_le (by omega)]
    trivial

theorem map_index (h : ContiguousFrom i entries) :
    entries.map (·.index.toNat) = List.range' i entries.length := by
  induction entries generalizing i with
  | nil => rfl
  | cons e rest ih =>
      obtain ⟨hindex, hrest⟩ := h
      simp only [List.map_cons, List.length_cons, List.range'_succ, hindex, ih hrest]

theorem filter_le (h : ContiguousFrom i entries) (b : UInt64) :
    entries.filter (fun e => decide (e.index ≤ b)) = entries.take (b.toNat + 1 - i) := by
  induction entries generalizing i with
  | nil => simp
  | cons e rest ih =>
      obtain ⟨hindex, hrest⟩ := h
      by_cases hle : e.index ≤ b
      · have hnat : e.index.toNat ≤ b.toNat := UInt64.le_iff_toNat_le.mp hle
        have hcount : b.toNat + 1 - i = b.toNat + 1 - (i + 1) + 1 := by omega
        rw [List.filter_cons_of_pos (by simpa using hle), ih hrest, hcount, List.take_succ_cons]
      · have hnat : ¬e.index.toNat ≤ b.toNat := mt UInt64.le_iff_toNat_le.mpr hle
        have hnone : b.toNat + 1 - i = 0 := by omega
        have hnext : b.toNat + 1 - (i + 1) = 0 := by omega
        rw [List.filter_cons_of_neg (by simpa using hle), ih hrest, hnone, hnext, List.take_zero,
          List.take_zero]

theorem filter_ge (h : ContiguousFrom i entries) (a : UInt64) :
    entries.filter (fun e => decide (a ≤ e.index)) = entries.drop (a.toNat - i) := by
  induction entries generalizing i with
  | nil => simp
  | cons e rest ih =>
      obtain ⟨hindex, hrest⟩ := h
      by_cases hle : a ≤ e.index
      · have hnat : a.toNat ≤ e.index.toNat := UInt64.le_iff_toNat_le.mp hle
        have hnone : a.toNat - i = 0 := by omega
        have hnext : a.toNat - (i + 1) = 0 := by omega
        rw [List.filter_cons_of_pos (by simpa using hle), ih hrest, hnone, hnext, List.drop_zero,
          List.drop_zero]
      · have hnat : ¬a.toNat ≤ e.index.toNat := mt UInt64.le_iff_toNat_le.mpr hle
        have hcount : a.toNat - i = a.toNat - (i + 1) + 1 := by omega
        rw [List.filter_cons_of_neg (by simpa using hle), ih hrest, hcount, List.drop_succ_cons]

/-- Giving up entries from the front while they are not above `b` gives up all
that are not. -/
theorem dropWhile_le (h : ContiguousFrom i entries) (b : UInt64) :
    entries.dropWhile (fun e => decide (e.index ≤ b)) = entries.drop (b.toNat + 1 - i) := by
  induction entries generalizing i with
  | nil => simp
  | cons e rest ih =>
      obtain ⟨hindex, hrest⟩ := h
      by_cases hle : e.index ≤ b
      · have hnat : e.index.toNat ≤ b.toNat := UInt64.le_iff_toNat_le.mp hle
        have hcount : b.toNat + 1 - i = b.toNat + 1 - (i + 1) + 1 := by omega
        rw [List.dropWhile_cons_of_pos (by simpa using hle), ih hrest, hcount, List.drop_succ_cons]
      · have hnat : ¬e.index.toNat ≤ b.toNat := mt UInt64.le_iff_toNat_le.mpr hle
        have hnone : b.toNat + 1 - i = 0 := by omega
        rw [List.dropWhile_cons_of_neg (by simpa using hle), hnone, List.drop_zero]

theorem entriesBetween_eq (h : ContiguousFrom i entries) (a b : UInt64) :
    entriesBetween a b entries = (entries.take (b.toNat + 1 - i)).drop (a.toNat - i) := by
  rw [← (h.take _).filter_ge a, ← h.filter_le b, List.filter_filter]
  rfl

protected theorem entriesBetween {a : UInt64} (h : ContiguousFrom i entries) (ha : i ≤ a.toNat)
    (b : UInt64) : ContiguousFrom a.toNat (entriesBetween a b entries) := by
  have hstart : i + (a.toNat - i) = a.toNat := by omega
  rw [h.entriesBetween_eq, ← hstart]
  simpa using (h.take (b.toNat + 1 - i)).drop (a.toNat - i)

theorem length_entriesBetween (h : ContiguousFrom i entries) (a b : UInt64) :
    (entriesBetween a b entries).length =
      min (b.toNat + 1 - i) entries.length - (a.toNat - i) := by
  rw [h.entriesBetween_eq, List.length_drop, List.length_take]

end ContiguousFrom

end RangeKeeper
