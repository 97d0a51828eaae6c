import RangeKeeper.Metrics.Series
import RangeKeeper.Proofs.SortedMap

/-!
Counting by labels. One more count is seen in its own series and in the sum, and
nowhere else, whether or not the series was there before.
-/

namespace RangeKeeper

/-- The sum of the counts goes up by one, at whatever key it is counted. -/
theorem SortedMap.sum_upsertEntry {κ : Type} [Ord κ] (k : κ) (es : List (κ × UInt64)) :
    ((upsertEntry k (fun present => present.getD 0 + 1) es).map Prod.snd).foldr (· + ·) 0 =
      (es.map Prod.snd).foldr (· + ·) 0 + 1 := by
  induction es with
  | nil => rfl
  | cons head rest ih =>
      obtain ⟨k', count⟩ := head
      rw [upsertEntry]
      cases compare k k' with
      | lt =>
          simp only [List.map_cons, List.foldr_cons, Option.getD_none, UInt64.zero_add]
          exact UInt64.add_comm _ _
      | eq =>
          simp only [List.map_cons, List.foldr_cons, Option.getD_some]
          rw [UInt64.add_assoc, UInt64.add_assoc, UInt64.add_comm 1]
      | gt =>
          simp only [List.map_cons, List.foldr_cons]
          rw [ih, UInt64.add_assoc]

namespace LabeledCounter

variable {n : Nat} {values other : Vector String n}

theorem get_increment_self (c : LabeledCounter n) (values : Vector String n) :
    (c.increment values).get values = c.get values + 1 := by
  rw [get, increment, SortedMap.find?_upsert_self]
  rfl

theorem get_increment_ne (c : LabeledCounter n) (hne : other ≠ values) :
    (c.increment values).get other = c.get other := by
  rw [get, get, increment, SortedMap.find?_upsert_ne hne]

theorem mem_keys_increment (c : LabeledCounter n) :
    other ∈ (c.increment values).series.keys ↔ other ∈ c.series.keys ∨ other = values := by
  rw [← SortedMap.isSome_find?, ← SortedMap.isSome_find?, increment]
  by_cases hsame : other = values
  · subst hsame
    simp [SortedMap.find?_upsert_self]
  · simp [SortedMap.find?_upsert_ne hsame, hsame]

theorem total_increment (c : LabeledCounter n) (values : Vector String n) :
    (c.increment values).total = c.total + 1 :=
  SortedMap.sum_upsertEntry values c.series.entries

end LabeledCounter

end RangeKeeper
