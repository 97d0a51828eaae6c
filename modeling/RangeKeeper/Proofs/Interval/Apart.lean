import RangeKeeper.Interval

/-!
Intervals that stand apart. One is left of another when it ends before the other
begins or where the other begins. For intervals with room for a key this is what
the three-way comparison of lower ends leaves over once an overlap is excluded,
and it chains through any interval that has room.
-/

namespace RangeKeeper.Interval

/-- `a` ends at the lower end of `b` or before it. -/
def LeftOf (a b : Interval) : Prop :=
  ∃ e s, a.upper = some e ∧ b.lower = some s ∧ e ≤ s

variable {a b c : Interval} {j k s e : Key}

theorem isEmpty_eq_false : a.isEmpty = false ↔ a.isValid = true := by
  simp [isEmpty]

theorem lower_lt_upper (ha : a.isValid = true) (hs : a.lower = some s) (he : a.upper = some e) :
    s < e := by
  simpa [isValid, hs, he] using ha

theorem containsKey_iff :
    a.containsKey k = true ↔ (∀ s, a.lower = some s → s ≤ k) ∧ (∀ e, a.upper = some e → k < e) := by
  cases hlower : a.lower <;> cases hupper : a.upper <;> simp [containsKey, hlower, hupper]

/-- Two intervals do not overlap exactly when the greater of their lower ends is
not below the lesser of their upper ends. -/
theorem overlaps_eq_false : a.overlaps b = false ↔
    ∃ s e, (a.intersect b).lower = some s ∧ (a.intersect b).upper = some e ∧ e ≤ s := by
  rw [overlaps, isEmpty, isValid]
  cases hlower : (a.intersect b).lower <;> cases hupper : (a.intersect b).upper <;>
    simp

theorem intersect_comm (a b : Interval) : a.intersect b = b.intersect a := by
  have hlowers := compareLowers_swap a.lower b.lower
  have huppers := compareUppers_swap a.upper b.upper
  have hlower : (a.intersect b).lower = (b.intersect a).lower := by
    simp only [intersect, hlowers]
    cases hcmp : compareLowers b.lower a.lower with
    | lt | gt => simp
    | eq => simp [compareLowers_eq_eq.mp hcmp]
  have hupper : (a.intersect b).upper = (b.intersect a).upper := by
    simp only [intersect, huppers]
    cases hcmp : compareUppers b.upper a.upper with
    | lt | gt => simp
    | eq => simp [compareUppers_eq_eq.mp hcmp]
  calc a.intersect b = ⟨(a.intersect b).lower, (a.intersect b).upper⟩ := rfl
    _ = b.intersect a := by rw [hlower, hupper]

theorem overlaps_comm (a b : Interval) : a.overlaps b = b.overlaps a := by
  rw [overlaps, overlaps, intersect_comm]

theorem le_intersect_lower (hs : b.lower = some s) :
    ∃ s', (a.intersect b).lower = some s' ∧ s ≤ s' := by
  simp only [intersect]
  split
  next => exact ⟨s, hs, List.le_refl s⟩
  next hge =>
    cases hlower : a.lower with
    | none => simp [hlower, hs, compareLowers] at hge
    | some s' =>
        rw [hlower, hs, compareLowers, Key.order_eq_lt] at hge
        exact ⟨s', rfl, Std.not_lt.mp hge⟩

theorem intersect_upper_le (he : a.upper = some e) :
    ∃ e', (a.intersect b).upper = some e' ∧ e' ≤ e := by
  simp only [intersect]
  split
  next hgt =>
    cases hupper : b.upper with
    | none => simp [hupper, he, compareUppers] at hgt
    | some e' =>
        rw [hupper, he, compareUppers, Key.order_eq_gt] at hgt
        exact ⟨e', rfl, Std.le_of_lt hgt⟩
  next => exact ⟨e, he, List.le_refl e⟩

theorem leftOf_of_apart (hb : b.isValid = true) (hstart : compareLowers a.lower b.lower ≠ .gt)
    (hapart : a.overlaps b = false) : a.LeftOf b := by
  obtain ⟨s, e, hs, he, hle⟩ := overlaps_eq_false.mp hapart
  have hlower : b.lower = some s := by
    simp only [intersect] at hs
    split at hs
    next => exact hs
    next hge =>
      have hsame : compareLowers a.lower b.lower = .eq := by
        cases hcmp : compareLowers a.lower b.lower <;> simp_all
      rw [← compareLowers_eq_eq.mp hsame]
      exact hs
  simp only [intersect] at he
  split at he
  next =>
    have hroom := lower_lt_upper hb hlower he
    exact absurd hle (Std.not_le.mpr hroom)
  next => exact ⟨e, s, he, hlower, hle⟩

/-- Intervals that begin at the same end share what lies right behind it. -/
theorem overlaps_of_lower_eq (ha : a.isValid = true) (hb : b.isValid = true)
    (hlower : a.lower = b.lower) : a.overlaps b = true := by
  cases hapart : a.overlaps b with
  | true => rfl
  | false =>
      have hsame : compareLowers a.lower b.lower = .eq := compareLowers_eq_eq.mpr hlower
      obtain ⟨e, s, he, hs, hle⟩ := leftOf_of_apart hb (by simp [hsame]) hapart
      have hroom := lower_lt_upper ha (hlower.trans hs) he
      exact absurd hle (Std.not_le.mpr hroom)

/-- Intervals that do not overlap stand one left of the other. -/
theorem leftOf_or_leftOf (ha : a.isValid = true) (hb : b.isValid = true)
    (hapart : a.overlaps b = false) : a.LeftOf b ∨ b.LeftOf a := by
  by_cases hstart : compareLowers a.lower b.lower = .gt
  · rw [overlaps_comm] at hapart
    refine .inr (leftOf_of_apart ha ?_ hapart)
    rw [compareLowers_swap, hstart]
    simp
  · exact .inl (leftOf_of_apart hb hstart hapart)

/-- A common part that begins no earlier than `s` and ends no later than `e` has
no room. -/
theorem overlaps_of_ends (hs : ∃ s', (a.intersect b).lower = some s' ∧ s ≤ s')
    (he : ∃ e', (a.intersect b).upper = some e' ∧ e' ≤ e) (hle : e ≤ s) :
    a.overlaps b = false := by
  obtain ⟨s', hs', hbehind⟩ := hs
  obtain ⟨e', he', hbefore⟩ := he
  have hempty : e' ≤ s' :=
    calc e' ≤ e := hbefore
      _ ≤ s := hle
      _ ≤ s' := hbehind
  exact overlaps_eq_false.mpr ⟨s', e', hs', he', hempty⟩

/-- Nothing overlaps an interval without room. -/
theorem overlaps_of_isEmpty (hb : b.isEmpty = true) : a.overlaps b = false := by
  have hinverted : ∃ s e, b.lower = some s ∧ b.upper = some e ∧ e ≤ s := by
    rw [isEmpty, isValid] at hb
    cases hlower : b.lower <;> cases hupper : b.upper <;> simp_all
  obtain ⟨s, e, hs, he, hle⟩ := hinverted
  have hbefore := intersect_upper_le (b := a) he
  rw [intersect_comm] at hbefore
  exact overlaps_of_ends (le_intersect_lower hs) hbefore hle

theorem lowers_le_of_order_lt (h : a.order b = .lt) :
    compareLowers a.lower b.lower ≠ .gt := by
  rcases order_eq_lt.mp h with hlt | ⟨hsame, _⟩
  · simp [hlt]
  · simp [compareLowers_eq_eq.mpr hsame]

theorem contains_iff : a.contains b = true ↔
    (∀ s, a.lower = some s → ∃ s', b.lower = some s' ∧ s ≤ s') ∧
    (∀ e, a.upper = some e → ∃ e', b.upper = some e' ∧ e' ≤ e) := by
  have hlower : compareLowers a.lower b.lower ≠ .gt ↔
      ∀ s, a.lower = some s → ∃ s', b.lower = some s' ∧ s ≤ s' := by
    cases a.lower <;> cases b.lower <;> simp [compareLowers, Key.order_eq_gt]
  have hupper : compareUppers b.upper a.upper ≠ .gt ↔
      ∀ e, a.upper = some e → ∃ e', b.upper = some e' ∧ e' ≤ e := by
    cases a.upper <;> cases b.upper <;> simp [compareUppers, Key.order_eq_gt]
  rw [← hlower, ← hupper]
  simp [contains]

theorem valid_of_contains (hb : b.isValid = true) (h : a.contains b = true) :
    a.isValid = true := by
  obtain ⟨hlower, hupper⟩ := contains_iff.mp h
  cases hs : a.lower with
  | none => simp [isValid, hs]
  | some s =>
      cases he : a.upper with
      | none => simp [isValid, hs, he]
      | some e =>
          obtain ⟨s', hs', hle⟩ := hlower s hs
          obtain ⟨e', he', hge⟩ := hupper e he
          have hroom := lower_lt_upper hb hs' he'
          simp only [isValid, hs, he, decide_eq_true_eq]
          exact Std.lt_of_lt_of_le (Std.lt_of_le_of_lt hle hroom) hge

namespace LeftOf

theorem apart (h : a.LeftOf b) : a.overlaps b = false := by
  obtain ⟨e, s, he, hs, hle⟩ := h
  exact overlaps_of_ends (le_intersect_lower hs) (intersect_upper_le he) hle

theorem trans (hb : b.isValid = true) (hab : a.LeftOf b) (hbc : b.LeftOf c) : a.LeftOf c := by
  obtain ⟨e, s, he, hs, hle⟩ := hab
  obtain ⟨e', s', he', hs', hle'⟩ := hbc
  have hroom := lower_lt_upper hb hs he'
  have hchain : e ≤ s' :=
    calc e ≤ s := hle
      _ ≤ e' := Std.le_of_lt hroom
      _ ≤ s' := hle'
  exact ⟨e, s', he, hs', hchain⟩

theorem not_both (h : a.LeftOf b) (ha : a.containsKey k = true) : ¬b.containsKey k = true := by
  obtain ⟨e, s, he, hs, hle⟩ := h
  intro hb
  have hbefore : k < e := (containsKey_iff.mp ha).2 e he
  have hbehind : s ≤ k := (containsKey_iff.mp hb).1 s hs
  exact Std.not_le.mpr hbefore (Std.le_trans hle hbehind)

theorem lowers_lt (ha : a.isValid = true) (h : a.LeftOf b) :
    compareLowers a.lower b.lower = .lt := by
  obtain ⟨e, s, he, hs, hle⟩ := h
  cases hlower : a.lower with
  | none => rw [hs]; rfl
  | some s' =>
      have hroom := lower_lt_upper ha hlower he
      rw [hs, compareLowers, Key.order_eq_lt]
      exact Std.lt_of_lt_of_le hroom hle

theorem order_lt (ha : a.isValid = true) (h : a.LeftOf b) : a.order b = .lt :=
  order_eq_lt.mpr (.inl (h.lowers_lt ha))

end LeftOf

end RangeKeeper.Interval
