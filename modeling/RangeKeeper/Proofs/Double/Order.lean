import RangeKeeper.Double

/-!
The order of the numbers. A comparison holds when neither side is a NaN and the
ranks stand so, which says of two numbers that one is at most the other or above
it. Of a NaN neither holds, so a comparison that fails says that its opposite
holds of numbers only.
-/

namespace RangeKeeper.Double

variable {x y z : Double}

theorem order?_eq_some {o : Ordering} : x.order? y = some o ↔
    x.isNaN = false ∧ y.isNaN = false ∧ compare x.rank y.rank = o := by
  cases hx : x.isNaN <;> cases hy : y.isNaN <;> simp [order?, hx, hy]

theorem lt_iff : x.lt y = true ↔ x.isNaN = false ∧ y.isNaN = false ∧ x.rank < y.rank := by
  rw [lt, beq_iff_eq, order?_eq_some, Std.compare_eq_lt]

theorem le_iff : x.le y = true ↔ x.isNaN = false ∧ y.isNaN = false ∧ x.rank ≤ y.rank := by
  rw [le, Bool.or_eq_true, beq_iff_eq, beq_iff_eq, order?_eq_some, order?_eq_some,
    Std.compare_eq_lt, Std.LawfulEqOrd.compare_eq_iff_eq]
  grind

/-- Of two numbers one is at most the other or above it. -/
theorem not_le_iff (hx : x.isNaN = false) (hy : y.isNaN = false) :
    x.le y = false ↔ y.lt x = true := by
  rw [← Bool.not_eq_true, le_iff, lt_iff]
  simp only [hx, hy, true_and]
  omega

/-- What is not at most another is above it unless one of them is a NaN. -/
theorem lt_of_not_le_iff (h : x.le y = false) :
    y.lt x = true ↔ x.isNaN = false ∧ y.isNaN = false := by
  constructor
  · intro hlt
    obtain ⟨hy, hx, -⟩ := lt_iff.mp hlt
    exact ⟨hx, hy⟩
  · rintro ⟨hx, hy⟩
    exact (not_le_iff hx hy).mp h

theorem not_lt_iff (hx : x.isNaN = false) (hy : y.isNaN = false) :
    x.lt y = false ↔ y.rank ≤ x.rank := by
  rw [← Bool.not_eq_true, lt_iff]
  simp only [hx, hy, true_and]
  omega

theorem lt_of_lt_of_not_lt (hz : z.isNaN = false) (hxy : x.lt y = true) (hzy : z.lt y = false) :
    x.lt z = true := by
  obtain ⟨hx, hy, hrank⟩ := lt_iff.mp hxy
  have hle := (not_lt_iff hz hy).mp hzy
  exact lt_iff.mpr ⟨hx, hz, by omega⟩

theorem lt_of_not_lt_of_lt (hz : z.isNaN = false) (hxz : x.lt z = false) (hxy : x.lt y = true) :
    z.lt y = true := by
  obtain ⟨hx, hy, hrank⟩ := lt_iff.mp hxy
  have hle := (not_lt_iff hx hz).mp hxz
  exact lt_iff.mpr ⟨hz, hy, by omega⟩

theorem lt_trans (hxy : x.lt y = true) (hyz : y.lt z = true) : x.lt z = true := by
  obtain ⟨hx, -, hrank⟩ := lt_iff.mp hxy
  obtain ⟨-, hz, hrank'⟩ := lt_iff.mp hyz
  exact lt_iff.mpr ⟨hx, hz, by omega⟩

/-- A NaN is below nothing and nothing is below a NaN. -/
theorem not_lt_of_isNaN (h : x.isNaN = true ∨ y.isNaN = true) : x.lt y = false := by
  rw [Bool.eq_false_iff]
  intro hlt
  obtain ⟨hx, hy, -⟩ := lt_iff.mp hlt
  simp [hx, hy] at h

theorem order?_swap (x y : Double) : y.order? x = (x.order? y).map Ordering.swap := by
  cases hx : x.isNaN <;> cases hy : y.isNaN <;> simp [order?, hx, hy]
  exact Std.OrientedCmp.eq_swap

end RangeKeeper.Double
