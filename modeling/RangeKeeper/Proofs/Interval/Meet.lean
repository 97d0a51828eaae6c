import RangeKeeper.Proofs.Interval.Apart

/-!
The algebra of intersection. Containment orders the intervals, with the interval
of every key at the top, and the common part of two is the largest interval that
both contain. An interval is known by those that it contains, so every law of
intersection is a law about which intervals are contained. All of this is about
the ends as they are written, and holds of inverted intervals as of any other.
-/

namespace RangeKeeper.Interval

variable {a b c : Interval} {k : Key}

theorem intersect_lower_eq (a b : Interval) :
    (a.intersect b).lower = a.lower ∨ (a.intersect b).lower = b.lower := by
  simp only [intersect]
  split
  · exact .inr rfl
  · exact .inl rfl

theorem intersect_upper_eq (a b : Interval) :
    (a.intersect b).upper = a.upper ∨ (a.intersect b).upper = b.upper := by
  simp only [intersect]
  split
  · exact .inr rfl
  · exact .inl rfl

/-- What holds of every key below a key of which it holds is true of the lower
end of a common part, if that has one, exactly when it is true of both lower
ends. -/
theorem forall_intersect_lower {P : Key → Prop} (hP : ∀ s t, s ≤ t → P t → P s) :
    (∀ s, (a.intersect b).lower = some s → P s) ↔
      (∀ s, a.lower = some s → P s) ∧ ∀ s, b.lower = some s → P s := by
  constructor
  · intro h
    constructor
    · intro s hs
      obtain ⟨s', hs', hle⟩ := le_intersect_lower (a := b) hs
      rw [intersect_comm] at hs'
      exact hP s s' hle (h s' hs')
    · intro s hs
      obtain ⟨s', hs', hle⟩ := le_intersect_lower (a := a) hs
      exact hP s s' hle (h s' hs')
  · intro ⟨ha, hb⟩ s hs
    rcases intersect_lower_eq a b with heq | heq
    · exact ha s (heq ▸ hs)
    · exact hb s (heq ▸ hs)

theorem forall_intersect_upper {P : Key → Prop} (hP : ∀ e t, t ≤ e → P t → P e) :
    (∀ e, (a.intersect b).upper = some e → P e) ↔
      (∀ e, a.upper = some e → P e) ∧ ∀ e, b.upper = some e → P e := by
  constructor
  · intro h
    constructor
    · intro e he
      obtain ⟨e', he', hle⟩ := intersect_upper_le (b := b) he
      exact hP e e' hle (h e' he')
    · intro e he
      obtain ⟨e', he', hle⟩ := intersect_upper_le (b := a) he
      rw [intersect_comm] at he'
      exact hP e e' hle (h e' he')
  · intro ⟨ha, hb⟩ e he
    rcases intersect_upper_eq a b with heq | heq
    · exact ha e (heq ▸ he)
    · exact hb e (heq ▸ he)

theorem containsKey_intersect : (a.intersect b).containsKey k = true ↔
    a.containsKey k = true ∧ b.containsKey k = true := by
  have hlower := forall_intersect_lower (a := a) (b := b) (P := (· ≤ k)) fun _ _ => Std.le_trans
  have hupper := forall_intersect_upper (a := a) (b := b) (P := (k < ·))
    fun _ _ hle hlt => Std.lt_of_lt_of_le hlt hle
  simp only [containsKey_iff, hlower, hupper]
  exact and_and_and_comm

/-- The common part contains what both contain, and nothing else. -/
theorem intersect_contains : (a.intersect b).contains c = true ↔
    a.contains c = true ∧ b.contains c = true := by
  have hlower := forall_intersect_lower (a := a) (b := b)
    (P := fun s => ∃ s', c.lower = some s' ∧ s ≤ s')
    fun _ _ hle ⟨s', hs', hbehind⟩ => ⟨s', hs', Std.le_trans hle hbehind⟩
  have hupper := forall_intersect_upper (a := a) (b := b)
    (P := fun e => ∃ e', c.upper = some e' ∧ e' ≤ e)
    fun _ _ hle ⟨e', he', hbefore⟩ => ⟨e', he', Std.le_trans hbefore hle⟩
  simp only [contains_iff, hlower, hupper]
  exact and_and_and_comm

theorem contains_self (a : Interval) : a.contains a = true :=
  contains_iff.mpr ⟨fun s hs => ⟨s, hs, List.le_refl s⟩, fun e he => ⟨e, he, List.le_refl e⟩⟩

theorem contains_trans (hab : a.contains b = true) (hbc : b.contains c = true) :
    a.contains c = true := by
  rw [contains_iff] at *
  constructor
  · intro s hs
    obtain ⟨s', hs', hle⟩ := hab.1 s hs
    obtain ⟨s'', hs'', hle'⟩ := hbc.1 s' hs'
    exact ⟨s'', hs'', Std.le_trans hle hle'⟩
  · intro e he
    obtain ⟨e', he', hle⟩ := hab.2 e he
    obtain ⟨e'', he'', hle'⟩ := hbc.2 e' he'
    exact ⟨e'', he'', Std.le_trans hle' hle⟩

theorem full_contains (a : Interval) : full.contains a = true :=
  contains_iff.mpr ⟨by simp [full], by simp [full]⟩

/-- Intervals that contain each other have the same ends. -/
theorem eq_of_contains (hab : a.contains b = true) (hba : b.contains a = true) : a = b := by
  simp only [contains, Bool.and_eq_true, bne_iff_ne] at hab hba
  have hlower : a.lower = b.lower := by
    have hle := hab.1
    rw [compareLowers_swap] at hle
    cases hcmp : compareLowers b.lower a.lower with
    | lt => simp [hcmp] at hle
    | eq => exact (compareLowers_eq_eq.mp hcmp).symm
    | gt => exact absurd hcmp hba.1
  have hupper : a.upper = b.upper := by
    have hle := hba.2
    rw [compareUppers_swap] at hle
    cases hcmp : compareUppers b.upper a.upper with
    | lt => simp [hcmp] at hle
    | eq => exact (compareUppers_eq_eq.mp hcmp).symm
    | gt => exact absurd hcmp hab.2
  cases a
  cases b
  simp_all

/-- An interval is known by those that it contains. -/
theorem eq_of_same_contents (h : ∀ c : Interval, a.contains c = true ↔ b.contains c = true) :
    a = b :=
  eq_of_contains ((h b).mpr b.contains_self) ((h a).mp a.contains_self)

theorem intersect_assoc (a b c : Interval) :
    (a.intersect b).intersect c = a.intersect (b.intersect c) := by
  apply eq_of_same_contents
  intro d
  simp only [intersect_contains]
  exact and_assoc

theorem intersect_self (a : Interval) : a.intersect a = a := by
  apply eq_of_same_contents
  intro d
  simp only [intersect_contains, and_self]

theorem intersect_full (a : Interval) : a.intersect full = a := by
  apply eq_of_same_contents
  intro d
  simp only [intersect_contains, d.full_contains, and_true]

/-- An interval contains another exactly when the other is their common part. -/
theorem contains_iff_intersect_eq : a.contains b = true ↔ a.intersect b = b := by
  constructor
  · intro hab
    apply eq_of_same_contents
    intro d
    rw [intersect_contains]
    exact ⟨And.right, fun hbd => ⟨contains_trans hab hbd, hbd⟩⟩
  · intro heq
    have hself : (a.intersect b).contains b = true := by
      rw [heq]
      exact b.contains_self
    exact (intersect_contains.mp hself).1

/-- What either of two intervals leaves no room in, their common part leaves no
room in. -/
theorem isEmpty_intersect (h : a.isEmpty = true ∨ b.isEmpty = true) :
    (a.intersect b).isEmpty = true := by
  have hright : ∀ a b : Interval, b.isEmpty = true → (a.intersect b).isEmpty = true := by
    intro a b hb
    have hapart : a.overlaps b = false := overlaps_of_isEmpty hb
    simpa [overlaps] using hapart
  rcases h with ha | hb
  · rw [intersect_comm]
    exact hright b a ha
  · exact hright a b hb

/-- Interval algebra. The common part holds the keys that both intervals hold.
Taking it is commutative, associative and idempotent, with the interval of every
key as identity, and it says what containment is. It leaves no room where either
interval leaves none, so overlapping is symmetric and never the case of an empty
interval. -/
theorem intersect_is_meet (a b c : Interval) (k : Key) :
    ((a.intersect b).containsKey k = true ↔ a.containsKey k = true ∧ b.containsKey k = true) ∧
    a.intersect b = b.intersect a ∧
    (a.intersect b).intersect c = a.intersect (b.intersect c) ∧
    a.intersect a = a ∧
    (a.intersect full = a ∧ full.intersect a = a) ∧
    (a.contains b = true ↔ a.intersect b = b) ∧
    (a.isEmpty = true ∨ b.isEmpty = true → (a.intersect b).isEmpty = true) ∧
    a.overlaps b = b.overlaps a ∧
    (a.isEmpty = true ∨ b.isEmpty = true → a.overlaps b = false) := by
  refine ⟨containsKey_intersect, intersect_comm a b, intersect_assoc a b c, intersect_self a,
    ⟨intersect_full a, ?_⟩, contains_iff_intersect_eq, isEmpty_intersect, overlaps_comm a b, ?_⟩
  · rw [intersect_comm]
    exact intersect_full a
  · intro hempty
    simp [overlaps, isEmpty_intersect hempty]

end RangeKeeper.Interval
