import RangeKeeper.Proofs.Interval.Apart

/-!
Cutting an interval in two. A key strictly inside can serve as the border: the
left part keeps the lower end, the right part begins with the key, and nothing
of the interval is lost or doubled. A cut that is made parts the keys of the
interval, with one exception: where the interval begins before every key the
empty key is taken for a border and leaves no key on the left, as it is the
least.
-/

namespace RangeKeeper.Interval

variable {b : Interval} {k : Key}

def HoldsInside (b : Interval) (k : Key) : Prop :=
  (∀ s, b.lower = some s → s < k) ∧ ∀ e, b.upper = some e → k < e

/-- Some keys of the interval stand below the key, and some at it or above. -/
def PartsKeys (b : Interval) (k : Key) : Prop :=
  (∃ x, b.containsKey x = true ∧ x < k) ∧ ∃ x, b.containsKey x = true ∧ k ≤ x

/-- The left part holds the keys of the whole below `k`, the right part the
others, and neither holds any other key. -/
structure CutAt (whole : Interval) (k : Key) (left right : Interval) : Prop where
  left_iff : ∀ x, left.containsKey x = true ↔ whole.containsKey x = true ∧ x < k
  right_iff : ∀ x, right.containsKey x = true ↔ whole.containsKey x = true ∧ k ≤ x

/-- Two parts that each hold a key, hold none in common and together hold the
keys of the whole. -/
structure Halves (whole left right : Interval) : Prop where
  left_roomy : ∃ k, left.containsKey k = true
  right_roomy : ∃ k, right.containsKey k = true
  apart : ∀ k, ¬(left.containsKey k = true ∧ right.containsKey k = true)
  together : ∀ k, whole.containsKey k = true ↔
    left.containsKey k = true ∨ right.containsKey k = true

theorem isSplittable_iff : b.isSplittable k = true ↔ b.HoldsInside k := by
  have hlower : (b.lower.all fun s => decide (s < k)) = true ↔ ∀ s, b.lower = some s → s < k := by
    cases b.lower <;> simp
  rw [isSplittable, Bool.and_eq_true, hlower, containsKey_iff]
  constructor
  · intro h
    exact ⟨h.1, h.2.2⟩
  · intro h
    exact ⟨h.1, fun s hs => Std.le_of_lt (h.1 s hs), h.2⟩

theorem nil_lt (hk : k ≠ []) : [] < k := by
  cases k with
  | nil => exact absurd rfl hk
  | cons byte rest => exact List.nil_lt_cons byte rest

theorem cutAt_of_inside (h : b.HoldsInside k) :
    CutAt b k ⟨b.lower, some k⟩ ⟨some k, b.upper⟩ where
  left_iff := by
    intro x
    simp only [containsKey_iff, Option.some.injEq, forall_eq']
    constructor
    · intro ⟨hlower, hbelow⟩
      exact ⟨⟨hlower, fun e he => List.lt_trans hbelow (h.2 e he)⟩, hbelow⟩
    · intro ⟨⟨hlower, _⟩, hbelow⟩
      exact ⟨hlower, hbelow⟩
  right_iff := by
    intro x
    simp only [containsKey_iff, Option.some.injEq, forall_eq']
    constructor
    · intro ⟨habove, hupper⟩
      exact ⟨⟨fun s hs => Std.le_trans (Std.le_of_lt (h.1 s hs)) habove, hupper⟩, habove⟩
    · intro ⟨⟨_, hupper⟩, habove⟩
      exact ⟨habove, hupper⟩

/-- The key with which the interval begins stands below, or the least of all
keys does. -/
theorem below_of_inside (hk : k ≠ []) (h : b.HoldsInside k) :
    ∃ x, b.containsKey x = true ∧ x < k := by
  have hroom : ∃ x, (Interval.mk b.lower (some k)).containsKey x = true := by
    cases hlower : b.lower with
    | none => exact ⟨[], by simp [containsKey, nil_lt hk]⟩
    | some s => exact ⟨s, by simp [containsKey, h.1 s hlower]⟩
  obtain ⟨x, hx⟩ := hroom
  exact ⟨x, ((cutAt_of_inside h).left_iff x).mp hx⟩

theorem containsKey_of_inside (h : b.HoldsInside k) : b.containsKey k = true :=
  containsKey_iff.mpr ⟨fun s hs => Std.le_of_lt (h.1 s hs), h.2⟩

/-- A key with keys of the interval on both sides stands strictly inside. -/
theorem PartsKeys.inside (h : b.PartsKeys k) : b.HoldsInside k := by
  obtain ⟨⟨x, hx, hbelow⟩, y, hy, habove⟩ := h
  constructor
  · intro s hs
    exact Std.lt_of_le_of_lt ((containsKey_iff.mp hx).1 s hs) hbelow
  · intro e he
    exact Std.lt_of_le_of_lt habove ((containsKey_iff.mp hy).2 e he)

/-- No key stands below the least of all. -/
theorem PartsKeys.ne_nil (h : b.PartsKeys k) : k ≠ [] := by
  obtain ⟨⟨x, _, hbelow⟩, _⟩ := h
  rintro rfl
  exact List.not_lt_nil x hbelow

theorem halves_at (hk : k ≠ []) (h : b.HoldsInside k) :
    Halves b ⟨b.lower, some k⟩ ⟨some k, b.upper⟩ where
  left_roomy := by
    obtain ⟨x, hx⟩ := below_of_inside hk h
    exact ⟨x, ((cutAt_of_inside h).left_iff x).mpr hx⟩
  right_roomy :=
    ⟨k, ((cutAt_of_inside h).right_iff k).mpr ⟨containsKey_of_inside h, List.le_refl k⟩⟩
  apart := by
    intro x ⟨hleft, hright⟩
    have hbelow := (((cutAt_of_inside h).left_iff x).mp hleft).2
    have habove := (((cutAt_of_inside h).right_iff x).mp hright).2
    exact Std.not_lt.mpr habove hbelow
  together := by
    intro x
    rw [(cutAt_of_inside h).left_iff, (cutAt_of_inside h).right_iff, ← and_or_left]
    have htotal : x < k ∨ k ≤ x := by
      by_cases hbelow : x < k
      · exact .inl hbelow
      · exact .inr (Std.not_lt.mp hbelow)
    simp [htotal]

/-- A non-empty key strictly inside cuts the interval into two halves. -/
theorem splitAt_halves (hk : k ≠ []) (h : b.HoldsInside k) :
    ∃ left right, b.splitAt k = some (left, right) ∧ Halves b left right :=
  ⟨_, _, if_pos (isSplittable_iff.mpr h), halves_at hk h⟩

/-- A key that stands strictly inside parts the keys, unless nothing stands
below it. -/
theorem inside_iff : b.HoldsInside k ↔
    b.PartsKeys k ∨ b.lower = none ∧ k = [] ∧ b.containsKey [] = true := by
  constructor
  · intro h
    by_cases hk : k = []
    · subst hk
      refine .inr ⟨?_, rfl, containsKey_of_inside h⟩
      cases hlower : b.lower with
      | none => rfl
      | some s => exact absurd (h.1 s hlower) (List.not_lt_nil s)
    · exact .inl ⟨below_of_inside hk h, k, containsKey_of_inside h, List.le_refl k⟩
  · rintro (hparts | ⟨hlower, rfl, hinside⟩)
    · exact hparts.inside
    · exact ⟨by simp [hlower], (containsKey_iff.mp hinside).2⟩

theorem cutAt_of_splitAt {left right : Interval} (h : b.splitAt k = some (left, right)) :
    CutAt b k left right := by
  unfold splitAt at h
  split at h
  next hcut =>
    cases h
    exact cutAt_of_inside (isSplittable_iff.mp hcut)
  next => cases h

/-- A cut is made exactly at a key with keys of the interval below it and at it
or above, and besides at the empty key, which has none below it, where the
interval begins before every key and holds it. Wherever a cut is made, the left
part holds the keys of the interval below the key and the right part the
others. -/
theorem cut_parts_keys (b : Interval) (k : Key) :
    (b.isSplittable k = true ↔
      b.PartsKeys k ∨ b.lower = none ∧ k = [] ∧ b.containsKey [] = true) ∧
    (b.PartsKeys k → k ≠ []) ∧
    ((∃ left right, b.splitAt k = some (left, right)) ↔ b.isSplittable k = true) ∧
    ∀ left right, b.splitAt k = some (left, right) → CutAt b k left right := by
  refine ⟨isSplittable_iff.trans inside_iff, PartsKeys.ne_nil, ?_, fun _ _ => cutAt_of_splitAt⟩
  unfold splitAt
  split
  next hcut => simp [hcut]
  next hcut => simp [hcut]

/-- The interval of every key is cut at the least of all keys, with no key below
it. -/
theorem least_key_parts_nothing :
    ¬∀ (b : Interval) (k : Key), b.isSplittable k = true ↔ b.PartsKeys k := by
  intro hclaim
  have hparts : full.PartsKeys [] := (hclaim full []).mp rfl
  exact hparts.ne_nil rfl

end RangeKeeper.Interval
