import RangeKeeper.Proofs.Routing.Lookup

/-!
Lookup by interval. The search takes the entries between two limits, both read
off the order alone: from the last entry filed at or before the lower end, which
counts only if it reaches past that end, up to the upper end. In a table that
stands apart these are the entries that overlap the interval. Whatever the table
holds, the lower limit is below the upper one, so a map can always be asked for
what lies between.
-/

namespace RangeKeeper

open RangeKeeper.Interval

namespace SortedMap.Limit

variable {κ : Type} [Ord κ]

def key? : Limit κ → Option κ
  | .unlimited => none
  | .included k => some k
  | .excluded k => some k

/-- What a map demands of the limits of a query: the low one is not above the
high one, and where both name one key they do not both exclude it. -/
structure InOrder (low high : Limit κ) : Prop where
  not_above : ∀ a b, low.key? = some a → high.key? = some b → (compare a b).isLE = true
  not_shut : ∀ a, low = .excluded a → high ≠ .excluded a

theorem InOrder.of_lt [Std.TransOrd κ] {low high : Limit κ}
    (h : ∀ a b, low.key? = some a → high.key? = some b → compare a b = .lt) :
    low.InOrder high where
  not_above a b ha hb := by
    rw [h a b ha hb]
    rfl
  not_shut := by
    rintro a rfl rfl
    have hself : compare a a = .eq := Std.ReflCmp.compare_self
    rw [h a a rfl rfl] at hself
    cases hself

end SortedMap.Limit

variable {a b q : Interval} {s e : Key}

/-- Of intervals with room, those that overlap are those of which neither is
left of the other. -/
theorem overlaps_iff (ha : a.isValid = true) (hb : b.isValid = true) :
    a.overlaps b = true ↔ ¬a.LeftOf b ∧ ¬b.LeftOf a := by
  constructor
  · intro hover
    refine ⟨fun hleft => ?_, fun hleft => ?_⟩
    · simp [hleft.apart] at hover
    · rw [overlaps_comm] at hover
      simp [hleft.apart] at hover
  · rintro ⟨hright, hleft⟩
    by_contra hapart
    rcases leftOf_or_leftOf ha hb (by simpa using hapart) with h | h
    · exact hright h
    · exact hleft h

/-- An interval is filed before the empty one at `e` when it begins before
`e`. -/
theorem filed_before_end (ha : a.isValid = true) :
    compare a ⟨some e, some e⟩ = .lt ↔ ∀ s, a.lower = some s → s < e := by
  rw [compare_def, order_eq_lt]
  cases hlower : a.lower with
  | none => simp [compareLowers]
  | some s =>
      simp only [compareLowers, Key.order_eq_lt, Option.some.injEq, forall_eq', or_iff_left_iff_imp]
      rintro ⟨rfl, hupper⟩
      -- It would begin and end at `e` or before it.
      cases hend : a.upper with
      | none => simp [hend, compareUppers] at hupper
      | some t =>
          rw [hend, compareUppers, Key.order_eq_lt] at hupper
          exact absurd (lower_lt_upper ha hlower hend) (Std.not_lt.mpr (Std.le_of_lt hupper))

/-- What is filed at or before the empty interval at `s` begins at `s` or before
it. -/
theorem lower_le_of_filed (h : (compare a ⟨some s, some s⟩).isLE = true) :
    ∀ t, a.lower = some t → t ≤ s := by
  have hprobe : compare (⟨some s, some s⟩ : Interval) ⟨some s, none⟩ = .lt := by
    rw [compare_def, order_eq_lt]
    exact .inr ⟨rfl, rfl⟩
  exact filed_before_probe.mp (Std.TransCmp.isLE_trans h (by rw [hprobe]; rfl))

/-- What is filed behind the empty interval at `s` ends behind `s`. -/
theorem not_leftOf_of_filed_behind (ha : a.isValid = true)
    (hfiled : compare a ⟨some s, some s⟩ = .gt) (hs : q.lower = some s) : ¬a.LeftOf q := by
  rintro ⟨e, s', he, hs', hle⟩
  obtain rfl : s' = s := Option.some.inj (hs'.symm.trans hs)
  have hbefore : compare a ⟨some s', some s'⟩ = .lt := by
    refine (filed_before_end ha).mpr fun t ht => ?_
    exact Std.lt_of_lt_of_le (lower_lt_upper ha ht he) hle
  rw [hbefore] at hfiled
  cases hfiled

namespace RoutingTable

variable {table : RoutingTable}

/-- The upper limit admits what is not right of the interval asked for. -/
theorem upperLimit_admits (ha : a.isValid = true) :
    (upperLimit q).admitsBelow a = true ↔ ¬q.LeftOf a := by
  cases hupper : q.upper with
  | none => simp [upperLimit, hupper, SortedMap.Limit.admitsBelow, LeftOf]
  | some e =>
      simp only [upperLimit, hupper, SortedMap.Limit.admitsBelow, beq_iff_eq, filed_before_end ha]
      constructor
      · rintro hbegins ⟨e', s, he', hs, hle⟩
        obtain rfl : e' = e := Option.some.inj (he'.symm.trans hupper)
        exact Std.not_le.mpr (hbegins s hs) hle
      · intro hright s hs
        by_contra hge
        exact hright ⟨e, s, hupper, hs, Std.not_lt.mp hge⟩

namespace StandsApart

/-- An entry filed before another is left of it. -/
theorem leftOf_of_filed (h : table.StandsApart) {x y : Interval × Owner} (hx : x ∈ table.entries)
    (hy : y ∈ table.entries) (hxy : compare x.1 y.1 = .lt) : x.1.LeftOf y.1 := by
  have hleft := List.pairwise_map.mp h.leftOf
  have hself : ∀ x ∈ table.entries, compare x.1 x.1 = .lt → x.1.LeftOf x.1 := by
    intro x _ hlt
    rw [compare_def, order_eq_eq.mpr rfl] at hlt
    cases hlt
  have hforth : table.entries.Pairwise fun x y => compare x.1 y.1 = .lt → x.1.LeftOf y.1 := by
    refine hleft.imp ?_
    intro x y hxy _
    exact hxy
  have hback : table.entries.Pairwise fun x y => compare y.1 x.1 = .lt → y.1.LeftOf x.1 := by
    refine table.ascending.imp fun hlt hgt => ?_
    rw [Std.OrientedCmp.gt_of_lt hlt] at hgt
    cases hgt
  exact hforth.forall_of_forall_of_flip hself hback hx hy hxy

end StandsApart

/-- The lower limit admits what is filed behind the floor of the lower end, and
the floor itself if it reaches past that end. -/
theorem lowerLimit_of_floor (hs : q.lower = some s) {f : Interval × Owner}
    (hfloor : table.floor? ⟨some s, some s⟩ = some f) :
    (table.lowerLimit q).admitsAbove a = true ↔
      compare f.1 a = .lt ∨ f.1 = a ∧ compareUppers f.1.upper (some s) = .gt := by
  simp only [lowerLimit, hs, hfloor]
  split
  next hreaches =>
    rw [SortedMap.Limit.admitsAbove, Ordering.isLE_iff_eq_lt_or_eq_eq, compare_def, order_eq_eq]
    simp [hreaches]
  next hshort => simp [SortedMap.Limit.admitsAbove, hshort]

theorem upper_le_of_not_past (h : compareUppers a.upper (some s) ≠ .gt) :
    ∃ e, a.upper = some e ∧ e ≤ s := by
  cases hupper : a.upper with
  | none => simp [hupper, compareUppers] at h
  | some e =>
      rw [hupper, compareUppers, ne_eq, Key.order_eq_gt] at h
      exact ⟨e, rfl, Std.not_lt.mp h⟩

/-- The lower limit admits the entries that are not left of the interval asked
for. -/
theorem lowerLimit_admits (h : table.StandsApart) (q : Interval) {x : Interval × Owner}
    (hx : x ∈ table.entries) :
    (table.lowerLimit q).admitsAbove x.1 = true ↔ ¬x.1.LeftOf q := by
  have hvalid : x.1.isValid = true := h.valid x.1 (List.mem_map_of_mem hx)
  cases hs : q.lower with
  | none => simp [lowerLimit, hs, SortedMap.Limit.admitsAbove, LeftOf]
  | some s =>
      cases hfloor : table.floor? ⟨some s, some s⟩ with
      | none =>
          have hbehind := SortedMap.floor?_none hfloor x hx
          simp [lowerLimit, hs, hfloor, SortedMap.Limit.admitsAbove,
            not_leftOf_of_filed_behind hvalid hbehind hs]
      | some f =>
          obtain ⟨hf, hfiled, hgreatest⟩ := SortedMap.floor?_greatest hfloor
          rw [lowerLimit_of_floor hs hfloor]
          cases hcompare : compare f.1 x.1 with
          | lt =>
              -- What is filed behind the floor is filed behind the lower end.
              have hbehind : compare x.1 ⟨some s, some s⟩ = .gt := by
                by_contra hle
                have hback := hgreatest x hx (Ordering.isLE_iff_ne_gt.mpr hle)
                rw [Std.OrientedCmp.gt_of_lt hcompare] at hback
                cases hback
              simp [not_leftOf_of_filed_behind hvalid hbehind hs]
          | eq =>
              have hsame : f.1 = x.1 := order_eq_eq.mp hcompare
              rw [hsame]
              simp only [reduceCtorEq, true_and, false_or]
              constructor
              · rintro hpast ⟨e, s', he, hs', hle⟩
                obtain rfl : s' = s := Option.some.inj (hs'.symm.trans hs)
                rw [he, compareUppers, Key.order_eq_gt] at hpast
                exact Std.not_le.mpr hpast hle
              · intro hright
                by_contra hshort
                obtain ⟨e, he, hle⟩ := upper_le_of_not_past hshort
                exact hright ⟨e, s, he, hs, hle⟩
          | gt =>
              -- What is filed before the floor ends where the floor begins, or
              -- before that.
              obtain ⟨e, t, he, ht, hle⟩ :=
                h.leftOf_of_filed hx hf (Std.OrientedCmp.lt_of_gt hcompare)
              have hfloor : t ≤ s := lower_le_of_filed hfiled t ht
              have hdiffers : f.1 ≠ x.1 := by
                intro hsame
                rw [compare_def, order_eq_eq.mpr hsame] at hcompare
                cases hcompare
              simp only [reduceCtorEq, hdiffers, false_and, or_self, false_iff, not_not]
              exact ⟨e, s, he, hs, Std.le_trans hle hfloor⟩

/-- The lower limit names nothing that is filed behind the lower end. -/
theorem key_lowerLimit (h : (table.lowerLimit q).key? = some a) :
    ∃ s, q.lower = some s ∧ (compare a ⟨some s, some s⟩).isLE = true := by
  cases hs : q.lower with
  | none => simp [lowerLimit, hs, SortedMap.Limit.key?] at h
  | some s =>
      cases hfloor : table.floor? ⟨some s, some s⟩ with
      | none => simp [lowerLimit, hs, hfloor, SortedMap.Limit.key?] at h
      | some f =>
          have hnamed : f.1 = a := by
            simp only [lowerLimit, hs, hfloor] at h
            split at h
            all_goals exact Option.some.inj h
          rw [← hnamed]
          exact ⟨s, rfl, (SortedMap.floor?_greatest hfloor).2.1⟩

theorem key_upperLimit (h : (upperLimit q).key? = some b) :
    ∃ e, q.upper = some e ∧ b = ⟨some e, some e⟩ := by
  cases he : q.upper with
  | none => simp [upperLimit, he, SortedMap.Limit.key?] at h
  | some e =>
      simp only [upperLimit, he, SortedMap.Limit.key?, Option.some.injEq] at h
      exact ⟨e, rfl, h.symm⟩

theorem limits_inOrder (table : RoutingTable) (hq : q.isEmpty = false) :
    (table.lowerLimit q).InOrder (upperLimit q) := by
  apply SortedMap.Limit.InOrder.of_lt
  intro a b ha hb
  obtain ⟨s, hs, hfiled⟩ := key_lowerLimit ha
  obtain ⟨e, he, rfl⟩ := key_upperLimit hb
  have hroom : s < e := lower_lt_upper (isEmpty_eq_false.mp hq) hs he
  have hends : compare (⟨some s, some s⟩ : Interval) ⟨some e, some e⟩ = .lt := by
    rw [compare_def, order_eq_lt]
    exact .inl (Key.order_eq_lt.mpr hroom)
  exact Std.TransCmp.lt_of_isLE_of_lt hfiled hends

/-- An interval without room is answered before the map is asked. -/
theorem findByInterval_eq_filter (h : table.StandsApart) (q : Interval) :
    table.findByInterval q = (table.entries.filter fun x => x.1.overlaps q).map Prod.snd := by
  rw [findByInterval]
  split
  next hnothing =>
    have hnone : table.entries.filter (fun x => x.1.overlaps q) = [] := by
      rw [Bool.or_eq_true] at hnothing
      rcases hnothing with hentries | hempty
      · rw [List.isEmpty_iff.mp hentries]
        rfl
      · simp [overlaps_of_isEmpty hempty]
    rw [hnone]
    rfl
  next hasked =>
    rw [Bool.or_eq_true, not_or] at hasked
    have hq : q.isValid = true := isEmpty_eq_false.mp (by simpa using hasked.2)
    rw [SortedMap.between]
    refine congrArg _ (List.filter_congr fun x hx => ?_)
    have hx' : x.1.isValid = true := h.valid x.1 (List.mem_map_of_mem hx)
    rw [Bool.eq_iff_iff, Bool.and_eq_true, lowerLimit_admits h q hx, upperLimit_admits hx',
      overlaps_iff hx' hq]

/-- The limits that a map is asked for are in order, whatever the table holds;
an interval without room is answered before. In a table that stands apart the
search gives the entries that overlap the interval, each once, from left to
right. -/
theorem interval_lookup_scans_table (table : RoutingTable) (q : Interval) :
    (q.isEmpty = false → (table.lowerLimit q).InOrder (upperLimit q)) ∧
    (table.StandsApart →
      table.findByInterval q = (table.entries.filter fun x => x.1.overlaps q).map Prod.snd ∧
        (table.entries.filter fun x => x.1.overlaps q).Pairwise fun x y => x.1.LeftOf y.1) :=
  ⟨limits_inOrder table, fun h => ⟨findByInterval_eq_filter h q,
    (List.pairwise_map.mp h.leftOf).filter _⟩⟩

/-- The interval asked for begins inside one range and ends where another
begins. -/
theorem interval_lookup_scans_table_touching :
    let first : Owner := ⟨⟨⟨1, 0⟩, ⟨none, some [0x62]⟩, .leader, 4, .normal, []⟩, "store1"⟩
    let mid : Owner := ⟨⟨⟨2, 0⟩, ⟨some [0x62], some [0x64]⟩, .leader, 4, .normal, []⟩, "store2"⟩
    let last : Owner := ⟨⟨⟨3, 0⟩, ⟨some [0x66], none⟩, .leader, 9, .normal, []⟩, "store3"⟩
    let table := RoutingTable.ofOwners [last, mid, first]
    let q : Interval := ⟨some [0x63], some [0x66]⟩
    q.isEmpty = false ∧ table.StandsApart ∧ (table.lowerLimit q).InOrder (upperLimit q) ∧
      table.findByInterval q = [mid] := by
  intro first mid last table q
  have hroom : q.isEmpty = false := by decide
  have hapart : table.StandsApart := ⟨by decide, by decide⟩
  obtain ⟨hinOrder, hscan⟩ := interval_lookup_scans_table table q
  exact ⟨hroom, hapart, hinOrder hroom, (hscan hapart).1⟩

end RoutingTable

end RangeKeeper
