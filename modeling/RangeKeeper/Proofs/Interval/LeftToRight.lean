import RangeKeeper.Proofs.Interval.Apart
import RangeKeeper.SortedMap

/-!
The order of intervals against the order of keys. It is total on all intervals,
inverted ones included. Of two intervals with room that do not overlap the
lesser one ends where the other begins or before, so that its keys all stand
below. A map filed by intervals that stand apart therefore lists them as they
lie: two of them follow each other in the list exactly when every other one is
left of both or right of both, and then what lies between a key of the one and a
key of the other belongs to no third.
-/

namespace RangeKeeper

structure TotalOrder {α : Type} (order : α → α → Ordering) : Prop where
  swap : ∀ a b, order b a = (order a b).swap
  eq_iff : ∀ a b, order a b = .eq ↔ a = b
  trans : ∀ a b c, (order a b).isLE = true → (order b c).isLE = true → (order a c).isLE = true
  antisymm : ∀ a b, (order a b).isLE = true → (order b a).isLE = true → a = b
  total : ∀ a b, (order a b).isLE = true ∨ (order b a).isLE = true

namespace Interval

variable {a b c : Interval} {bs : List Interval}

def Below (a b : Interval) : Prop :=
  ∀ j k, a.containsKey j = true → b.containsKey k = true → j < k

/-- Of the intervals of a list `a` is left of `b` and no third stands between
them: it is left of `a` or right of `b`. -/
structure Neighbours (bs : List Interval) (a b : Interval) : Prop where
  left_mem : a ∈ bs
  right_mem : b ∈ bs
  leftOf : a.LeftOf b
  others : ∀ c ∈ bs, c = a ∨ c = b ∨ c.LeftOf a ∨ b.LeftOf c

theorem order_swap (a b : Interval) : b.order a = (a.order b).swap := by
  rw [← compare_def, ← compare_def]
  exact Std.OrientedCmp.eq_swap

theorem order_trans (a b c : Interval) (hab : (a.order b).isLE = true)
    (hbc : (b.order c).isLE = true) : (a.order c).isLE = true := by
  rw [← compare_def] at *
  exact Std.TransCmp.isLE_trans hab hbc

theorem order_total : TotalOrder order where
  swap := order_swap
  eq_iff _ _ := order_eq_eq
  trans := order_trans
  antisymm a b hab hba := by
    rw [order_swap a b] at hba
    cases hcmp : a.order b with
    | lt => simp [hcmp] at hba
    | eq => exact order_eq_eq.mp hcmp
    | gt => simp [hcmp] at hab
  total a b := by
    rw [order_swap a b]
    cases a.order b <;> simp

namespace LeftOf

theorem below (h : a.LeftOf b) : a.Below b := by
  obtain ⟨e, s, he, hs, hle⟩ := h
  intro j k hj hk
  have hbelow : j < e := (containsKey_iff.mp hj).2 e he
  have habove : s ≤ k := (containsKey_iff.mp hk).1 s hs
  exact Std.lt_of_lt_of_le hbelow (Std.le_trans hle habove)

theorem irrefl (ha : a.isValid = true) : ¬a.LeftOf a := by
  rintro ⟨e, s, he, hs, hle⟩
  exact Std.not_le.mpr (lower_lt_upper ha hs he) hle

theorem asymm (ha : a.isValid = true) (hb : b.isValid = true) (hab : a.LeftOf b) : ¬b.LeftOf a :=
  fun hba => irrefl ha (hab.trans hb hba)

end LeftOf

/-- Of intervals with room the lesser one overlaps the other or is left of
it. -/
theorem apart_iff_leftOf (hb : b.isValid = true) (hlt : a.order b = .lt) :
    a.overlaps b = false ↔ a.LeftOf b :=
  ⟨leftOf_of_apart hb (lowers_le_of_order_lt hlt), LeftOf.apart⟩

/-- Intervals that stand apart, listed in their order, are listed from left to
right. -/
theorem pairwise_leftOf (hvalid : ∀ b ∈ bs, b.isValid = true)
    (hapart : bs.Pairwise fun a b => a.overlaps b = false)
    (hascending : bs.Pairwise fun a b => a.order b = .lt) : bs.Pairwise LeftOf := by
  refine (hascending.and hapart).imp_of_mem fun _ hb hab => ?_
  exact (apart_iff_leftOf (hvalid _ hb) hab.1).mp hab.2

theorem neighbours_of_consecutive (hleft : bs.Pairwise LeftOf) (h : [a, b] <:+: bs) :
    Neighbours bs a b := by
  obtain ⟨before, after, rfl⟩ := h
  rw [List.append_assoc] at hleft ⊢
  obtain ⟨-, hrest, hbefore⟩ := List.pairwise_append.mp hleft
  obtain ⟨ha, hrest⟩ := List.pairwise_cons.mp hrest
  obtain ⟨hb, -⟩ := List.pairwise_cons.mp hrest
  refine ⟨by simp, by simp, ha b (by simp), fun c hc => ?_⟩
  rcases List.mem_append.mp hc with hc | hc
  · exact .inr (.inr (.inl (hbefore c hc a (by simp))))
  · rcases List.mem_cons.mp hc with rfl | hc
    · exact .inl rfl
    · rcases List.mem_cons.mp hc with rfl | hc
      · exact .inr (.inl rfl)
      · exact .inr (.inr (.inr (hb c hc)))

/-- What follows `a` in the list is `b`, as anything else there would stand
between the two. -/
theorem consecutive_of_neighbours (hvalid : ∀ b ∈ bs, b.isValid = true) (hleft : bs.Pairwise LeftOf)
    (h : Neighbours bs a b) : [a, b] <:+: bs := by
  obtain ⟨before, after, rfl⟩ := List.append_of_mem h.left_mem
  have ha := hvalid a h.left_mem
  have hb := hvalid b h.right_mem
  obtain ⟨-, hrest, hbefore⟩ := List.pairwise_append.mp hleft
  obtain ⟨hafter, hlater⟩ := List.pairwise_cons.mp hrest
  have hplace : b ∈ after := by
    rcases List.mem_append.mp h.right_mem with hmem | hmem
    · exact absurd (hbefore b hmem a (by simp)) (h.leftOf.asymm ha hb)
    · rcases List.mem_cons.mp hmem with rfl | hmem
      · exact absurd h.leftOf (LeftOf.irrefl ha)
      · exact hmem
  cases after with
  | nil => cases hplace
  | cons c later =>
      have hc : c.isValid = true := hvalid c (by simp)
      have hac : a.LeftOf c := hafter c (by simp)
      have hsame : c = b := by
        rcases List.mem_cons.mp hplace with heq | hmem
        · exact heq.symm
        · have hcb : c.LeftOf b := (List.pairwise_cons.mp hlater).1 b hmem
          rcases h.others c (by simp) with rfl | heq | hca | hbc
          · exact absurd hac (LeftOf.irrefl ha)
          · exact heq
          · exact absurd hca (hac.asymm ha hc)
          · exact absurd hbc (hcb.asymm hc hb)
      exact ⟨before, later, by simp [hsame]⟩

/-- What lies between a key of `a` and a key of `b` belongs to no third
interval. -/
theorem Neighbours.between (h : Neighbours bs a b) (hc : c ∈ bs) {i j k : Key}
    (hi : a.containsKey i = true) (hj : c.containsKey j = true) (hk : b.containsKey k = true)
    (hij : i ≤ j) (hjk : j ≤ k) : c = a ∨ c = b := by
  rcases h.others c hc with heq | heq | hca | hbc
  · exact .inl heq
  · exact .inr heq
  · exact absurd hij (Std.not_le.mpr (hca.below j i hj hi))
  · exact absurd hjk (Std.not_le.mpr (hbc.below k j hk hj))

/-- The order of intervals is total. Of two intervals with room the lesser one
overlaps the other or else ends where the other begins or before, and has all
its keys below. So in a map of intervals with room that do not overlap those
that follow each other are the neighbours in the key space. -/
theorem order_from_left_to_right :
    TotalOrder order ∧
    (∀ a b : Interval, a.isValid = true → b.isValid = true → a.order b = .lt →
      (a.overlaps b = false ↔ a.LeftOf b) ∧ (a.overlaps b = true ∨ a.LeftOf b ∧ a.Below b)) ∧
    ∀ {ν : Type} (m : SortedMap Interval ν), (∀ a ∈ m.keys, a.isValid = true) →
      (m.keys.Pairwise fun a b => a.overlaps b = false) → ∀ a b,
      ([a, b] <:+: m.keys ↔ Neighbours m.keys a b) ∧
      ([a, b] <:+: m.keys → a.Below b ∧ ∀ c ∈ m.keys, ∀ i j k, a.containsKey i = true →
        c.containsKey j = true → b.containsKey k = true → i ≤ j → j ≤ k → c = a ∨ c = b) := by
  refine ⟨order_total, fun a b _ hb hlt => ⟨apart_iff_leftOf hb hlt, ?_⟩, ?_⟩
  · cases hover : a.overlaps b with
    | true => exact .inl rfl
    | false =>
        have hleft := (apart_iff_leftOf hb hlt).mp hover
        exact .inr ⟨hleft, hleft.below⟩
  · intro ν m hvalid hapart a b
    have hleft : m.keys.Pairwise LeftOf :=
      pairwise_leftOf hvalid hapart (List.pairwise_map.mpr m.ascending)
    refine ⟨⟨neighbours_of_consecutive hleft, consecutive_of_neighbours hvalid hleft⟩,
      fun hnext => ?_⟩
    have hneighbours := neighbours_of_consecutive hleft hnext
    exact ⟨hneighbours.leftOf.below, fun c hc _ _ _ => hneighbours.between hc⟩

/-- Two intervals that touch, filed in front of one that stands behind a gap. -/
theorem order_from_left_to_right_before_gap :
    let first : Interval := ⟨none, some [0x62]⟩
    let second : Interval := ⟨some [0x62], some [0x63]⟩
    let third : Interval := ⟨some [0x65], none⟩
    let m : SortedMap Interval Nat := .ofList [(third, 3), (first, 1), (second, 2)]
    (∀ a ∈ m.keys, a.isValid = true) ∧ (m.keys.Pairwise fun a b => a.overlaps b = false) ∧
      second.LeftOf third ∧ Neighbours m.keys first second ∧ Neighbours m.keys second third ∧
      ¬Neighbours m.keys first third := by
  intro first second third m
  have hvalid : ∀ a ∈ m.keys, a.isValid = true := by decide
  have hapart : m.keys.Pairwise fun a b => a.overlaps b = false := by decide
  have hkeys : m.keys = [first, second, third] := rfl
  obtain ⟨-, hlesser, hmap⟩ := order_from_left_to_right
  have hleft : second.LeftOf third := (hlesser second third rfl rfl rfl).1.mp rfl
  refine ⟨hvalid, hapart, hleft, ?_, ?_, ?_⟩
  · rw [← (hmap m hvalid hapart first second).1, hkeys]
    exact ⟨[], [third], rfl⟩
  · rw [← (hmap m hvalid hapart second third).1, hkeys]
    exact ⟨[first], [], rfl⟩
  · rw [← (hmap m hvalid hapart first third).1, hkeys]
    decide

end Interval

end RangeKeeper
