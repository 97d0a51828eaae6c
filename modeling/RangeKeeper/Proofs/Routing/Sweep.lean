import RangeKeeper.Proofs.Interval.Apart
import RangeKeeper.Proofs.Routing.Rank
import RangeKeeper.Proofs.SortedMap

/-!
What the sweep keeps. The rule is stated over all accepted candidates at once:
one is kept when none that precedes it and was kept overlaps it. The sweep looks
at the last accepted candidate alone, and that is enough because every earlier
one lies left of it. Duplicated reports are told apart by their places in the
listing.
-/

namespace RangeKeeper

variable {α β : Type}

/-- Accept what overlaps none of those accepted so far. -/
def sweepAll (interval : α → Interval) (accepted : List α) : List α → List α
  | [] => []
  | x :: rest =>
    if accepted.any fun y => (interval y).overlaps (interval x) then
      sweepAll interval accepted rest
    else x :: sweepAll interval (accepted ++ [x]) rest

abbrev Owner.interval (o : Owner) : Interval := o.report.interval

theorem sweepAll_sublist (interval : α → Interval) (accepted xs : List α) :
    (sweepAll interval accepted xs).Sublist xs := by
  induction xs generalizing accepted with
  | nil => exact List.Sublist.refl _
  | cons x rest ih =>
      rw [sweepAll]
      split
      · exact (ih accepted).cons x
      · exact (ih (accepted ++ [x])).cons_cons x

theorem sweepAll_map (interval : β → Interval) (f : α → β) (accepted xs : List α) :
    (sweepAll (interval ∘ f) accepted xs).map f =
      sweepAll interval (accepted.map f) (xs.map f) := by
  induction xs generalizing accepted with
  | nil => rfl
  | cons x rest ih =>
      simp only [sweepAll, List.map_cons, List.any_map, Function.comp_def] at ih ⊢
      split
      · exact ih accepted
      · rw [List.map_cons, ih (accepted ++ [x])]
        simp

/-- What is accepted is what overlaps nothing accepted that stands before it. -/
theorem mem_sweepAll (interval : α → Interval) (accepted : List α) {before : α → α → Prop}
    (hasymm : ∀ x y, before x y → ¬before y x) {xs : List α} (hxs : xs.Pairwise before) {x : α} :
    x ∈ sweepAll interval accepted xs ↔ x ∈ xs ∧
      (∀ y ∈ accepted, (interval y).overlaps (interval x) = false) ∧
      ∀ y ∈ sweepAll interval accepted xs, before y x →
        (interval y).overlaps (interval x) = false := by
  induction xs generalizing accepted with
  | nil => simp [sweepAll]
  | cons z rest ih =>
      obtain ⟨hhead, hrest⟩ := List.pairwise_cons.mp hxs
      have hself : ¬before z z := fun h => hasymm z z h h
      rw [sweepAll]
      split
      next hrefused =>
        obtain ⟨y, hy, hover⟩ := List.any_eq_true.mp hrefused
        rw [ih accepted hrest, List.mem_cons]
        constructor
        · rintro ⟨hx, hfree⟩
          exact ⟨.inr hx, hfree⟩
        · rintro ⟨rfl | hx, hfree⟩
          · simp [hfree.1 y hy] at hover
          · exact ⟨hx, hfree⟩
      next hfree =>
        have hfree : ∀ y ∈ accepted, (interval y).overlaps (interval z) = false := by
          simpa using hfree
        -- Whatever the rest accepts stands behind `z`, so it cannot speak
        -- against `z`.
        have hbehind : ∀ y ∈ sweepAll interval (accepted ++ [z]) rest, ¬before y z := by
          intro y hy hyz
          have hmem := (sweepAll_sublist interval (accepted ++ [z]) rest).subset hy
          exact hasymm y z hyz (hhead y hmem)
        simp only [List.mem_cons, forall_eq_or_imp, ih (accepted ++ [z]) hrest,
          List.mem_append, List.not_mem_nil, or_false]
        constructor
        · rintro (rfl | ⟨hx, hall, hlater⟩)
          · exact ⟨.inl rfl, hfree, fun h => absurd h hself,
              fun y hy hbefore => absurd hbefore (hbehind y hy)⟩
          · exact ⟨.inr hx, fun y hy => hall y (.inl hy), fun _ => hall z (.inr rfl), hlater⟩
        · rintro ⟨rfl | hx, hall, hz, hlater⟩
          · exact .inl rfl
          · refine .inr ⟨hx, ?_, hlater⟩
            rintro y (hy | rfl)
            · exact hall y hy
            · exact hz (hhead x hx)

/-- The last accepted interval stands for all accepted ones: it has room for a
key, and the others lie left of it. -/
structure Frontier (accepted : List Owner) (last : Option Interval) : Prop where
  newest : ∀ b, last = some b → b.isValid = true ∧ ∃ o ∈ accepted, o.interval = b
  others : ∀ o ∈ accepted, ∃ b, last = some b ∧ (o.interval = b ∨ o.interval.LeftOf b)

def Ascends (a b : Owner) : Prop := compareLowers a.interval.lower b.interval.lower ≠ .gt

namespace Frontier

variable {accepted : List Owner} {last : Option Interval} {o : Owner}

theorem start : Frontier [] none := ⟨by simp, by simp⟩

/-- A candidate that the last accepted interval leaves alone lies right of all
accepted ones. -/
theorem leftOf (h : Frontier accepted last) (ho : o.interval.isValid = true)
    (hascends : ∀ x ∈ accepted, Ascends x o)
    (hfree : ¬last.any (·.overlaps o.interval) = true) :
    ∀ x ∈ accepted, x.interval.LeftOf o.interval := by
  intro x hx
  obtain ⟨b, hlast, hplace⟩ := h.others x hx
  obtain ⟨hb, y, hy, rfl⟩ := h.newest b hlast
  have hapart : y.interval.overlaps o.interval = false := by simpa [hlast] using hfree
  have hnext : y.interval.LeftOf o.interval :=
    Interval.leftOf_of_apart ho (hascends y hy) hapart
  rcases hplace with hsame | hleft
  · rw [hsame]
    exact hnext
  · exact hleft.trans hb hnext

/-- Looking at the last accepted interval is looking at all of them. -/
theorem any_overlaps (h : Frontier accepted last) (ho : o.interval.isValid = true)
    (hascends : ∀ x ∈ accepted, Ascends x o) :
    (last.any fun b => b.overlaps o.interval) =
      accepted.any fun x => x.interval.overlaps o.interval := by
  cases hany : last.any fun b => b.overlaps o.interval with
  | true =>
      obtain ⟨b, hlast, hover⟩ := (Option.any_eq_true _ _).mp hany
      obtain ⟨_, y, hy, rfl⟩ := h.newest b hlast
      exact (List.any_eq_true.mpr ⟨y, hy, hover⟩).symm
  | false =>
      have hleft := h.leftOf ho hascends (by simp [hany])
      symm
      rw [List.any_eq_false]
      intro x hx
      simp [(hleft x hx).apart]

theorem accept (h : Frontier accepted last) (ho : o.interval.isValid = true)
    (hascends : ∀ x ∈ accepted, Ascends x o)
    (hfree : ¬last.any (·.overlaps o.interval) = true) :
    Frontier (accepted ++ [o]) (some o.interval) := by
  refine ⟨?_, ?_⟩
  · rintro b hb
    cases hb
    exact ⟨ho, o, by simp, rfl⟩
  · intro x hx
    refine ⟨o.interval, rfl, ?_⟩
    rcases List.mem_append.mp hx with hx | hx
    · exact .inr (h.leftOf ho hascends hfree x hx)
    · rw [List.mem_singleton.mp hx]
      exact .inl rfl

end Frontier

section Sweeping

variable {accepted owners : List Owner} {last : Option Interval}

/-- Comparing with the last accepted interval and comparing with all accepted
ones is the same. -/
theorem sweep_eq_sweepAll (h : Frontier accepted last)
    (hvalid : ∀ o ∈ owners, o.interval.isValid = true) (howners : owners.Pairwise Ascends)
    (hascends : ∀ x ∈ accepted, ∀ o ∈ owners, Ascends x o) :
    sweep last owners = sweepAll Owner.interval accepted owners := by
  induction owners generalizing accepted last with
  | nil => rfl
  | cons o rest ih =>
      obtain ⟨hhead, hrest⟩ := List.pairwise_cons.mp howners
      have ho : o.interval.isValid = true := hvalid o (by simp)
      have hvalid : ∀ x ∈ rest, x.interval.isValid = true := fun x hx => hvalid x (by simp [hx])
      have hreach : ∀ x ∈ accepted, Ascends x o := fun x hx => hascends x hx o (by simp)
      have hlater : ∀ x ∈ accepted, ∀ y ∈ rest, Ascends x y :=
        fun x hx y hy => hascends x hx y (by simp [hy])
      rw [sweep, sweepAll, h.any_overlaps ho hreach]
      split
      next => exact ih h hvalid hrest hlater
      next hfree =>
        rw [← h.any_overlaps ho hreach] at hfree
        refine congrArg (o :: ·) (ih (h.accept ho hreach hfree) hvalid hrest ?_)
        intro x hx y hy
        rcases List.mem_append.mp hx with hx | hx
        · exact hlater x hx y hy
        · rw [List.mem_singleton.mp hx]
          exact hhead y hy

end Sweeping

section Resolving

variable {listing : ReportsByStore}

theorem valid_of_candidate {o : Owner} (h : o ∈ candidates listing) :
    o.interval.isValid = true := by
  have hroom := (List.mem_filter.mp h).2
  simp only [Bool.and_eq_true, Bool.not_eq_true'] at hroom
  exact Interval.isEmpty_eq_false.mp hroom.2

/-- The candidates that are kept, with their places in the listing. -/
def ownerPlaces (listing : ReportsByStore) : List (Owner × Nat) :=
  sweepAll (fun c => c.1.interval) [] (rankedReplicas listing)

theorem ownerPlaces_precedes (listing : ReportsByStore) :
    (ownerPlaces listing).Pairwise Precedes :=
  (rankedReplicas_precedes listing).sublist (sweepAll_sublist _ _ _)

theorem mem_ownerPlaces {c : Owner × Nat} :
    c ∈ ownerPlaces listing ↔ Eligible listing c ∧
      ∀ d ∈ ownerPlaces listing, Precedes d c →
        d.1.interval.overlaps c.1.interval = false := by
  have hrule := mem_sweepAll (fun c : Owner × Nat => c.1.interval) []
    (fun _ _ => Precedes.asymm) (rankedReplicas_precedes listing) (x := c)
  rw [mem_rankedReplicas] at hrule
  simpa [ownerPlaces] using hrule

theorem eligible_of_kept {c : Owner × Nat} (h : c ∈ ownerPlaces listing) : Eligible listing c :=
  (mem_ownerPlaces.mp h).1

theorem Eligible.valid {c : Owner × Nat} (h : Eligible listing c) :
    c.1.interval.isValid = true :=
  Interval.isEmpty_eq_false.mp h.nonempty

/-- Of two that are kept, the one that precedes stands left of the other. -/
theorem leftOf_of_kept {c d : Owner × Nat} (hc : c ∈ ownerPlaces listing)
    (hd : d ∈ ownerPlaces listing) (hprecedes : Precedes c d) :
    c.1.interval.LeftOf d.1.interval := by
  have hapart := (mem_ownerPlaces.mp hd).2 c hc hprecedes
  have hd : d.1.interval.isValid = true := (eligible_of_kept hd).valid
  exact Interval.leftOf_of_apart hd hprecedes.lowers_le hapart

theorem ownerPlaces_leftOf (listing : ReportsByStore) :
    (ownerPlaces listing).Pairwise fun c d => c.1.interval.LeftOf d.1.interval :=
  (ownerPlaces_precedes listing).imp_of_mem leftOf_of_kept

theorem sweepAll_ranked (listing : ReportsByStore) :
    sweepAll Owner.interval [] (ranked listing) = (ownerPlaces listing).map Prod.fst := by
  rw [← rankedReplicas_owners]
  exact (sweepAll_map Owner.interval Prod.fst [] (rankedReplicas listing)).symm

theorem sweep_ranked (listing : ReportsByStore) :
    sweep none (ranked listing) = sweepAll Owner.interval [] (ranked listing) := by
  refine sweep_eq_sweepAll .start ?_ ?_ (by simp)
  · intro o ho
    exact valid_of_candidate (List.mem_mergeSort.mp ho)
  · rw [← rankedReplicas_owners, List.pairwise_map]
    exact (rankedReplicas_precedes listing).imp fun h => h.lowers_le

theorem sweep_owners (listing : ReportsByStore) :
    sweep none (ranked listing) = (ownerPlaces listing).map Prod.fst :=
  (sweep_ranked listing).trans (sweepAll_ranked listing)

theorem valid_of_swept {o : Owner} (h : o ∈ sweep none (ranked listing)) :
    o.interval.isValid = true := by
  rw [sweep_owners] at h
  obtain ⟨c, hc, rfl⟩ := List.mem_map.mp h
  exact (eligible_of_kept hc).valid

theorem sweep_leftOf (listing : ReportsByStore) :
    (sweep none (ranked listing)).Pairwise fun a b => a.interval.LeftOf b.interval := by
  rw [sweep_owners, List.pairwise_map]
  exact ownerPlaces_leftOf listing

theorem sweep_order (listing : ReportsByStore) :
    (sweep none (ranked listing)).Pairwise fun a b =>
      compare a.report.interval b.report.interval = .lt :=
  (sweep_leftOf listing).imp_of_mem fun ha _ h => h.order_lt (valid_of_swept ha)

theorem ofOwners_entries {owners : List Owner} (h : owners.Pairwise fun a b =>
    compare a.report.interval b.report.interval = .lt) :
    (RoutingTable.ofOwners owners).entries = owners.map fun o => (o.interval, o) := by
  have hfiled := SortedMap.foldl_insert_ascending (fun o : Owner => o.report.interval) id .empty
    owners h (by simp [SortedMap.empty])
  simpa [RoutingTable.ofOwners, SortedMap.empty] using hfiled

theorem resolve_entries (listing : ReportsByStore) :
    (resolve listing).entries = (ownerPlaces listing).map fun c => (c.1.interval, c.1) := by
  rw [resolve, ofOwners_entries (sweep_order listing), sweep_owners, List.map_map]
  rfl

theorem resolve_keys (listing : ReportsByStore) :
    (resolve listing).keys = (sweep none (ranked listing)).map Owner.interval := by
  rw [SortedMap.keys, resolve, ofOwners_entries (sweep_order listing), List.map_map]
  rfl

theorem values_resolve (listing : ReportsByStore) :
    (resolve listing).values = sweep none (ranked listing) := by
  rw [SortedMap.values, resolve, ofOwners_entries (sweep_order listing), List.map_map]
  exact List.map_id' _

theorem mem_values_resolve {o : Owner} :
    o ∈ (resolve listing).values ↔ ∃ place, (o, place) ∈ ownerPlaces listing := by
  rw [values_resolve, sweep_owners, List.mem_map]
  constructor
  · rintro ⟨c, hc, rfl⟩
    exact ⟨c.2, hc⟩
  · rintro ⟨place, hc⟩
    exact ⟨_, hc, rfl⟩

theorem valid_of_key {b : Interval} (h : b ∈ (resolve listing).keys) : b.isValid = true := by
  rw [resolve_keys] at h
  obtain ⟨o, ho, rfl⟩ := List.mem_map.mp h
  exact valid_of_swept ho

theorem keys_leftOf (listing : ReportsByStore) :
    (resolve listing).keys.Pairwise Interval.LeftOf := by
  rw [resolve_keys, List.pairwise_map]
  exact sweep_leftOf listing

/-- The interval of a candidate that is kept is not filed when it is entered. -/
theorem find?_before {earlier later : List (Owner × Nat)} {c : Owner × Nat}
    (h : ownerPlaces listing = earlier ++ c :: later) :
    (RoutingTable.ofOwners (earlier.map Prod.fst)).find? c.1.interval = none := by
  have horder := sweep_order listing
  rw [sweep_owners, h, List.map_append, List.map_cons, List.pairwise_append] at horder
  obtain ⟨hearlier, _, hcross⟩ := horder
  apply SortedMap.find?_greatest
  intro e he
  rw [ofOwners_entries hearlier] at he
  obtain ⟨x, hx, rfl⟩ := List.mem_map.mp he
  exact hcross x hx c.1 (by simp)

/-- The resolver's rule. Every leader whose interval is not empty is a
candidate, and one is in the table exactly when no candidate that precedes it
and is in the table overlaps it. Comparing with the last one accepted or with
all of them gives the same table, whose entries are apart, stand from left to
right under their own intervals and never replace one another. -/
theorem resolve_keeps_what_precedes (listing : ReportsByStore) :
    ∃ ordered kept : List (Owner × Nat),
      (∀ c, c ∈ ordered ↔ Eligible listing c) ∧ ordered.Pairwise Precedes ∧
      kept.Pairwise Precedes ∧
      (∀ c, c ∈ kept ↔ Eligible listing c ∧
        ∀ d ∈ kept, Precedes d c → d.1.interval.overlaps c.1.interval = false) ∧
      (resolve listing).entries = kept.map (fun c => (c.1.interval, c.1)) ∧
      kept.map Prod.fst = sweep none (ordered.map Prod.fst) ∧
      kept.map Prod.fst = sweepAll Owner.interval [] (ordered.map Prod.fst) ∧
      resolve listing = .ofOwners (kept.map Prod.fst) ∧
      (resolve listing).keys.Pairwise (fun a b =>
        a.LeftOf b ∧ a.overlaps b = false ∧ b.overlaps a = false) ∧
      ∀ earlier c later, kept = earlier ++ c :: later →
        (RoutingTable.ofOwners (earlier.map Prod.fst)).find? c.1.interval = none := by
  have hsweep : (ownerPlaces listing).map Prod.fst =
      sweep none ((rankedReplicas listing).map Prod.fst) := by
    rw [rankedReplicas_owners, sweep_owners]
  have hsweepAll : (ownerPlaces listing).map Prod.fst =
      sweepAll Owner.interval [] ((rankedReplicas listing).map Prod.fst) := by
    rw [rankedReplicas_owners, sweepAll_ranked]
  refine ⟨rankedReplicas listing, ownerPlaces listing, fun _ => mem_rankedReplicas,
    rankedReplicas_precedes listing, ownerPlaces_precedes listing, fun _ => mem_ownerPlaces,
    resolve_entries listing, hsweep, hsweepAll, ?_, ?_, fun _ _ _ => find?_before⟩
  · rw [← sweep_owners]
    rfl
  · refine (keys_leftOf listing).imp fun h => ⟨h, h.apart, ?_⟩
    rw [Interval.overlaps_comm]
    exact h.apart

end Resolving

end RangeKeeper
