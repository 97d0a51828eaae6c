import RangeKeeper.Proofs.Routing.Sweep

/-!
Versions of one range. A version only ranks reports of a range that begin at the
same key, and of those the table holds none but the newest. Between reports that
begin elsewhere the place in the key space decides: an old report keeps out a
newer one that begins further right and overlaps it, and a newer one that begins
further left may be kept out by another range before the old one is looked at.
-/

namespace RangeKeeper

variable {listing : ReportsByStore} {c o : Owner} {i j : Nat}

/-- The owner `d` is in the table, ranks before `c` and overlaps it. -/
structure KeepsOut (listing : ReportsByStore) (d c : Owner) : Prop where
  owner : d ∈ (resolve listing).values
  before : (d.rank c).isLE = true
  overlaps : d.interval.overlaps c.interval = true

/-- A candidate that is not kept overlaps one that is and precedes it. -/
theorem exists_keeper (hc : Eligible listing (c, i))
    (hout : (c, i) ∉ ownerPlaces listing) :
    ∃ k ∈ ownerPlaces listing, Precedes k (c, i) ∧ k.1.interval.overlaps c.interval = true := by
  rw [mem_ownerPlaces, not_and] at hout
  simpa using hout hc

/-- Whatever overlaps an owner that it precedes was kept out by an owner further
left. -/
theorem keeper_leftOf (hc : Eligible listing (c, i)) (ho : (o, j) ∈ ownerPlaces listing)
    (hprecedes : Precedes (c, i) (o, j)) (hover : c.interval.overlaps o.interval = true) :
    ∃ k ∈ ownerPlaces listing, Precedes k (c, i) ∧ k.1.interval.overlaps c.interval = true ∧
      k.1.interval.LeftOf o.interval := by
  have hout : (c, i) ∉ ownerPlaces listing := by
    intro hkept
    have hapart := (leftOf_of_kept hkept ho hprecedes).apart
    rw [hover] at hapart
    cases hapart
  obtain ⟨k, hk, hbefore, hmeets⟩ := exists_keeper hc hout
  exact ⟨k, hk, hbefore, hmeets, leftOf_of_kept hk ho (hbefore.trans hprecedes)⟩

theorem KeepsOut.of_kept {k : Owner × Nat} (hk : k ∈ ownerPlaces listing)
    (hprecedes : Precedes k (c, i)) (hover : k.1.interval.overlaps c.interval = true) :
    KeepsOut listing k.1 c := by
  refine ⟨mem_values_resolve.mpr ⟨k.2, hk⟩, ?_, hover⟩
  rcases precedes_iff.mp hprecedes with hlt | ⟨heq, _⟩
  · rw [hlt]
    rfl
  · rw [heq]
    rfl

/-- Owners that begin at different keys do not overlap. -/
theorem apart_of_kept {c d : Owner × Nat} (hc : c ∈ ownerPlaces listing)
    (hd : d ∈ ownerPlaces listing) (hlower : c.1.interval.lower ≠ d.1.interval.lower) :
    c.1.interval.overlaps d.1.interval = false := by
  cases hcmp : compareLowers c.1.interval.lower d.1.interval.lower with
  | lt => exact (leftOf_of_kept hc hd (.inl hcmp)).apart
  | eq => exact absurd (compareLowers_eq_eq.mp hcmp) hlower
  | gt =>
      have hback : compareLowers d.1.interval.lower c.1.interval.lower = .lt := by
        rw [compareLowers_swap, hcmp]
        rfl
      rw [Interval.overlaps_comm]
      exact (leftOf_of_kept hd hc (.inl hback)).apart

/-- Of the reports of one range that begin at one key, none is newer than an
owner. -/
theorem version_le_of_kept (ho : (o, j) ∈ ownerPlaces listing)
    (hc : Eligible listing (c, i)) (hid : c.report.id = o.report.id)
    (hlower : c.interval.lower = o.interval.lower) : c.report.version ≤ o.report.version := by
  refine UInt64.not_lt.mp fun hnewer => ?_
  have hprecedes : Precedes (c, i) (o, j) :=
    .inr ⟨hlower, .inr ⟨by rw [hid], .inr ⟨by rw [hid], .inl hnewer⟩⟩⟩
  have hover := Interval.overlaps_of_lower_eq hc.valid (eligible_of_kept ho).valid hlower
  -- Whatever kept the newer one out ends before either of the two begins.
  obtain ⟨k, _, _, hmeets, e, s, he, hs, hle⟩ := keeper_leftOf hc ho hprecedes hover
  have hleft : k.1.interval.LeftOf c.interval := ⟨e, s, he, hlower.trans hs, hle⟩
  rw [hleft.apart] at hmeets
  cases hmeets

/-- The version decides between reports of one range that begin at the same key:
an owner has the greatest of their versions. A newer report that begins
elsewhere and overlaps the owner is not in the table either. The owner itself
keeps it out if it begins further right; if it begins further left, an owner
left of both of which it also overlaps does. -/
theorem version_decides_at_one_start (ho : o ∈ (resolve listing).values)
    (hc : c ∈ candidates listing) (hid : c.report.id = o.report.id) :
    (c.interval.lower = o.interval.lower → c.report.version ≤ o.report.version) ∧
    (o.report.version < c.report.version → c.interval.overlaps o.interval = true →
      c ∉ (resolve listing).values ∧
      (compareLowers o.interval.lower c.interval.lower = .lt ∧ KeepsOut listing o c ∨
        compareLowers c.interval.lower o.interval.lower = .lt ∧
          ∃ d, KeepsOut listing d c ∧ d.interval.LeftOf o.interval)) := by
  obtain ⟨j, ho⟩ := mem_values_resolve.mp ho
  obtain ⟨i, hc⟩ := exists_place hc
  have hversion := version_le_of_kept ho hc hid
  refine ⟨hversion, fun hnewer hover => ?_⟩
  have hlower : c.interval.lower ≠ o.interval.lower :=
    fun hsame => absurd (hversion hsame) (UInt64.not_le.mpr hnewer)
  refine ⟨fun howner => ?_, ?_⟩
  · obtain ⟨i', hkept⟩ := mem_values_resolve.mp howner
    have hapart := apart_of_kept hkept ho hlower
    rw [hover] at hapart
    cases hapart
  · cases hcmp : compareLowers o.interval.lower c.interval.lower with
    | lt =>
        have hprecedes : Precedes (o, j) (c, i) := .inl hcmp
        rw [Interval.overlaps_comm] at hover
        exact .inl ⟨rfl, .of_kept ho hprecedes hover⟩
    | eq => exact absurd (compareLowers_eq_eq.mp hcmp).symm hlower
    | gt =>
        have hback : compareLowers c.interval.lower o.interval.lower = .lt := by
          rw [compareLowers_swap, hcmp]
          rfl
        obtain ⟨k, hk, hprecedes, hmeets, hleft⟩ := keeper_leftOf hc ho (.inl hback) hover
        exact .inr ⟨hback, k.1, .of_kept hk hprecedes hmeets, hleft⟩

def versioned (id version : UInt64) (s e : Key) : RangeReport :=
  ⟨⟨id, 1⟩, ⟨some s, some e⟩, .leader, version, .normal, []⟩

/-- A range was moved left into the room of a neighbour that has not made way
yet. -/
def movedLeft : ReportsByStore :=
  [("store1", [versioned 2 0 [97] [99]]), ("store2", [versioned 1 2 [98] [101]]),
    ("store3", [versioned 1 1 [99] [102]])]

theorem version_decides_at_one_start_moved_left :
    ∃ o c, o ∈ (resolve movedLeft).values ∧ c ∈ candidates movedLeft ∧
      c.report.id = o.report.id ∧ o.report.version < c.report.version ∧
      c.interval.overlaps o.interval = true ∧ c ∉ (resolve movedLeft).values ∧
      ∃ d, KeepsOut movedLeft d c ∧ d.interval.LeftOf o.interval := by
  have hranked : ranked movedLeft = [⟨versioned 2 0 [97] [99], "store1"⟩,
      ⟨versioned 1 2 [98] [101], "store2"⟩, ⟨versioned 1 1 [99] [102], "store3"⟩] :=
    List.mergeSort_of_pairwise (by decide)
  have howner : ⟨versioned 1 1 [99] [102], "store3"⟩ ∈ (resolve movedLeft).values := by
    rw [values_resolve, hranked]
    exact List.mem_cons_of_mem _ List.mem_cons_self
  have hcandidate : ⟨versioned 1 2 [98] [101], "store2"⟩ ∈ candidates movedLeft :=
    List.mem_cons_of_mem _ List.mem_cons_self
  obtain ⟨hout, hkept⟩ :=
    (version_decides_at_one_start howner hcandidate rfl).2 (by decide) (by decide)
  refine ⟨_, _, howner, hcandidate, rfl, by decide, by decide, hout, ?_⟩
  rcases hkept with ⟨hright, _⟩ | ⟨_, hkeeper⟩
  · exact absurd hright (by decide)
  · exact hkeeper

/-- A range was moved right, and one store has not heard of it yet. -/
def movedRight : ReportsByStore :=
  [("store1", [versioned 1 1 [97] [99]]), ("store2", [versioned 1 2 [98] [100]])]

/-- The old report begins further left, so it is the owner and the newer one is
not. -/
theorem old_report_keeps_out_newer :
    ¬∀ (listing : ReportsByStore) (o c : Owner), o ∈ (resolve listing).values →
      c ∈ candidates listing → c.report.id = o.report.id →
        ¬o.report.version < c.report.version := by
  intro hclaim
  have hranked : ranked movedRight =
      [⟨versioned 1 1 [97] [99], "store1"⟩, ⟨versioned 1 2 [98] [100], "store2"⟩] :=
    List.mergeSort_of_pairwise (by decide)
  have howner : ⟨versioned 1 1 [97] [99], "store1"⟩ ∈ (resolve movedRight).values := by
    rw [values_resolve, hranked]
    exact List.mem_cons_self
  have hcandidate : ⟨versioned 1 2 [98] [100], "store2"⟩ ∈ candidates movedRight :=
    List.mem_cons_of_mem _ List.mem_cons_self
  exact hclaim movedRight _ _ howner hcandidate rfl (by decide)

end RangeKeeper
