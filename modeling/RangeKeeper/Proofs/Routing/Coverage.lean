import RangeKeeper.Proofs.Routing.Gaps

/-!
When a table counts as covering the key space. A view is fully covered when
there is no gap, which asks for more than an owner of every key: the interval
before the empty key holds no key, and yet it is a gap unless some entry is open
below.
-/

namespace RangeKeeper

def beforeAll : Interval := ⟨none, some []⟩

def OwnsEveryKey (table : RoutingTable) : Prop :=
  ∀ k : Key, ∃ b ∈ table.keys, b.containsKey k = true

def OpensBelow (table : RoutingTable) : Prop := ∃ b ∈ table.keys, b.lower = none

/-- An interval that has room and holds no key stands before the empty key. -/
theorem eq_beforeAll {g : Interval} (hroom : g.isValid = true)
    (hnone : ∀ k, g.containsKey k = false) : g = beforeAll := by
  obtain ⟨lower, upper⟩ := g
  cases lower with
  | some s =>
      have hin : (⟨some s, upper⟩ : Interval).containsKey s = true := by
        refine Interval.containsKey_iff.mpr ⟨by simp, ?_⟩
        rintro e rfl
        exact Interval.lower_lt_upper hroom rfl rfl
      simp [hnone s] at hin
  | none =>
      cases upper with
      | none => simpa [Interval.containsKey] using hnone []
      | some e =>
          cases e with
          | nil => rfl
          | cons byte rest => simpa [Interval.containsKey] using hnone []

theorem beforeAll_empty (k : Key) : beforeAll.containsKey k = false := by
  simp [beforeAll, Interval.containsKey]

variable {listing : ReportsByStore}

theorem ownsEveryKey_iff : OwnsEveryKey (resolve listing) ↔
    ∀ k, ∀ g ∈ findGaps listing, g.containsKey k = false := by
  refine forall_congr' fun k => ?_
  have hcount := count_resolved listing k
  constructor
  · intro howned g hg
    have hpos := List.countP_pos_iff.mpr howned
    have hnone : (findGaps listing).countP (·.containsKey k) = 0 := by omega
    simpa using List.countP_eq_zero.mp hnone g hg
  · intro hnone
    have hzero : (findGaps listing).countP (·.containsKey k) = 0 :=
      List.countP_eq_zero.mpr fun g hg => by simp [hnone g hg]
    exact List.countP_pos_iff.mp (by omega)

/-- A table that owns every key has no gap but perhaps the one before the empty
key. -/
theorem gaps_of_ownsEveryKey (h : OwnsEveryKey (resolve listing)) :
    findGaps listing = [] ∨ findGaps listing = [beforeAll] := by
  have hall : ∀ g ∈ findGaps listing, g = beforeAll := fun g hg =>
    eq_beforeAll ((tiles_resolved listing).gaps_valid g hg) fun k => ownsEveryKey_iff.mp h k g hg
  have hshort := (tiles_resolved listing).gaps_shortOf
  cases hgaps : findGaps listing with
  | nil => exact .inl rfl
  | cons g rest =>
      rw [hgaps] at hall hshort
      obtain ⟨hhead, _⟩ := List.pairwise_cons.mp hshort
      have hrest : rest = [] := by
        rw [List.eq_nil_iff_forall_not_mem]
        intro x hx
        obtain ⟨e, s, _, hs, _⟩ := hhead x hx
        rw [hall x (by simp [hx])] at hs
        cases hs
      rw [hrest, hall g (by simp)]
      exact .inr rfl

theorem Tiles.opensBelow {cursor : Option Key} {bs : List Interval} (h : Tiles cursor bs []) :
    ∃ b ∈ bs, b.lower = cursor := by
  cases h with
  | last b _ => exact ⟨b, by simp, rfl⟩
  | entry b _ _ _ => exact ⟨b, by simp, rfl⟩

/-- There is no gap before the empty key exactly when an entry is open below. -/
theorem beforeAll_not_gap (h : OpensBelow (resolve listing)) : beforeAll ∉ findGaps listing := by
  intro hgap
  obtain ⟨b, hb, hopen⟩ := h
  rcases (tiles_resolved listing).gaps_apart _ hgap b hb with hleft | hleft
  · obtain ⟨_, s, _, hs, _⟩ := hleft
    simp [hopen] at hs
  · obtain ⟨_, s, _, hs, _⟩ := hleft
    simp [beforeAll] at hs

theorem no_gaps_iff : findGaps listing = [] ↔
    OwnsEveryKey (resolve listing) ∧ OpensBelow (resolve listing) := by
  constructor
  · intro hgaps
    have htiles := tiles_resolved listing
    rw [hgaps] at htiles
    exact ⟨ownsEveryKey_iff.mpr (by simp [hgaps]), htiles.opensBelow⟩
  · rintro ⟨howned, hopen⟩
    rcases gaps_of_ownsEveryKey howned with hgaps | hgaps
    · exact hgaps
    · exact absurd (by simp [hgaps]) (beforeAll_not_gap hopen)

theorem isFullyCovered_iff : (KeySpaceView.ofListing listing).isFullyCovered = true ↔
    findGaps listing = [] :=
  List.isEmpty_iff

theorem gaps_beforeAll_iff : findGaps listing = [beforeAll] ↔
    OwnsEveryKey (resolve listing) ∧ ¬OpensBelow (resolve listing) := by
  constructor
  · intro hgaps
    refine ⟨ownsEveryKey_iff.mpr (by simp [hgaps, beforeAll_empty]), fun hopen => ?_⟩
    exact beforeAll_not_gap hopen (by simp [hgaps])
  · rintro ⟨howned, hclosed⟩
    rcases gaps_of_ownsEveryKey howned with hgaps | hgaps
    · exact absurd (no_gaps_iff.mp hgaps).2 hclosed
    · exact hgaps

/-- Full coverage means that every key is owned and that some entry is open
below. So it means that every key is owned unless the only gap is the one before
the empty key, which no key is in. -/
theorem fullyCovered_means_owned (listing : ReportsByStore) :
    ((KeySpaceView.ofListing listing).isFullyCovered = true ↔
      OwnsEveryKey (resolve listing) ∧ OpensBelow (resolve listing)) ∧
    (((KeySpaceView.ofListing listing).isFullyCovered = true ↔ OwnsEveryKey (resolve listing)) ↔
      OpensBelow (resolve listing) ∨ ¬OwnsEveryKey (resolve listing)) ∧
    (OwnsEveryKey (resolve listing) ∧ ¬OpensBelow (resolve listing) ↔
      findGaps listing = [beforeAll]) ∧
    fullyCoveredRoute? listing =
      (if (KeySpaceView.ofListing listing).isFullyCovered then some (resolve listing) else none) ∧
    (KeySpaceView.ofListing listing).fullyCoveredRoute? = fullyCoveredRoute? listing := by
  have hcovered : (KeySpaceView.ofListing listing).isFullyCovered = true ↔
      OwnsEveryKey (resolve listing) ∧ OpensBelow (resolve listing) :=
    isFullyCovered_iff.trans no_gaps_iff
  refine ⟨hcovered, ?_, gaps_beforeAll_iff.symm, rfl, rfl⟩
  rw [hcovered]
  by_cases howned : OwnsEveryKey (resolve listing) <;>
    by_cases hopen : OpensBelow (resolve listing) <;> simp [howned, hopen]

def fromEmptyKey : ReportsByStore :=
  [("store1", [⟨⟨1, 1⟩, ⟨some [], none⟩, .leader, 0, .normal, []⟩])]

theorem fromEmptyKey_not_covered :
    OwnsEveryKey (resolve fromEmptyKey) ∧
      (KeySpaceView.ofListing fromEmptyKey).isFullyCovered = false ∧
      (fullyCoveredRoute? fromEmptyKey).isSome = false ∧
      (KeySpaceView.ofListing fromEmptyKey).fullyCoveredRoute?.isSome = false := by
  have hranked : ranked fromEmptyKey = candidates fromEmptyKey := List.mergeSort_singleton _
  have hkeys : (resolve fromEmptyKey).keys = [⟨some [], none⟩] := by
    rw [resolve, hranked]
    rfl
  have hgaps : findGaps fromEmptyKey = [beforeAll] := by
    rw [findGaps, RoutingTable.gaps, hkeys]
    rfl
  have huncovered : (KeySpaceView.ofListing fromEmptyKey).isFullyCovered = false := by
    rw [Bool.eq_false_iff, Ne, isFullyCovered_iff, hgaps]
    simp
  have hroute : (fullyCoveredRoute? fromEmptyKey).isSome = false := by
    have hsome : (resolve fromEmptyKey).gaps.isEmpty = false := congrArg List.isEmpty hgaps
    simp [fullyCoveredRoute?, hsome]
  refine ⟨?_, huncovered, hroute, hroute⟩
  intro k
  rw [hkeys]
  exact ⟨⟨some [], none⟩, by simp, by simp [Interval.containsKey]⟩

end RangeKeeper
