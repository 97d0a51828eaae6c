import Mathlib.Data.List.Induction
import RangeKeeper.Routing.Cache
import RangeKeeper.Proofs.Routing.Gaps
import RangeKeeper.Proofs.Routing.Lookup

/-!
Routing a batch sorts its positions by the range that owns the key there. One
more key adds one more position, to the list of its owner or to the unrouted
ones, and changes no other list. So each list is the part of the batch that has
its owner, in the order of the batch. What no range owns is in a gap, since the
table of a published view and its gaps tile the key space.
-/

namespace RangeKeeper

/-- The caches that updates lead to. Each holds the view that was published
last. -/
inductive RouteCache.Reached : RouteCache → Prop where
  | initial : Reached {}
  | update {c : RouteCache} (reports : List StoreReport) : Reached c → Reached (c.update reports)
  | updateListing {c : RouteCache} (listing : ReportsByStore) :
      Reached c → Reached (c.updateListing listing)

/-- The view before anything was reported is that of an empty listing. -/
theorem unreported_eq_ofListing : KeySpaceView.unreported = .ofListing [] := by
  have hranked : ranked [] = [] := List.mergeSort_nil
  rw [KeySpaceView.ofListing, resolve, hranked]
  rfl

theorem RouteCache.Reached.view_resolved {c : RouteCache} (hc : c.Reached) :
    ∃ listing, c.view = .ofListing listing := by
  cases hc with
  | initial => exact ⟨[], unreported_eq_ofListing⟩
  | update reports _ => exact ⟨groupByStore reports, rfl⟩
  | updateListing listing _ => exact ⟨listing, rfl⟩

/-- What no range owns is in a gap. -/
theorem findByKey?_eq_none_iff (listing : ReportsByStore) (k : Key) :
    (resolve listing).findByKey? k = none ↔ ∃ g ∈ findGaps listing, g.containsKey k = true := by
  have hcount := count_resolved listing k
  have hscan : (resolve listing).findByKey? k = none ↔
      (resolve listing).keys.countP (·.containsKey k) = 0 := by
    rw [RoutingTable.findByKey?_eq_find? (keys_leftOf listing), Option.map_eq_none_iff,
      List.find?_eq_none, List.countP_eq_zero, SortedMap.keys, List.forall_mem_map]
  rw [hscan, ← List.countP_pos_iff]
  omega

namespace KeySpaceView

def rangeOf? (v : KeySpaceView) (k : Key) : Option RangeId :=
  (v.route.findByKey? k).map (·.report.id)

/-- The positions of the keys that have this owner, or that have none. -/
def positionsOf (v : KeySpaceView) (entries : List (Key × Nat)) (owner : Option RangeId) :
    List Nat :=
  (entries.filter fun e => v.rangeOf? e.1 = owner).map Prod.snd

/-- The batch sorts the positions of the entries by the owner of their keys. -/
structure Sorts (v : KeySpaceView) (entries : List (Key × Nat)) (batch : BatchRoute) : Prop where
  unrouted : batch.unrouted = v.positionsOf entries none
  routed : ∀ r, (batch.byRange.find? r).getD [] = v.positionsOf entries (some r)
  nonempty : ∀ e ∈ batch.byRange.entries, e.2 ≠ []
  all : (batch.unrouted ++ batch.byRange.values.flatten).Perm (entries.map Prod.snd)

variable {v : KeySpaceView} {entries : List (Key × Nat)} {batch : BatchRoute}
variable {k : Key} {position : Nat} {r : RangeId}

theorem positionsOf_concat (owner : Option RangeId) :
    v.positionsOf (entries ++ [(k, position)]) owner =
      v.positionsOf entries owner ++ if v.rangeOf? k = owner then [position] else [] := by
  rw [positionsOf, List.filter_append, List.map_append]
  by_cases howner : v.rangeOf? k = owner <;> simp [positionsOf, howner]

theorem addToBatch_unrouted (h : v.rangeOf? k = none) :
    v.addToBatch batch position k = { batch with unrouted := batch.unrouted ++ [position] } := by
  rw [rangeOf?, Option.map_eq_none_iff] at h
  rw [addToBatch, h]

theorem addToBatch_routed (h : v.rangeOf? k = some r) :
    v.addToBatch batch position k =
      { batch with
        byRange := batch.byRange.upsert r fun noted => noted.getD [] ++ [position] } := by
  obtain ⟨o, hfound, rfl⟩ := Option.map_eq_some_iff.mp h
  rw [addToBatch, hfound]

theorem Sorts.addUnrouted (h : v.Sorts entries batch) (howner : v.rangeOf? k = none) :
    v.Sorts (entries ++ [(k, position)])
      { batch with unrouted := batch.unrouted ++ [position] } where
  unrouted := by rw [positionsOf_concat, if_pos howner, h.unrouted]
  routed r := by rw [positionsOf_concat, if_neg (by simp [howner]), List.append_nil, h.routed]
  nonempty := h.nonempty
  all := by
    have hswap : ([position] ++ batch.byRange.values.flatten).Perm
        (batch.byRange.values.flatten ++ [position]) := List.perm_append_comm
    have hmiddle := hswap.append_left batch.unrouted
    rw [← List.append_assoc, ← List.append_assoc] at hmiddle
    rw [List.map_append]
    exact hmiddle.trans (h.all.append_right [position])

theorem Sorts.addRouted (h : v.Sorts entries batch) (howner : v.rangeOf? k = some r) :
    v.Sorts (entries ++ [(k, position)])
      { batch with
        byRange := batch.byRange.upsert r fun noted => noted.getD [] ++ [position] } where
  unrouted := by rw [positionsOf_concat, if_neg (by simp [howner]), List.append_nil, h.unrouted]
  routed other := by
    rw [positionsOf_concat, howner, ← h.routed]
    by_cases hsame : other = r
    · rw [hsame, SortedMap.find?_upsert_self, if_pos rfl, Option.getD_some]
    · rw [SortedMap.find?_upsert_ne hsame, if_neg (by simpa using Ne.symm hsame), List.append_nil]
  nonempty e he := by
    by_cases hsame : e.1 = r
    · have hfound := SortedMap.find?_eq_some.mpr he
      rw [hsame, SortedMap.find?_upsert_self, Option.some.injEq] at hfound
      simp [← hfound]
    · have hfound := SortedMap.find?_eq_some.mpr he
      rw [SortedMap.find?_upsert_ne hsame] at hfound
      exact h.nonempty e (SortedMap.find?_eq_some.mp hfound)
  all := by
    have hadded := SortedMap.flatMap_upsertEntry (fun _ i => i) r [position] batch.byRange.entries
    simp only [List.map_id_fun', id] at hadded
    rw [List.map_append, SortedMap.values, ← List.flatMap_def]
    refine (hadded.append_left batch.unrouted).trans ?_
    rw [← List.append_assoc, List.flatMap_def, ← SortedMap.values]
    exact h.all.append_right [position]

/-- One more key of the batch. -/
theorem Sorts.step (h : v.Sorts entries batch) (k : Key) (position : Nat) :
    v.Sorts (entries ++ [(k, position)]) (v.addToBatch batch position k) := by
  cases howner : v.rangeOf? k with
  | none =>
      rw [addToBatch_unrouted howner]
      exact h.addUnrouted howner
  | some r =>
      rw [addToBatch_routed howner]
      exact h.addRouted howner

theorem sorts_foldl (v : KeySpaceView) (entries : List (Key × Nat)) :
    v.Sorts entries (entries.foldl (fun batch e => v.addToBatch batch e.2 e.1) {}) := by
  induction entries using List.reverseRecOn with
  | nil => exact ⟨rfl, fun _ => rfl, by simp [SortedMap.empty], .refl _⟩
  | append_singleton entries e ih =>
      rw [List.foldl_append]
      exact ih.step e.1 e.2

theorem sorts_routeBatch (v : KeySpaceView) (keys : List Key) :
    v.Sorts keys.zipIdx (v.routeBatch keys) := sorts_foldl v keys.zipIdx

variable {keys : List Key} {owner : Option RangeId}

theorem positions_of_batch (keys : List Key) :
    keys.zipIdx.map Prod.snd = List.range keys.length := by
  rw [List.zipIdx_map_snd, List.range_eq_range']

theorem positionsOf_ascending : (v.positionsOf keys.zipIdx owner).Pairwise (· < ·) := by
  have hall : (keys.zipIdx.map Prod.snd).Pairwise (· < ·) := by
    rw [positions_of_batch]
    exact List.pairwise_lt_range
  exact hall.sublist (List.filter_sublist.map Prod.snd)

theorem mem_positionsOf {i : Nat} (hk : keys[i]? = some k) :
    i ∈ v.positionsOf keys.zipIdx owner ↔ v.rangeOf? k = owner := by
  rw [positionsOf, List.mem_map]
  constructor
  · rintro ⟨e, he, rfl⟩
    obtain ⟨hmem, howner⟩ := List.mem_filter.mp he
    have hsame : some e.1 = some k := (List.mem_zipIdx_iff_getElem?.mp hmem).symm.trans hk
    cases hsame
    exact decide_eq_true_iff.mp howner
  · intro howner
    have hmem : (k, i) ∈ keys.zipIdx := List.mk_mem_zipIdx_iff_getElem?.mpr hk
    exact ⟨(k, i), List.mem_filter.mpr ⟨hmem, decide_eq_true howner⟩, rfl⟩

theorem decide?_range (v : KeySpaceView) (k : Key) (asking : StoreId) :
    (∃ decision, v.decide? k asking = some decision ∧ decision.rangeId = r) ↔
      v.rangeOf? k = some r := by
  rw [decide?, rangeOf?, ← Option.map_eq_some_iff, Option.map_map]
  rfl

theorem Sorts.listed (h : v.Sorts keys.zipIdx batch) {i : Nat} (hk : keys[i]? = some k) :
    (∃ positions, batch.byRange.find? r = some positions ∧ i ∈ positions) ↔
      v.rangeOf? k = some r := by
  rw [← mem_positionsOf hk, ← h.routed]
  cases batch.byRange.find? r <;> simp

theorem Sorts.ascending (h : v.Sorts keys.zipIdx batch) :
    ∀ positions ∈ batch.byRange.values, positions.Pairwise (· < ·) := by
  intro positions hpositions
  obtain ⟨e, he, rfl⟩ := List.mem_map.mp hpositions
  have hfound := h.routed e.1
  rw [SortedMap.find?_eq_some.mpr he, Option.getD_some] at hfound
  rw [hfound]
  exact positionsOf_ascending

end KeySpaceView

/-- The batch holds every position of the keys once, under the range that owns
its key or among the unrouted ones if the key is in a gap. -/
structure RouteCache.Partitions (c : RouteCache) (keys : List Key) (batch : BatchRoute) : Prop where
  once : (batch.unrouted ++ batch.byRange.values.flatten).Perm (List.range keys.length)
  routed : ∀ i k, keys[i]? = some k → ∀ r,
    (∃ positions, batch.byRange.find? r = some positions ∧ i ∈ positions) ↔
      ∀ asking, ∃ decision, c.decide? k asking = some decision ∧ decision.rangeId = r
  unrouted : ∀ i k, keys[i]? = some k →
    (i ∈ batch.unrouted ↔ ∃ g ∈ c.view.gaps, g.containsKey k = true)
  unroutedAscending : batch.unrouted.Pairwise (· < ·)
  routedAscending : ∀ positions ∈ batch.byRange.values, positions.Pairwise (· < ·)
  nonempty : ∀ positions ∈ batch.byRange.values, positions ≠ []

/-- Routing a batch against a published view partitions its positions. -/
theorem RouteCache.routeBatch_partitions {c : RouteCache} (hc : c.Reached) (keys : List Key) :
    c.Partitions keys (c.routeBatch keys) := by
  obtain ⟨listing, hview⟩ := hc.view_resolved
  have hsorts : c.view.Sorts keys.zipIdx (c.routeBatch keys) :=
    KeySpaceView.sorts_routeBatch c.view keys
  have hgap : ∀ k, c.view.rangeOf? k = none ↔ ∃ g ∈ c.view.gaps, g.containsKey k = true := by
    intro k
    rw [hview, KeySpaceView.rangeOf?, Option.map_eq_none_iff]
    exact findByKey?_eq_none_iff listing k
  constructor
  case once =>
    rw [← KeySpaceView.positions_of_batch]
    exact hsorts.all
  case routed =>
    intro i k hk r
    rw [hsorts.listed hk]
    constructor
    · intro howner asking
      exact (c.view.decide?_range k asking).mpr howner
    · intro hnamed
      exact (c.view.decide?_range k "").mp (hnamed "")
  case unrouted =>
    intro i k hk
    rw [hsorts.unrouted, KeySpaceView.mem_positionsOf hk, hgap]
  case unroutedAscending =>
    rw [hsorts.unrouted]
    exact KeySpaceView.positionsOf_ascending
  case routedAscending => exact hsorts.ascending
  case nonempty =>
    intro positions hpositions
    obtain ⟨e, he, rfl⟩ := List.mem_map.mp hpositions
    exact hsorts.nonempty e he

/-- Two leaders that meet at a key, and nothing below the first. -/
def meetingLeaders : ReportsByStore :=
  [("store1", [⟨⟨1, 0⟩, ⟨some [0x62], some [0x6d]⟩, .leader, 4, .normal, []⟩]),
    ("store2", [⟨⟨2, 0⟩, ⟨some [0x6d], none⟩, .leader, 9, .normal, []⟩])]

def meetingCache : RouteCache := RouteCache.updateListing {} meetingLeaders

theorem RouteCache.routeBatch_partitions_with_gap :
    meetingCache.Reached ∧
      meetingCache.Partitions [[0x71], [0x6c], [0x61], [0x71]]
        (meetingCache.routeBatch [[0x71], [0x6c], [0x61], [0x71]]) ∧
      (meetingCache.routeBatch [[0x71], [0x6c], [0x61], [0x71]]).byRange.entries =
        [(⟨1, 0⟩, [1]), (⟨2, 0⟩, [0, 3])] ∧
      (meetingCache.routeBatch [[0x71], [0x6c], [0x61], [0x71]]).unrouted = [2] := by
  have hreached : meetingCache.Reached := .updateListing meetingLeaders .initial
  have hranked : ranked meetingLeaders = candidates meetingLeaders :=
    List.mergeSort_of_pairwise (by decide)
  have hview : meetingCache.view =
      ⟨.ofOwners (candidates meetingLeaders), [⟨none, some [0x62]⟩]⟩ := by
    rw [meetingCache, RouteCache.updateListing, KeySpaceView.ofListing, resolve, hranked]
    rfl
  refine ⟨hreached, RouteCache.routeBatch_partitions hreached _, ?_, ?_⟩
  all_goals
    rw [RouteCache.routeBatch, hview]
    rfl

end RangeKeeper
