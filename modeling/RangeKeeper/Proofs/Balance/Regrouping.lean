import RangeKeeper.Proofs.Balance.Epochs

/-!
The regrouping of reports by epoch. Every reported range is listed once, under
its own epoch and its own store, so a store's ranges of one epoch are its
reported ranges of that epoch, in the same order, however many reports they are
spread over. A group lists its stores by ascending id and no store that has
nothing in it, and takes a store's statistics from the first of its reports that
has.
-/

namespace RangeKeeper

def storesIn (groups : SortedMap UInt64 EpochGroup) (epoch : UInt64) : List StoreReport :=
  ((groups.find? epoch).map (·.values)).getD []

/-- The report is by the store and lists a range of the epoch. -/
def Lists (epoch : UInt64) (store : StoreId) (s : StoreReport) : Prop :=
  s.store = store ∧ ∃ r ∈ s.ranges, r.id.epoch = epoch

/-- The stores are what the reports say about one epoch. -/
structure Regrouped (reports : List StoreReport) (epoch : UInt64) (stores : List StoreReport) :
    Prop where
  ascending : stores.Pairwise fun a b => a.store < b.store
  ranges : ∀ store, rangesOf stores store =
    (rangesOf reports store).filter fun r => r.id.epoch = epoch
  nonempty : ∀ own ∈ stores, own.ranges ≠ []
  stats : ∀ own ∈ stores, ∃ first, First (Lists epoch own.store) reports first ∧
    own.stats = first.stats

variable {reports : List StoreReport} {epoch : UInt64} {store : StoreId} {group : EpochGroup}
variable {own : StoreReport}

theorem listedUnder_of_report (epoch : UInt64) (store : StoreId) (s : StoreReport) :
    listedUnder epoch store (s.ranges.map fun r => (s, r)) =
      if s.store = store then (s.ranges.filter fun r => r.id.epoch = epoch).map fun r => (s, r)
      else [] := by
  rw [listedUnder, List.filter_map]
  by_cases hstore : s.store = store <;> simp [hstore, Function.comp_def]

/-- What is listed first for a store in an epoch is in the first of its reports
that lists anything. -/
theorem first_of_listed {e : StoreReport × RangeReport}
    (hhead : (listedUnder epoch store (listings reports)).head? = some e) :
    First (Lists epoch store) reports e.1 := by
  induction reports with
  | nil => cases hhead
  | cons s rest ih =>
      rw [listings, List.flatMap_cons, listedUnder, List.filter_append, ← listings, ← listedUnder,
        ← listedUnder, List.head?_append, listedUnder_of_report] at hhead
      by_cases hlists : Lists epoch store s
      · obtain ⟨hstore, r, hr, hepoch⟩ := hlists
        have hsome : (s.ranges.filter fun r => r.id.epoch = epoch) ≠ [] :=
          List.ne_nil_of_mem (List.mem_filter.mpr ⟨hr, decide_eq_true hepoch⟩)
        obtain ⟨x, later, hfiltered⟩ := List.exists_cons_of_ne_nil hsome
        rw [if_pos hstore, hfiltered] at hhead
        cases hhead
        exact ⟨[], rest, rfl, ⟨hstore, r, hr, hepoch⟩, by simp⟩
      · have hnone : (if s.store = store then
            (s.ranges.filter fun r => r.id.epoch = epoch).map fun r => (s, r) else []) = [] := by
          split
          next hstore =>
            rw [List.map_eq_nil_iff, List.filter_eq_nil_iff]
            intro r hr hepoch
            exact hlists ⟨hstore, r, hr, decide_eq_true_iff.mp hepoch⟩
          next => rfl
        rw [hnone, List.head?_nil, Option.none_or] at hhead
        obtain ⟨before, after, rfl, hfirst, hbefore⟩ := ih hhead
        refine ⟨s :: before, after, rfl, hfirst, ?_⟩
        exact List.forall_mem_cons.mpr ⟨hlists, hbefore⟩

/-- What a group files under a store is of that store, has ranges, and has the
statistics of the first report that lists one. -/
theorem filed_of_reported (hgroup : (organizeByEpoch reports).find? epoch = some group)
    (hfiled : (store, own) ∈ group.entries) :
    own.store = store ∧ own.ranges ≠ [] ∧
      ∃ first, First (Lists epoch store) reports first ∧ own.stats = first.stats := by
  have hentered := grouped_entered epoch store (listings reports)
  rw [← organizeByEpoch_eq, grouped, hgroup, Option.bind_some,
    SortedMap.find?_eq_some.mpr hfiled] at hentered
  obtain ⟨e, hhead, rfl⟩ := Option.map_eq_some_iff.mp hentered.symm
  obtain ⟨later, hlisted⟩ := List.head?_eq_some_iff.mp hhead
  have hfirst := first_of_listed hhead
  exact ⟨hfirst.holds.1, by simp [hlisted], e.1, hfirst, rfl⟩

theorem rangesOf_values (hgroup : (organizeByEpoch reports).find? epoch = some group) :
    rangesOf group.values store = ((group.find? store).map (·.ranges)).getD [] := by
  have hown : ∀ e ∈ group.entries, decide (e.2.store = store) = decide (e.1 = store) := by
    intro e he
    rw [(filed_of_reported hgroup he).1]
  have hfiltered : group.values.filter (fun s => s.store = store) =
      (group.find? store).toList := by
    rw [SortedMap.values, List.filter_map, Function.comp_def, List.filter_congr hown,
      SortedMap.filter_key]
    cases group.find? store <;> rfl
  rw [rangesOf, hfiltered]
  cases group.find? store <;> simp

/-- Regrouping loses nothing and invents nothing. The epochs are those of the
reported ranges, ascending, and the group of every epoch is what the reports say
about it. -/
theorem regrouping_keeps_reports (reports : List StoreReport) :
    (organizeByEpoch reports).keys.Pairwise (· < ·) ∧
    (∀ epoch, epoch ∈ (organizeByEpoch reports).keys ↔
      ∃ r ∈ reportedRanges reports, r.id.epoch = epoch) ∧
    ∀ epoch, Regrouped reports epoch (storesIn (organizeByEpoch reports) epoch) := by
  have hepochs : (organizeByEpoch reports).keys.Pairwise (· < ·) :=
    List.pairwise_map.mpr ((organizeByEpoch reports).ascending.imp Std.compare_eq_lt.mp)
  refine ⟨hepochs, fun _ => mem_epochs, fun epoch => ?_⟩
  have hranges : ∀ store, ((grouped (organizeByEpoch reports) epoch store).map (·.ranges)).getD [] =
      (rangesOf reports store).filter fun r => r.id.epoch = epoch := by
    intro store
    rw [organizeByEpoch_eq, grouped_ranges, listings_of_store]
  rw [storesIn]
  cases hgroup : (organizeByEpoch reports).find? epoch with
  | none =>
      refine ⟨.nil, fun store => ?_, by simp, by simp⟩
      rw [← hranges, grouped, hgroup]
      rfl
  | some group =>
      have hfiled : ∀ e ∈ group.entries, e.2.store = e.1 ∧ e.2.ranges ≠ [] ∧
          ∃ first, First (Lists epoch e.1) reports first ∧ e.2.stats = first.stats :=
        fun e he => filed_of_reported hgroup he
      refine ⟨?_, fun store => ?_, ?_, ?_⟩
      · refine List.pairwise_map.mpr (group.ascending.imp_of_mem fun ha hb hlt => ?_)
        rw [(hfiled _ ha).1, (hfiled _ hb).1]
        exact compareOfLessAndEq_eq_lt.mp hlt
      · rw [← hranges, grouped, hgroup]
        exact rangesOf_values hgroup
      · intro own hown
        obtain ⟨e, he, rfl⟩ := List.mem_map.mp hown
        exact (hfiled e he).2.1
      · intro own hown
        obtain ⟨e, he, rfl⟩ := List.mem_map.mp hown
        rw [(hfiled e he).1]
        exact (hfiled e he).2.2

def idleRange (id epoch : UInt64) : RangeReport := ⟨⟨id, epoch⟩, .full, .follower, 0, .normal, []⟩

/-- A store reports three times, and in the newer epoch has ranges from its
second report on only. -/
def reportedThrice : List StoreReport :=
  [⟨"near", [idleRange 2 3], .ofList [("disk", ⟨1⟩)]⟩,
    ⟨"near", [idleRange 4 7, idleRange 2 3], .ofList [("disk", ⟨2⟩)]⟩,
    ⟨"bare", [], .ofList [("disk", ⟨3⟩)]⟩,
    ⟨"far", [idleRange 1 7], .ofList [("disk", ⟨4⟩)]⟩,
    ⟨"near", [idleRange 4 7, idleRange 5 7], .ofList [("disk", ⟨5⟩)]⟩]

theorem regrouping_keeps_reports_of_three :
    (organizeByEpoch reportedThrice).keys = [3, 7] ∧
      storesIn (organizeByEpoch reportedThrice) 7 =
        [⟨"far", [idleRange 1 7], .ofList [("disk", ⟨4⟩)]⟩,
          ⟨"near", [idleRange 4 7, idleRange 4 7, idleRange 5 7], .ofList [("disk", ⟨2⟩)]⟩] ∧
      Regrouped reportedThrice 7 (storesIn (organizeByEpoch reportedThrice) 7) :=
  ⟨rfl, rfl, (regrouping_keeps_reports reportedThrice).2.2 7⟩

end RangeKeeper
