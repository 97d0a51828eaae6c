import Mathlib.Data.List.Induction
import RangeKeeper.Balance.Epoch
import RangeKeeper.Proofs.Balance.Reports
import RangeKeeper.Proofs.SortedMap

/-!
The removal of redundant epochs. Regrouping by epoch and store keeps every
reported range, in the order in which its store lists it, and mixes none up. So
a store is asked to quit exactly when several epochs are reported and it leads a
range of the newest; the first such range is given up. The oldest epoch is never
touched, and stores that look at the same reports give up ranges of the same
epoch.
-/

namespace RangeKeeper

def SeveralEpochs (reports : List StoreReport) : Prop :=
  ∃ r ∈ reportedRanges reports, ∃ r' ∈ reportedRanges reports, r.id.epoch ≠ r'.id.epoch

/-- A range of the epoch is reported, whoever has it in whatever role, and none
of a newer one. -/
structure Newest (reports : List StoreReport) (epoch : UInt64) : Prop where
  reported : ∃ r ∈ reportedRanges reports, r.id.epoch = epoch
  greatest : ∀ r ∈ reportedRanges reports, r.id.epoch ≤ epoch

structure Oldest (reports : List StoreReport) (epoch : UInt64) : Prop where
  reported : ∃ r ∈ reportedRanges reports, r.id.epoch = epoch
  least : ∀ r ∈ reportedRanges reports, epoch ≤ r.id.epoch

/-- The range is led and belongs to the newest epoch. -/
def LeadsNewest (reports : List StoreReport) (r : RangeReport) : Prop :=
  r.role = .leader ∧ Newest reports r.id.epoch

def enterListing (groups : SortedMap UInt64 EpochGroup) (entry : StoreReport × RangeReport) :
    SortedMap UInt64 EpochGroup :=
  groups.upsert entry.2.id.epoch fun present =>
    EpochGroup.add (present.getD .empty) entry.1 entry.2

/-- Every reported range beside the report that lists it. -/
def listings (reports : List StoreReport) : List (StoreReport × RangeReport) :=
  reports.flatMap fun s => s.ranges.map fun r => (s, r)

def listedUnder (epoch : UInt64) (store : StoreId) (entries : List (StoreReport × RangeReport)) :
    List (StoreReport × RangeReport) :=
  entries.filter fun e => e.2.id.epoch = epoch ∧ e.1.store = store

def grouped (groups : SortedMap UInt64 EpochGroup) (epoch : UInt64) (store : StoreId) :
    Option StoreReport :=
  (groups.find? epoch).bind fun group => group.find? store

def StoreReport.withRange (s : StoreReport) (r : RangeReport) : StoreReport :=
  { s with ranges := s.ranges ++ [r] }

variable {reports : List StoreReport} {epoch epoch' : UInt64} {store : StoreId}
variable {groups : SortedMap UInt64 EpochGroup} {e : StoreReport × RangeReport}
variable {command : Command}

theorem organizeByEpoch_eq (reports : List StoreReport) :
    organizeByEpoch reports = (listings reports).foldl enterListing .empty := by
  rw [organizeByEpoch, listings, List.foldl_flatMap]
  congr
  funext groups s
  rw [List.foldl_map]
  rfl

theorem grouped_enterListing_ne (hne : ¬(e.2.id.epoch = epoch ∧ e.1.store = store)) :
    grouped (enterListing groups e) epoch store = grouped groups epoch store := by
  rw [grouped, grouped, enterListing]
  by_cases hepoch : e.2.id.epoch = epoch
  · -- The group of the epoch changes, but at another store.
    have hstore : store ≠ e.1.store := fun heq => hne ⟨hepoch, heq.symm⟩
    rw [← hepoch, SortedMap.find?_upsert_self, Option.bind_some, EpochGroup.add,
      SortedMap.find?_upsert_ne hstore]
    cases groups.find? e.2.id.epoch <;> rfl
  · rw [SortedMap.find?_upsert_ne (Ne.symm hepoch)]

/-- One more range of the store in the epoch goes behind those that are grouped.
The first one brings along the report that lists it. -/
theorem grouped_enterListing_self (hepoch : e.2.id.epoch = epoch) (hstore : e.1.store = store) :
    grouped (enterListing groups e) epoch store =
      some (((grouped groups epoch store).getD { e.1 with ranges := [] }).withRange e.2) := by
  rw [grouped, grouped, enterListing, ← hepoch, SortedMap.find?_upsert_self, Option.bind_some,
    EpochGroup.add, ← hstore, SortedMap.find?_upsert_self]
  cases groups.find? e.2.id.epoch with
  | none => rfl
  | some group => rfl

/-- Under its epoch and store everything entered is grouped, in the order it was
entered, and nothing else, as in the report that listed the first of it. -/
theorem grouped_entered (epoch : UInt64) (store : StoreId)
    (entries : List (StoreReport × RangeReport)) :
    grouped (entries.foldl enterListing .empty) epoch store =
      (listedUnder epoch store entries).head?.map fun e =>
        { e.1 with ranges := (listedUnder epoch store entries).map Prod.snd } := by
  induction entries using List.reverseRecOn with
  | nil => rfl
  | append_singleton entries e ih =>
      have hlisted : listedUnder epoch store (entries ++ [e]) =
          listedUnder epoch store entries ++ listedUnder epoch store [e] := List.filter_append ..
      rw [List.foldl_append, List.foldl_cons, List.foldl_nil, hlisted]
      by_cases hhere : e.2.id.epoch = epoch ∧ e.1.store = store
      · have hone : listedUnder epoch store [e] = [e] := by simp [listedUnder, hhere]
        rw [grouped_enterListing_self hhere.1 hhere.2, ih, hone]
        cases listedUnder epoch store entries <;> simp [StoreReport.withRange]
      · have hnone : listedUnder epoch store [e] = [] := by simp [listedUnder, hhere]
        rw [grouped_enterListing_ne hhere, ih, hnone, List.append_nil]

theorem grouped_ranges (epoch : UInt64) (store : StoreId)
    (entries : List (StoreReport × RangeReport)) :
    ((grouped (entries.foldl enterListing .empty) epoch store).map (·.ranges)).getD [] =
      (listedUnder epoch store entries).map Prod.snd := by
  rw [grouped_entered]
  cases listedUnder epoch store entries <;> rfl

theorem mem_keys_enterListing :
    epoch ∈ (enterListing groups e).keys ↔ epoch = e.2.id.epoch ∨ epoch ∈ groups.keys := by
  rw [← SortedMap.isSome_find?, ← SortedMap.isSome_find?, enterListing]
  by_cases hepoch : epoch = e.2.id.epoch
  · rw [hepoch, SortedMap.find?_upsert_self]
    simp
  · rw [SortedMap.find?_upsert_ne hepoch]
    simp [hepoch]

theorem mem_keys_entered (entries : List (StoreReport × RangeReport)) :
    epoch ∈ (entries.foldl enterListing .empty).keys ↔ ∃ e ∈ entries, e.2.id.epoch = epoch := by
  induction entries using List.reverseRecOn with
  | nil => simp [SortedMap.keys, SortedMap.empty]
  | append_singleton entries e ih =>
      rw [List.foldl_append, List.foldl_cons, List.foldl_nil, mem_keys_enterListing, ih]
      simp only [List.mem_append, List.mem_singleton, or_and_right, exists_or, exists_eq_left]
      rw [or_comm, eq_comm]

theorem mem_epochs :
    epoch ∈ (organizeByEpoch reports).keys ↔ ∃ r ∈ reportedRanges reports, r.id.epoch = epoch := by
  rw [organizeByEpoch_eq, mem_keys_entered]
  constructor
  · rintro ⟨⟨s, r⟩, hlisted, hepoch⟩
    obtain ⟨s', hs, hr⟩ := List.mem_flatMap.mp hlisted
    obtain ⟨r', hr', heq⟩ := List.mem_map.mp hr
    cases heq
    exact ⟨r, List.mem_flatMap.mpr ⟨s, hs, hr'⟩, hepoch⟩
  · rintro ⟨r, hr, hepoch⟩
    obtain ⟨s, hs, hr⟩ := List.mem_flatMap.mp hr
    exact ⟨(s, r), List.mem_flatMap.mpr ⟨s, hs, List.mem_map_of_mem hr⟩, hepoch⟩

theorem listings_of_store (reports : List StoreReport) :
    (listedUnder epoch store (listings reports)).map Prod.snd =
      (rangesOf reports store).filter fun r => r.id.epoch = epoch := by
  induction reports with
  | nil => rfl
  | cons s rest ih =>
      have hhead : (listedUnder epoch store (s.ranges.map fun r => (s, r))).map Prod.snd =
          if s.store = store then s.ranges.filter fun r => r.id.epoch = epoch else [] := by
        rw [listedUnder, List.filter_map, List.map_map]
        by_cases hstore : s.store = store <;> simp [hstore, Function.comp_def]
      rw [listings, List.flatMap_cons, listedUnder, List.filter_append, List.map_append,
        ← listings, ← listedUnder, ← listedUnder, ih, hhead, rangesOf, rangesOf, List.filter_cons]
      by_cases hstore : s.store = store <;> simp [hstore]

theorem severalEpochs_iff : SeveralEpochs reports ↔ 2 ≤ (organizeByEpoch reports).size := by
  rw [SortedMap.two_le_size]
  constructor
  · rintro ⟨r, hr, r', hr', hne⟩
    exact ⟨_, mem_epochs.mpr ⟨r, hr, rfl⟩, _, mem_epochs.mpr ⟨r', hr', rfl⟩, hne⟩
  · rintro ⟨e, he, e', he', hne⟩
    obtain ⟨r, hr, rfl⟩ := mem_epochs.mp he
    obtain ⟨r', hr', rfl⟩ := mem_epochs.mp he'
    exact ⟨r, hr, r', hr', hne⟩

theorem newest_of_last {group : EpochGroup}
    (hlast : (organizeByEpoch reports).entries.getLast? = some (epoch, group)) :
    Newest reports epoch where
  reported := by
    apply mem_epochs.mp
    exact List.mem_map.mpr ⟨_, List.mem_of_getLast? hlast, rfl⟩
  greatest r hr := by
    have hle := SortedMap.getLast?_greatest hlast r.id.epoch (mem_epochs.mpr ⟨r, hr, rfl⟩)
    exact Std.isLE_compare.mp hle

theorem Newest.unique (h : Newest reports epoch) (h' : Newest reports epoch') : epoch = epoch' := by
  obtain ⟨r, hr, rfl⟩ := h.reported
  obtain ⟨r', hr', rfl⟩ := h'.reported
  exact UInt64.le_antisymm (h'.greatest r hr) (h.greatest r' hr')

/-- The oldest of several epochs is older than the newest. -/
theorem Oldest.lt_newest (hseveral : SeveralEpochs reports) (hold : Oldest reports epoch)
    (hnew : Newest reports epoch') : epoch < epoch' := by
  obtain ⟨r, hr, r', hr', hne⟩ := hseveral
  have hr₁ := UInt64.le_iff_toNat_le.mp (hold.least r hr)
  have hr₂ := UInt64.le_iff_toNat_le.mp (hnew.greatest r hr)
  have hr'₁ := UInt64.le_iff_toNat_le.mp (hold.least r' hr')
  have hr'₂ := UInt64.le_iff_toNat_le.mp (hnew.greatest r' hr')
  have hne' : r.id.epoch.toNat ≠ r'.id.epoch.toNat := fun heq => hne (UInt64.toNat.inj heq)
  apply UInt64.lt_iff_toNat_lt.mpr
  omega

namespace EpochBalancer

/-- With several epochs reported, the first range that the store leads in the
newest is given up. -/
theorem propose_of_several (store : StoreId) (hseveral : SeveralEpochs reports) :
    ∃ epoch, Newest reports epoch ∧ propose store reports =
      ((rangesOf reports store).find? fun r => r.isLeader && decide (r.id.epoch = epoch)).map
        fun r => .changeConfig (.quit store r) := by
  have hsize : 2 ≤ (organizeByEpoch reports).size := severalEpochs_iff.mp hseveral
  have hentries : (organizeByEpoch reports).entries ≠ [] := by
    intro hnil
    rw [SortedMap.size, hnil] at hsize
    exact absurd hsize (by decide)
  obtain ⟨⟨epoch, group⟩, hlast⟩ : ∃ e, (organizeByEpoch reports).entries.getLast? = some e :=
    ⟨_, List.getLast?_eq_some_getLast hentries⟩
  have hfound : (organizeByEpoch reports).find? epoch = some group :=
    SortedMap.find?_eq_some.mpr (List.mem_of_getLast? hlast)
  have hranges : ((group.find? store).map (·.ranges)).getD [] =
      (rangesOf reports store).filter fun r => r.id.epoch = epoch := by
    have hgrouped := grouped_ranges epoch store (listings reports)
    rw [← organizeByEpoch_eq, grouped, hfound, Option.bind_some, listings_of_store] at hgrouped
    exact hgrouped
  refine ⟨epoch, newest_of_last hlast, ?_⟩
  rw [← List.head?_filter, ← List.filter_filter, ← hranges]
  simp only [propose, Nat.not_lt.mpr hsize, if_false, hlast, Option.bind_eq_bind, Option.bind_some]
  cases group.find? store with
  | none => rfl
  | some own =>
      have hled : own.leaderRanges.head? = own.ranges.find? (·.isLeader) := by
        rw [StoreReport.leaderRanges, List.head?_filter]
      simp only [Option.bind_some, hled, Option.map_some, Option.getD_some, List.head?_filter]
      cases own.ranges.find? (·.isLeader) <;> rfl

/-- What is proposed, as long as several epochs are reported: to quit the first
range that the store leads in the newest epoch. -/
theorem propose_eq_some : propose store reports = some command ↔
    SeveralEpochs reports ∧ ∃ r, First (LeadsNewest reports) (rangesOf reports store) r ∧
      command = .changeConfig ⟨r.id, store, r.version, .empty, .empty⟩ := by
  by_cases hseveral : SeveralEpochs reports
  · obtain ⟨epoch, hnewest, hpropose⟩ := propose_of_several store hseveral
    have htest : ∀ r : RangeReport, (r.isLeader && decide (r.id.epoch = epoch)) = true ↔
        LeadsNewest reports r := by
      intro r
      rw [RangeReport.isLeader, LeadsNewest, Bool.and_eq_true, decide_eq_true_iff,
        decide_eq_true_iff]
      constructor
      · rintro ⟨hleader, rfl⟩
        exact ⟨hleader, hnewest⟩
      · rintro ⟨hleader, hepoch⟩
        exact ⟨hleader, hepoch.unique hnewest⟩
    simp only [hpropose, hseveral, true_and, Option.map_eq_some_iff, find?_eq_some_iff_first htest]
    constructor
    · rintro ⟨r, hfirst, rfl⟩
      exact ⟨r, hfirst, rfl⟩
    · rintro ⟨r, hfirst, rfl⟩
      exact ⟨r, hfirst, rfl⟩
  · have hsize : (organizeByEpoch reports).size < 2 :=
      Nat.lt_of_not_le fun hsize => hseveral (severalEpochs_iff.mpr hsize)
    simp [propose, hsize, hseveral]

end EpochBalancer

open EpochBalancer

/-- A store is asked for a command exactly when several epochs are reported and
it leads a range of the newest. It then gives up the first of them, so a range
of the oldest epoch is never given up, and two stores that look at the same
reports give up ranges of one epoch. -/
theorem newest_epoch_quits (reports : List StoreReport) :
    (∀ store, ((Balancer.redundantEpoch store).propose reports).isSome = true ↔
      SeveralEpochs reports ∧ ∃ r ∈ rangesOf reports store, LeadsNewest reports r) ∧
    (∀ store command, (Balancer.redundantEpoch store).propose reports = some command →
      (∃ r, First (LeadsNewest reports) (rangesOf reports store) r ∧
        command = .changeConfig ⟨r.id, store, r.version, .empty, .empty⟩) ∧
      ∀ epoch, Oldest reports epoch → epoch < command.rangeId.epoch) ∧
    ∀ store store' command command',
      (Balancer.redundantEpoch store).propose reports = some command →
      (Balancer.redundantEpoch store').propose reports = some command' →
      command.rangeId.epoch = command'.rangeId.epoch := by
  have hnewest : ∀ store command, propose store reports = some command →
      SeveralEpochs reports ∧ Newest reports command.rangeId.epoch := by
    intro store command hpropose
    obtain ⟨hseveral, r, hfirst, rfl⟩ := propose_eq_some.mp hpropose
    exact ⟨hseveral, hfirst.holds.2⟩
  refine ⟨?_, ?_, ?_⟩
  · intro store
    rw [Option.isSome_iff_exists]
    constructor
    · rintro ⟨command, hpropose⟩
      obtain ⟨hseveral, r, hfirst, -⟩ := propose_eq_some.mp hpropose
      exact ⟨hseveral, r, hfirst.mem, hfirst.holds⟩
    · rintro ⟨hseveral, hled⟩
      obtain ⟨r, hfirst⟩ := exists_first hled
      exact ⟨_, propose_eq_some.mpr ⟨hseveral, r, hfirst, rfl⟩⟩
  · intro store command hpropose
    obtain ⟨hseveral, hepoch⟩ := hnewest store command hpropose
    refine ⟨(propose_eq_some.mp hpropose).2, ?_⟩
    intro epoch hold
    exact hold.lt_newest hseveral hepoch
  · intro store store' command command' hpropose hpropose'
    apply (hnewest store command hpropose).2.unique
    exact (hnewest store' command' hpropose').2

/-- One store reports twice and follows in the newest epoch before it leads
there; another leads in each of three epochs. -/
theorem newest_epoch_quits_reported_twice :
    let range (id epoch : UInt64) (role : Role) : RangeReport :=
      ⟨⟨id, epoch⟩, .full, role, 7, .normal, []⟩
    let reports : List StoreReport :=
      [⟨"near", [range 1 2 .follower, range 2 0 .leader], .empty⟩,
        ⟨"far", [range 2 1 .leader, range 3 2 .leader, range 1 0 .leader], .empty⟩,
        ⟨"near", [range 4 2 .leader, range 5 2 .leader], .empty⟩]
    ∃ command command', (Balancer.redundantEpoch "near").propose reports = some command ∧
      (Balancer.redundantEpoch "far").propose reports = some command' ∧
      command = .changeConfig ⟨⟨4, 2⟩, "near", 7, .empty, .empty⟩ ∧
      command'.rangeId.epoch = command.rangeId.epoch ∧ Oldest reports 0 ∧
      0 < command.rangeId.epoch ∧
      (SeveralEpochs reports ∧ ∃ r ∈ rangesOf reports "far", LeadsNewest reports r) := by
  intro range reports
  obtain ⟨hiff, hquits, hagree⟩ := newest_epoch_quits reports
  have hnear : (Balancer.redundantEpoch "near").propose reports =
      some (.changeConfig ⟨⟨4, 2⟩, "near", 7, .empty, .empty⟩) := by decide
  have hfar : (Balancer.redundantEpoch "far").propose reports =
      some (.changeConfig ⟨⟨3, 2⟩, "far", 7, .empty, .empty⟩) := by decide
  have hold : Oldest reports 0 := ⟨⟨range 2 0 .leader, by simp [reports, reportedRanges], rfl⟩,
    fun r _ => UInt64.zero_le⟩
  exact ⟨_, _, hnear, hfar, rfl, hagree _ _ _ _ hfar hnear, hold, (hquits _ _ hnear).2 0 hold,
    (hiff "far").mp (by rw [hfar]; rfl)⟩

end RangeKeeper
