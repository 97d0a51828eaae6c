import Mathlib.Data.List.Flatten
import RangeKeeper.Proofs.Routing.Outline
import RangeKeeper.Routing.View

/-!
The order in which reports come in. Heartbeats are grouped by store and the
groups are listed in no particular order, but the listing holds every reported
replica as often as it was reported. Two orders of the same heartbeats therefore
give the same table, up to replicas that one store reports twice with the same
interval, range and version: of those the first reported is kept.
-/

namespace RangeKeeper

def StoreReport.replicas (r : StoreReport) : List Owner := r.ranges.map fun x => ⟨x, r.store⟩

/-- One store's heartbeat with its ranges in another order. The statistics play
no part in routing. -/
structure SameHeartbeat (a b : StoreReport) : Prop where
  store : a.store = b.store
  ranges : a.ranges.Perm b.ranges

/-- The same heartbeats in another order, each with its ranges in another
order. -/
def Rearranged (reports reports' : List StoreReport) : Prop :=
  ∃ between, reports.Perm between ∧ List.Forall₂ SameHeartbeat between reports'

/-- No store lists two leaders that agree in interval, range and version, all
its heartbeats taken together. -/
def NoTwins (reports : List StoreReport) : Prop :=
  ∀ store, ((reports.filter fun r => r.store = store).flatMap (·.leaderRanges)).Pairwise fun a b =>
    ¬(a.interval = b.interval ∧ a.id = b.id ∧ a.version = b.version)

variable {reports reports' : List StoreReport} {listing listing' : ReportsByStore}

/-- Joining a heartbeat adds its replicas to those already grouped. -/
theorem allReplicas_upsertEntry (r : StoreReport) (groups : ReportsByStore) :
    (allReplicas (SortedMap.upsertEntry r.store (fun present => present.getD [] ++ r.ranges)
      groups)).Perm (allReplicas groups ++ r.replicas) :=
  SortedMap.flatMap_upsertEntry (fun store x => (⟨x, store⟩ : Owner)) r.store r.ranges groups

/-- Grouping loses no replica and invents none. -/
theorem allReplicas_groupByStore (reports : List StoreReport) :
    (allReplicas (groupByStore reports)).Perm (reports.flatMap StoreReport.replicas) := by
  have hfold : ∀ groups : SortedMap StoreId (List RangeReport),
      (allReplicas (reports.foldl (fun groups r =>
        groups.upsert r.store fun present => present.getD [] ++ r.ranges) groups).entries).Perm
        (allReplicas groups.entries ++ reports.flatMap StoreReport.replicas) := by
    induction reports with
    | nil => simp
    | cons r rest ih =>
        intro groups
        have hjoined := (allReplicas_upsertEntry r groups.entries).append_right
          (rest.flatMap StoreReport.replicas)
        rw [List.foldl_cons, List.flatMap_cons, ← List.append_assoc]
        exact (ih _).trans hjoined
  exact hfold .empty

theorem SameHeartbeat.replicas {a b : StoreReport} (h : SameHeartbeat a b) :
    a.replicas.Perm b.replicas := by
  rw [StoreReport.replicas, StoreReport.replicas, h.store]
  exact h.ranges.map _

theorem Rearranged.replicas (h : Rearranged reports reports') :
    (reports.flatMap StoreReport.replicas).Perm (reports'.flatMap StoreReport.replicas) := by
  obtain ⟨between, hperm, hsame⟩ := h
  have hbetween : (between.flatMap StoreReport.replicas).Perm
      (reports'.flatMap StoreReport.replicas) := by
    clear hperm
    induction hsame with
    | nil => exact .nil
    | cons hhead _ ih => exact hhead.replicas.append ih
  exact (hperm.flatMap_right _).trans hbetween

/-- Whatever order the groups are listed in, the candidates are those
reported. -/
theorem candidates_of_groups (hlisting : listing.Perm (groupByStore reports)) :
    (candidates listing).Perm ((reports.flatMap StoreReport.replicas).filter fun o =>
      o.report.isLeader && !o.report.interval.isEmpty) :=
  ((hlisting.flatMap_right _).trans (allReplicas_groupByStore reports)).filter _

/-- The leaders of one store among the replicas of all heartbeats. -/
theorem leaders_of_store (reports : List StoreReport) (store : StoreId) :
    ((reports.flatMap StoreReport.replicas).filter fun o =>
        o.report.isLeader && decide (o.store = store)) =
      ((reports.filter fun r => r.store = store).flatMap (·.leaderRanges)).map
        fun x => ⟨x, store⟩ := by
  induction reports with
  | nil => rfl
  | cons r rest ih =>
      have hown : r.replicas.filter (fun o => o.report.isLeader && decide (o.store = store)) =
          if r.store = store then r.leaderRanges.map fun x => ⟨x, store⟩ else [] := by
        rw [StoreReport.replicas, List.filter_map]
        split
        next hstore => simp [Function.comp_def, hstore, StoreReport.leaderRanges]
        next hstore => simp [Function.comp_def, hstore]
      rw [List.flatMap_cons, List.filter_append, hown, ih, List.filter_cons]
      by_cases hstore : r.store = store <;> simp [hstore]

/-- Without twins no two leaders have one outline. -/
theorem NoTwins.leaders (h : NoTwins reports) :
    ((reports.flatMap StoreReport.replicas).filter fun o => o.report.isLeader).Pairwise
      fun a b => a.outline ≠ b.outline := by
  rw [List.pairwise_iff_forall_sublist]
  intro a b hsub hsame
  have hstore : a.store = b.store := congrArg Outline.store hsame
  have hapart : (((reports.filter fun r => r.store = a.store).flatMap (·.leaderRanges)).map
      fun x => (⟨x, a.store⟩ : Owner)).Pairwise fun c d => c.outline ≠ d.outline := by
    refine List.pairwise_map.mpr ((h a.store).imp ?_)
    intro x y hdiffer hxy
    exact hdiffer ⟨congrArg Outline.interval hxy, congrArg Outline.id hxy,
      congrArg Outline.version hxy⟩
  rw [← leaders_of_store] at hapart
  have hwithin := hsub.filter fun o => decide (o.store = a.store)
  rw [List.filter_filter] at hwithin
  simp only [hstore, Bool.and_comm, List.filter_cons, decide_true, if_true,
    List.filter_nil] at hwithin hapart
  exact List.pairwise_iff_forall_sublist.mp hapart hwithin hsame

theorem NoTwins.candidates (h : NoTwins reports) (hlisting : listing.Perm (groupByStore reports)) :
    ((candidates listing).map Owner.outline).Nodup := by
  rw [((candidates_of_groups hlisting).map Owner.outline).nodup_iff]
  refine List.pairwise_map.mpr (h.leaders.sublist ?_)
  have hsub := List.filter_sublist (p := fun o : Owner => !o.report.interval.isEmpty)
    (l := (reports.flatMap StoreReport.replicas).filter fun o => o.report.isLeader)
  simpa [List.filter_filter, Bool.and_comm] using hsub

/-- The view does not depend on the order in which the heartbeats arrive, on the
order of the ranges in them or on the order in which the stores are listed: the
gaps are the same, and so are the entries up to what no order can tell apart.
Where no store reports twins the tables are equal in full. -/
theorem view_independent_of_arrival (hreports : Rearranged reports reports')
    (hlisting : listing.Perm (groupByStore reports))
    (hlisting' : listing'.Perm (groupByStore reports')) :
    (KeySpaceView.ofListing listing).gaps = (KeySpaceView.ofListing listing').gaps ∧
    (KeySpaceView.ofListing listing).route.outline =
      (KeySpaceView.ofListing listing').route.outline ∧
    (NoTwins reports →
      (KeySpaceView.ofListing listing).route = (KeySpaceView.ofListing listing').route) := by
  have hcandidates : (candidates listing).Perm (candidates listing') :=
    ((candidates_of_groups hlisting).trans (hreports.replicas.filter _)).trans
      (candidates_of_groups hlisting').symm
  have houtline : (resolve listing).outline = (resolve listing').outline :=
    outline_resolve_eq hcandidates
  refine ⟨?_, houtline, fun htwins => resolve_eq_of_nodup hcandidates (htwins.candidates hlisting)⟩
  change (resolve listing).gaps = (resolve listing').gaps
  rw [RoutingTable.gaps, RoutingTable.gaps, keys_of_outline, keys_of_outline, houtline]

def reportedLeader (id version : UInt64) (lower upper : Option Key) : RangeReport :=
  ⟨⟨id, 1⟩, ⟨lower, upper⟩, .leader, version, .normal, []⟩

/-- The first store is heard twice; its second heartbeat has a newer version of
its first range. -/
def heardTwice : List StoreReport :=
  [⟨"store1", [reportedLeader 1 1 none (some [109]), reportedLeader 3 0 (some [99]) (some [122])],
      .empty⟩,
    ⟨"store2", [reportedLeader 2 0 (some [109]) none], .empty⟩,
    ⟨"store1", [reportedLeader 1 2 none (some [109])], .empty⟩]

def heardTwiceBackwards : List StoreReport :=
  [⟨"store1", [reportedLeader 1 2 none (some [109])], .empty⟩,
    ⟨"store2", [reportedLeader 2 0 (some [109]) none], .empty⟩,
    ⟨"store1", [reportedLeader 3 0 (some [99]) (some [122]), reportedLeader 1 1 none (some [109])],
      .empty⟩]

theorem view_independent_of_arrival_heard_twice :
    Rearranged heardTwice heardTwiceBackwards ∧ NoTwins heardTwice ∧
      (groupByStore heardTwice).reverse.Perm (groupByStore heardTwice) ∧
      groupByStore heardTwice ≠ groupByStore heardTwiceBackwards ∧
      (KeySpaceView.ofListing (groupByStore heardTwice).reverse).gaps =
        (KeySpaceView.ofReports heardTwiceBackwards).gaps ∧
      (KeySpaceView.ofListing (groupByStore heardTwice).reverse).route =
        (KeySpaceView.ofReports heardTwiceBackwards).route := by
  have hrearranged : Rearranged heardTwice heardTwiceBackwards := by
    refine ⟨heardTwice.reverse, (List.reverse_perm _).symm, ?_⟩
    exact .cons ⟨rfl, .refl _⟩ (.cons ⟨rfl, .refl _⟩ (.cons ⟨rfl, .swap ..⟩ .nil))
  have htwins : NoTwins heardTwice := by
    intro store
    have hall : (heardTwice.flatMap (·.leaderRanges)).Pairwise fun a b =>
        ¬(a.interval = b.interval ∧ a.id = b.id ∧ a.version = b.version) := by decide
    exact hall.sublist (List.filter_sublist.flatMap _)
  have hversions : (groupByStore heardTwice).map (fun g => g.2.map (·.version)) ≠
      (groupByStore heardTwiceBackwards).map fun g => g.2.map (·.version) := by decide
  obtain ⟨hgaps, -, hroute⟩ :=
    view_independent_of_arrival hrearranged (List.reverse_perm _) (.refl _)
  exact ⟨hrearranged, htwins, List.reverse_perm _, fun hsame => hversions (by rw [hsame]), hgaps,
    hroute htwins⟩

end RangeKeeper
