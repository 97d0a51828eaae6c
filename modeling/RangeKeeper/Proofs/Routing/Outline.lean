import Mathlib.Data.List.Nodup
import RangeKeeper.Proofs.Routing.Sweep
import RangeKeeper.Proofs.StableSort

/-!
What precedence sees of a replica: its interval, its range, its version and its
store. Replicas of one outline are told apart by their places alone, and the
sweep, which looks at intervals only, cannot tell them apart at all. So the
owners are known up to their outlines once the candidates are known as a
collection, and known in full once each outline's candidates are known in their
order.
-/

namespace RangeKeeper

/-- What the order of precedence looks at. -/
structure Outline where
  interval : Interval
  id : RangeId
  version : UInt64
  store : StoreId
  deriving DecidableEq

def Owner.outline (o : Owner) : Outline :=
  ⟨o.report.interval, o.report.id, o.report.version, o.store⟩

def RoutingTable.outline (table : RoutingTable) : List Outline :=
  table.entries.map fun e => ⟨e.1, e.2.report.id, e.2.report.version, e.2.store⟩

theorem rank_eq_iff {a b : Owner} : a.rank b = .eq ↔ a.outline = b.outline := by
  simp only [Owner.rank, Owner.outline, Ordering.then_eq_eq, compareLowers_eq_eq,
    Interval.order_eq_eq, Std.LawfulEqOrd.compare_eq_iff_eq, Outline.mk.injEq]
  constructor
  · rintro ⟨⟨⟨⟨⟨-, hid⟩, hepoch⟩, hversion⟩, hinterval⟩, hstore⟩
    refine ⟨hinterval, ?_, hversion.symm, hstore⟩
    calc a.report.id = ⟨a.report.id.id, a.report.id.epoch⟩ := rfl
      _ = b.report.id := by rw [hid, hepoch]
  · rintro ⟨hinterval, hid, hversion, hstore⟩
    exact ⟨⟨⟨⟨⟨by rw [hinterval], by rw [hid]⟩, by rw [hid]⟩, hversion.symm⟩, hinterval⟩, hstore⟩

/-- Candidates of one outline have equal rank. -/
theorem outline_eq_iff (a b : Owner) :
    a.outline = b.outline ↔ (a.rank b).isLE = true ∧ (b.rank a).isLE = true := by
  rw [← rank_eq_iff, rank_swap a b]
  cases a.rank b <;> simp

variable {listing listing' : ReportsByStore}

theorem ranked_perm (listing : ReportsByStore) : (ranked listing).Perm (candidates listing) :=
  List.mergeSort_perm _ _

theorem ranked_outline (hperm : (candidates listing).Perm (candidates listing')) :
    (ranked listing).map Owner.outline = (ranked listing').map Owner.outline := by
  have hranked : (ranked listing).Perm (ranked listing') :=
    ((ranked_perm listing).trans hperm).trans (ranked_perm listing').symm
  exact map_eq_of_sorted rank_trans outline_eq_iff (hranked.map Owner.outline)
    (ranked_sorted listing) (ranked_sorted listing')

/-- The sweep commutes with forgetting all but the outlines. -/
theorem sweep_outline (listing : ReportsByStore) :
    (sweep none (ranked listing)).map Owner.outline =
      sweepAll Outline.interval [] ((ranked listing).map Owner.outline) := by
  rw [sweep_ranked]
  exact sweepAll_map Outline.interval Owner.outline [] (ranked listing)

theorem outline_resolve (listing : ReportsByStore) :
    (resolve listing).outline = (sweep none (ranked listing)).map Owner.outline := by
  rw [RoutingTable.outline, resolve, ofOwners_entries (sweep_order listing), List.map_map]
  rfl

theorem keys_of_outline (table : RoutingTable) :
    table.keys = table.outline.map Outline.interval := by
  rw [SortedMap.keys, RoutingTable.outline, List.map_map]
  rfl

/-- The order of the candidates does not show in the outlines of the table. -/
theorem outline_resolve_eq (hperm : (candidates listing).Perm (candidates listing')) :
    (resolve listing).outline = (resolve listing').outline := by
  rw [outline_resolve, outline_resolve, sweep_outline, sweep_outline, ranked_outline hperm]

/-- Where no two candidates have one outline, their order does not show in the
table at all. -/
theorem resolve_eq_of_nodup (hperm : (candidates listing).Perm (candidates listing'))
    (hnodup : ((candidates listing).map Owner.outline).Nodup) :
    resolve listing = resolve listing' := by
  have hranked : (ranked listing).Perm (ranked listing') :=
    ((ranked_perm listing).trans hperm).trans (ranked_perm listing').symm
  have hsame : ranked listing = ranked listing' := by
    refine hranked.eq_of_pairwise ?_ (ranked_sorted listing) (ranked_sorted listing')
    intro a b ha hb hab hba
    have houtline : a.outline = b.outline := (outline_eq_iff a b).mpr ⟨hab, hba⟩
    have ha : a ∈ candidates listing := (ranked_perm listing).subset ha
    have hb : b ∈ candidates listing := hperm.symm.subset ((ranked_perm listing').subset hb)
    exact List.inj_on_of_nodup_map hnodup ha hb houtline
  rw [resolve, resolve, hsame]

end RangeKeeper
