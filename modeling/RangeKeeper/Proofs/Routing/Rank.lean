import RangeKeeper.Proofs.StableSort
import RangeKeeper.Routing.Resolve

/-!
The order of precedence among candidates. Spelled out it compares lower ends,
ids, epochs, versions the other way round, upper ends and store names, and where
all of these agree the place in the listing. The resolver reaches the same order
by a stable sort that looks at everything but the place.
-/

namespace RangeKeeper

/-- Of two candidates with their places in the listing, the first has
precedence. -/
def Precedes (c d : Owner × Nat) : Prop :=
  let a := c.1.report
  let b := d.1.report
  compareLowers a.interval.lower b.interval.lower = .lt ∨ a.interval.lower = b.interval.lower ∧
    (a.id.id < b.id.id ∨ a.id.id = b.id.id ∧
      (a.id.epoch < b.id.epoch ∨ a.id.epoch = b.id.epoch ∧
        (b.version < a.version ∨ a.version = b.version ∧
          (compareUppers a.interval.upper b.interval.upper = .lt ∨
            a.interval.upper = b.interval.upper ∧
              (c.1.store < d.1.store ∨ c.1.store = d.1.store ∧ c.2 < d.2)))))

/-- The replica is listed behind as many others as its place says. -/
def Listed (listing : ReportsByStore) (c : Owner × Nat) : Prop :=
  ∃ before ahead behind after,
    listing = before ++ (c.1.store, ahead ++ c.1.report :: behind) :: after ∧
      c.2 = (before.flatMap Prod.snd).length + ahead.length

/-- A leader whose interval is not empty, at its place in the listing. -/
structure Eligible (listing : ReportsByStore) (c : Owner × Nat) : Prop where
  listed : Listed listing c
  leader : c.1.report.role = .leader
  nonempty : c.1.report.interval.isEmpty = false

def Owner.mayOwn (o : Owner) : Bool := o.report.isLeader && !o.report.interval.isEmpty

def rankedReplicas (listing : ReportsByStore) : List (Owner × Nat) :=
  ((allReplicas listing).zipIdx.filter fun c => c.1.mayOwn).mergeSort
    fun c d => (c.1.rank d.1).isLE

theorem precedes_iff {c d : Owner × Nat} :
    Precedes c d ↔ c.1.rank d.1 = .lt ∨ c.1.rank d.1 = .eq ∧ c.2 < d.2 := by
  have hstore : compare c.1.store d.1.store = .lt ↔ c.1.store < d.1.store :=
    compareOfLessAndEq_eq_lt
  simp only [Precedes, Owner.rank, Interval.order, Ordering.then_eq_lt, Ordering.then_eq_eq,
    compareLowers_eq_eq, compareUppers_eq_eq, Std.LawfulEqOrd.compare_eq_iff_eq, Std.compare_eq_lt,
    hstore]
  grind

instance : Std.TransCmp compareLowers where
  eq_swap {a b} := compareLowers_swap a b
  isLE_trans {a b c} hab hbc := by
    simp only [Ordering.isLE_iff_eq_lt_or_eq_eq, compareLowers_eq_eq] at *
    rcases hab with hab | rfl
    · rcases hbc with hbc | rfl
      · exact .inl (compareLowers_lt_trans hab hbc)
      · exact .inl hab
    · exact hbc

theorem transCmp_on {α β : Type} {cmp : β → β → Ordering} [Std.TransCmp cmp] (f : α → β) :
    Std.TransCmp fun a b => cmp (f a) (f b) where
  eq_swap := Std.OrientedCmp.eq_swap
  isLE_trans := Std.TransCmp.isLE_trans

instance : Std.TransCmp fun a b : Owner =>
    compareLowers a.report.interval.lower b.report.interval.lower :=
  transCmp_on fun o : Owner => o.report.interval.lower

instance : Std.TransCmp Owner.rank :=
  inferInstanceAs (Std.TransCmp
    (compareLex (compareLex (compareLex (compareLex (compareLex
      (fun a b : Owner => compareLowers a.report.interval.lower b.report.interval.lower)
      (compareOn fun o : Owner => o.report.id.id))
      (compareOn fun o : Owner => o.report.id.epoch))
      (fun a b => compareOn (fun o : Owner => o.report.version) b a))
      (compareOn fun o : Owner => o.report.interval))
      (compareOn fun o : Owner => o.store)))

theorem rank_swap (a b : Owner) : b.rank a = (a.rank b).swap := Std.OrientedCmp.eq_swap

theorem rank_trans (a b c : Owner) (hab : (a.rank b).isLE = true) (hbc : (b.rank c).isLE = true) :
    (a.rank c).isLE = true :=
  Std.TransCmp.isLE_trans hab hbc

theorem rank_total (a b : Owner) : ((a.rank b).isLE || (b.rank a).isLE) = true := by
  rw [rank_swap a b]
  cases a.rank b <;> rfl

namespace Precedes

variable {c d : Owner × Nat}

theorem asymm (h : Precedes c d) : ¬Precedes d c := by
  intro hback
  rw [precedes_iff] at h hback
  rw [rank_swap c.1 d.1] at hback
  rcases h with h | ⟨h, hplace⟩
  · simp [h] at hback
  · simp only [h, Ordering.swap_eq, reduceCtorEq, true_and, false_or] at hback
    omega

theorem trans {e : Owner × Nat} (hcd : Precedes c d) (hde : Precedes d e) : Precedes c e := by
  rw [precedes_iff] at *
  rcases hcd with hcd | ⟨hcd, hplace⟩
  · refine .inl (Std.TransCmp.lt_of_lt_of_isLE hcd ?_)
    rcases hde with hde | ⟨hde, _⟩ <;> rw [hde] <;> rfl
  · rw [Std.TransCmp.congr_left hcd]
    rcases hde with hde | ⟨hde, hplace'⟩
    · exact .inl hde
    · exact .inr ⟨hde, Nat.lt_trans hplace hplace'⟩

theorem lowers_le (h : Precedes c d) :
    compareLowers c.1.report.interval.lower d.1.report.interval.lower ≠ .gt := by
  rcases h with h | ⟨h, _⟩
  · simp [h]
  · rw [compareLowers_eq_eq.mpr h]
    simp

end Precedes

section Listing

variable {α : Type} {listing : ReportsByStore} {c : Owner × Nat}

theorem split_at_place {l : List α} {n : Nat} {x : α} (h : l[n]? = some x) :
    ∃ ahead behind, l = ahead ++ x :: behind ∧ n = ahead.length := by
  obtain ⟨hn, rfl⟩ := List.getElem?_eq_some_iff.mp h
  refine ⟨l.take n, l.drop (n + 1), ?_, (List.length_take_of_le (Nat.le_of_lt hn)).symm⟩
  rw [← List.drop_eq_getElem_cons hn, List.take_append_drop]

theorem length_allReplicas (listing : ReportsByStore) :
    (allReplicas listing).length = (listing.flatMap Prod.snd).length := by
  simp [allReplicas, List.length_flatMap]

theorem Listed.mem (h : Listed listing c) : c ∈ (allReplicas listing).zipIdx := by
  obtain ⟨before, ahead, behind, after, rfl, hplace⟩ := h
  have hsplit : allReplicas (before ++ (c.1.store, ahead ++ c.1.report :: behind) :: after) =
      (allReplicas before ++ ahead.map fun r => ⟨r, c.1.store⟩) ++
        c.1 :: ((behind.map fun r => ⟨r, c.1.store⟩) ++ allReplicas after) := by
    simp [allReplicas]
  rw [List.mem_zipIdx_iff_getElem?, hsplit, List.getElem?_append_right]
  · simp [hplace, length_allReplicas]
  · simp [hplace, length_allReplicas]

theorem listed_of_getElem? {o : Owner} {place : Nat}
    (h : (allReplicas listing)[place]? = some o) : Listed listing (o, place) := by
  induction listing generalizing place with
  | nil => simp [allReplicas] at h
  | cons group rest ih =>
      have hcons : allReplicas (group :: rest) =
          (group.2.map fun r => ⟨r, group.1⟩) ++ allReplicas rest := rfl
      rw [hcons, List.getElem?_append, List.length_map] at h
      split at h
      next =>
        rw [List.getElem?_map, Option.map_eq_some_iff] at h
        obtain ⟨r, hr, rfl⟩ := h
        obtain ⟨ahead, behind, hsplit, rfl⟩ := split_at_place hr
        exact ⟨[], ahead, behind, rest, by rw [← hsplit]; rfl, by simp⟩
      next hbehind =>
        obtain ⟨before, ahead, behind, after, rfl, hplace⟩ := ih h
        refine ⟨group :: before, ahead, behind, after, rfl, ?_⟩
        simp only [List.flatMap_cons, List.length_append] at hplace ⊢
        omega

/-- The replicas with their places are those of the listing. -/
theorem mem_allReplicas_zipIdx : c ∈ (allReplicas listing).zipIdx ↔ Listed listing c :=
  ⟨fun h => listed_of_getElem? (List.mem_zipIdx_iff_getElem?.mp h), Listed.mem⟩

theorem eligible_iff : Eligible listing c ↔ Listed listing c ∧ c.1.mayOwn = true := by
  simp only [Owner.mayOwn, RangeReport.isLeader, Bool.and_eq_true, decide_eq_true_eq,
    Bool.not_eq_true']
  constructor
  · intro h
    exact ⟨h.listed, h.leader, h.nonempty⟩
  · rintro ⟨hlisted, hleader, hnonempty⟩
    exact ⟨hlisted, hleader, hnonempty⟩

theorem mem_rankedReplicas : c ∈ rankedReplicas listing ↔ Eligible listing c := by
  rw [rankedReplicas, List.mem_mergeSort, List.mem_filter, mem_allReplicas_zipIdx, eligible_iff]

/-- A candidate has a place in the listing. -/
theorem exists_place {o : Owner} (h : o ∈ candidates listing) :
    ∃ place, Eligible listing (o, place) := by
  obtain ⟨hmem, hmay⟩ := List.mem_filter.mp h
  obtain ⟨place, hplace⟩ := List.mem_iff_getElem?.mp hmem
  exact ⟨place, eligible_iff.mpr ⟨listed_of_getElem? hplace, hmay⟩⟩

end Listing

theorem placed_rank_trans (c d e : Owner × Nat) (hcd : (c.1.rank d.1).isLE = true)
    (hde : (d.1.rank e.1).isLE = true) : (c.1.rank e.1).isLE = true :=
  rank_trans c.1 d.1 e.1 hcd hde

theorem placed_rank_total (c d : Owner × Nat) :
    ((c.1.rank d.1).isLE || (d.1.rank c.1).isLE) = true :=
  rank_total c.1 d.1

theorem rankedReplicas_owners (listing : ReportsByStore) :
    (rankedReplicas listing).map Prod.fst = ranked listing := by
  have hsorted : (rankedReplicas listing).map Prod.fst =
      (((allReplicas listing).zipIdx.filter fun c => c.1.mayOwn).map Prod.fst).mergeSort
        fun a b => (a.rank b).isLE := List.map_mergeSort fun _ _ _ _ => rfl
  have hcandidates : ((allReplicas listing).zipIdx.filter fun c => c.1.mayOwn).map Prod.fst =
      candidates listing := by
    conv_rhs => rw [candidates, ← List.zipIdx_map_fst 0 (allReplicas listing), List.filter_map]
    rfl
  rw [hsorted, hcandidates, ranked]

theorem zipIdx_pairwise_places (xs : List Owner) : xs.zipIdx.Pairwise fun c d => c.2 < d.2 := by
  rw [← List.pairwise_map, List.zipIdx_map_snd]
  exact List.pairwise_lt_range'

theorem rankedReplicas_precedes (listing : ReportsByStore) :
    (rankedReplicas listing).Pairwise Precedes := by
  have hplaces := (zipIdx_pairwise_places (allReplicas listing)).filter fun c => c.1.mayOwn
  refine (pairwise_mergeSort_stable placed_rank_trans placed_rank_total hplaces).imp ?_
  intro c d ⟨hle, htie⟩
  rw [precedes_iff]
  cases hcmp : c.1.rank d.1 with
  | lt => exact .inl rfl
  | gt => simp [hcmp] at hle
  | eq =>
      have hback : d.1.rank c.1 = .eq := by rw [rank_swap c.1 d.1, hcmp]; rfl
      exact .inr ⟨rfl, htie (by rw [hback]; rfl)⟩

theorem interval_of_rank_eq {a b : Owner} (h : a.rank b = .eq) :
    a.report.interval = b.report.interval := by
  simp only [Owner.rank, Ordering.then_eq_eq] at h
  exact Interval.order_eq_eq.mp h.1.2

theorem ranked_sorted (listing : ReportsByStore) :
    (ranked listing).Pairwise fun a b => (a.rank b).isLE = true :=
  List.pairwise_mergeSort rank_trans rank_total _

end RangeKeeper
