import Mathlib.Data.List.Nodup
import RangeKeeper.Proofs.Balance.Split

/-!
The order of preference among candidates when a density may be a NaN. Between
numbers the density decides before the ids, beside a NaN the ids decide alone.
The two agree as long as no NaN stands, by its id, between two candidates of
which the one with the greater id is the busier. This is just when the
preference is transitive; the candidates then come out sorted and, if each has
an id of its own, in the only sorted order there is, however the store lists its
ranges. Otherwise some are preferred in a circle.
-/

namespace RangeKeeper.SplitBalancer

/-- `c` is preferred to `d` or as good as `d`. -/
def MayPrecede (c d : Candidate) : Prop := (c.order d).isLE = true

instance (c d : Candidate) : Decidable (MayPrecede c d) :=
  inferInstanceAs (Decidable (_ = true))

/-- What may precede a candidate may precede all that the candidate may
precede. -/
def PrefersInLine (cs : List Candidate) : Prop :=
  ∀ a ∈ cs, ∀ b ∈ cs, ∀ c ∈ cs, MayPrecede a b → MayPrecede b c → MayPrecede a c

/-- No candidate whose density is a NaN has its id between the ids of two others
of which the one with the greater id is the busier. -/
def NoRiseAcrossNaN (cs : List Candidate) : Prop :=
  ∀ n ∈ cs, n.density.isNaN = true → ∀ c ∈ cs, ∀ d ∈ cs,
    (compare c.range.id n.range.id).isLE = true → (compare n.range.id d.range.id).isLE = true →
      c.density.lt d.density = false

def DistinctIds (cs : List Candidate) : Prop := (cs.map fun c => c.range.id).Nodup

instance (cs : List Candidate) : Decidable (NoRiseAcrossNaN cs) :=
  inferInstanceAs (Decidable (∀ _ ∈ _, _))

instance (cs : List Candidate) : Decidable (DistinctIds cs) :=
  inferInstanceAs (Decidable (List.Nodup _))

variable {settings : SplitSettings} {store : StoreId} {own : StoreReport}
variable {a b c d : Candidate} {cs cs' : List Candidate}

theorem Candidate.order_swap (c d : Candidate) : d.order c = (c.order d).swap := by
  have hids : compare d.range.id c.range.id = (compare c.range.id d.range.id).swap :=
    Std.OrientedCmp.eq_swap
  rw [Candidate.order, Candidate.order, Ordering.swap_then, hids,
    Double.order?_swap d.density c.density]
  cases d.density.order? c.density <;> rfl

theorem mayPrecede_total (c d : Candidate) : MayPrecede c d ∨ MayPrecede d c := by
  rw [MayPrecede, MayPrecede, Candidate.order_swap c d]
  cases c.order d <;> simp

/-- The busier candidate may precede, and one that is not less busy may if its
id comes first. -/
theorem mayPrecede_iff : MayPrecede c d ↔ d.density.lt c.density = true ∨
    c.density.lt d.density = false ∧ (compare c.range.id d.range.id).isLE = true := by
  rw [MayPrecede, Candidate.order, Ordering.isLE_then_iff_or, Double.lt, Double.lt,
    Double.order?_swap d.density c.density]
  cases d.density.order? c.density with
  | none => simp
  | some o => cases o <;> simp

theorem id_eq_of_mayPrecede (hcd : MayPrecede c d) (hdc : MayPrecede d c) :
    c.range.id = d.range.id := by
  rw [MayPrecede] at hcd
  rw [MayPrecede, Candidate.order_swap c d] at hdc
  have heq : c.order d = .eq := by
    cases hcmp : c.order d <;> simp [hcmp] at hcd hdc ⊢
  rw [Candidate.order, Ordering.then_eq_eq] at heq
  exact Std.LawfulEqOrd.eq_of_compare heq.2

theorem DistinctIds.eq_of_mayPrecede (hids : DistinctIds cs) (hc : c ∈ cs) (hd : d ∈ cs)
    (hcd : MayPrecede c d) (hdc : MayPrecede d c) : c = d :=
  List.inj_on_of_nodup_map hids hc hd (id_eq_of_mayPrecede hcd hdc)

/-- Sorted arrangements of the same candidates are equal. -/
theorem DistinctIds.sorted_unique (hids : DistinctIds cs) (hperm : cs'.Perm cs)
    (hcs' : cs'.Pairwise MayPrecede) (hcs : cs.Pairwise MayPrecede) : cs' = cs :=
  hperm.eq_of_pairwise
    (fun _ _ hc hd => hids.eq_of_mayPrecede (hperm.mem_iff.mp hc) hd) hcs' hcs

theorem id_le_of_not_le {i j : RangeId} (h : ¬(compare i j).isLE = true) :
    (compare j i).isLE = true := by
  apply Std.OrientedCmp.isLE_of_isGE
  cases hcmp : compare i j <;> simp [hcmp] at h ⊢

theorem NoRiseAcrossNaN.of_perm (h : NoRiseAcrossNaN cs) (hperm : cs'.Perm cs) :
    NoRiseAcrossNaN cs' := by
  intro n hn hnan c hc d hd
  exact h n (hperm.mem_iff.mp hn) hnan c (hperm.mem_iff.mp hc) d (hperm.mem_iff.mp hd)

/-- A NaN has both ids of a rise on one side: with that of the less busy
candidate before it the other is before it too, and with that of the busier one
behind it the other is behind it too. -/
theorem NoRiseAcrossNaN.id_le (h : NoRiseAcrossNaN cs) {n : Candidate} (hn : n ∈ cs)
    (hnan : n.density.isNaN = true) (hc : c ∈ cs) (hd : d ∈ cs)
    (hrise : c.density.lt d.density = true) :
    ((compare c.range.id n.range.id).isLE = true → (compare d.range.id n.range.id).isLE = true) ∧
      ((compare n.range.id d.range.id).isLE = true →
        (compare n.range.id c.range.id).isLE = true) := by
  have hnot : (compare c.range.id n.range.id).isLE = true →
      ¬(compare n.range.id d.range.id).isLE = true := by
    intro hcn hnd
    rw [h n hn hnan c hc d hd hcn hnd] at hrise
    cases hrise
  refine ⟨fun hcn => id_le_of_not_le (hnot hcn), fun hnd => ?_⟩
  by_contra hnc
  exact hnot (id_le_of_not_le hnc) hnd

theorem NoRiseAcrossNaN.prefersInLine (h : NoRiseAcrossNaN cs) : PrefersInLine cs := by
  intro a ha b hb c hc hab hbc
  rw [mayPrecede_iff] at *
  -- Each of the two goes by density or by id. With one of each the candidate
  -- that is only compared by id may be a NaN, and then stands on one side of
  -- the rise between the other two.
  rcases hab with hab | ⟨hab, hids⟩ <;> rcases hbc with hbc | ⟨hbc, hids'⟩
  · exact .inl (Double.lt_trans hbc hab)
  · cases hnan : c.density.isNaN with
    | false => exact .inl (Double.lt_of_not_lt_of_lt hnan hbc hab)
    | true => exact .inr ⟨Double.not_lt_of_isNaN (.inr hnan), (h.id_le hc hnan hb ha hab).1 hids'⟩
  · cases hnan : a.density.isNaN with
    | false => exact .inl (Double.lt_of_lt_of_not_lt hnan hbc hab)
    | true => exact .inr ⟨Double.not_lt_of_isNaN (.inl hnan), (h.id_le ha hnan hc hb hbc).2 hids⟩
  · refine .inr ⟨?_, Std.TransCmp.isLE_trans hids hids'⟩
    cases hnan : b.density.isNaN with
    | true => exact h b hb hnan a ha c hc hids hids'
    | false =>
        rw [Bool.eq_false_iff]
        intro hrise
        rw [Double.lt_of_not_lt_of_lt hnan hab hrise] at hbc
        cases hbc

/-- Across a NaN the ids alone would have the less busy candidate precede the
busier one. -/
theorem PrefersInLine.noRise (h : PrefersInLine cs) : NoRiseAcrossNaN cs := by
  intro n hn hnan c hc d hd hcn hnd
  have hbefore : MayPrecede c n :=
    mayPrecede_iff.mpr (.inr ⟨Double.not_lt_of_isNaN (.inr hnan), hcn⟩)
  have hbehind : MayPrecede n d :=
    mayPrecede_iff.mpr (.inr ⟨Double.not_lt_of_isNaN (.inl hnan), hnd⟩)
  rcases mayPrecede_iff.mp (h c hc n hn d hd hbefore hbehind) with hbusier | ⟨hnot, -⟩
  · rw [Bool.eq_false_iff]
    intro hrise
    have hself := Double.lt_iff.mp (Double.lt_trans hbusier hrise)
    omega
  · exact hnot

/-- A sorted arrangement of candidates with ids of their own shows that they are
preferred in line. -/
theorem DistinctIds.noRise_of_sorted (hids : DistinctIds cs) (hperm : cs'.Perm cs)
    (hcs' : cs'.Pairwise MayPrecede) : NoRiseAcrossNaN cs := by
  have hline : PrefersInLine cs' := trans_of_pairwise hcs' fun c hc d hd =>
    hids.eq_of_mayPrecede (hperm.mem_iff.mp hc) (hperm.mem_iff.mp hd)
  exact hline.noRise.of_perm hperm.symm

theorem candidates_sorted (h : NoRiseAcrossNaN (candidates settings own)) :
    (candidates settings own).Pairwise MayPrecede := by
  have hline := (h.of_perm (candidates_perm settings own).symm).prefersInLine
  rw [candidates_eq]
  refine pairwise_mergeSort_of_mem hline fun c _ d _ => ?_
  rw [Bool.or_eq_true]
  exact mayPrecede_total c d

section Relisted

variable {ranges : List RangeReport} (hranges : ranges.Perm own.ranges)

include hranges

theorem candidates_relisted (hids : DistinctIds (candidates settings own))
    (h : NoRiseAcrossNaN (candidates settings own)) :
    candidates settings { own with ranges := ranges } = candidates settings own := by
  have hjudged := hranges.filterMap (judge settings)
  have hperm : (candidates settings { own with ranges := ranges }).Perm (candidates settings own) :=
    (candidates_perm settings _).trans (hjudged.trans (candidates_perm settings own).symm)
  exact hids.sorted_unique hperm (candidates_sorted (h.of_perm hperm)) (candidates_sorted h)

theorem length_awaiting_relisted :
    (awaiting settings { own with ranges := ranges }).length = (awaiting settings own).length := by
  rw [length_awaiting, length_awaiting]
  exact (hranges.filter _).length_eq

theorem pick_relisted (hids : DistinctIds (candidates settings own))
    (h : NoRiseAcrossNaN (candidates settings own)) :
    pick settings store { own with ranges := ranges } = pick settings store own := by
  rw [pick, pick, length_awaiting_relisted hranges, candidates_relisted hranges hids h]
  rfl

end Relisted

theorem propose_of_first {reports : List StoreReport}
    (hfirst : First (fun s => s.store = store) reports own) :
    propose settings store reports = pick settings store own := by
  rw [propose, reportOf?_eq_some.mpr hfirst]
  rfl

theorem first_of_one (hown : own.store = store) :
    First (fun s => s.store = store) [own] own :=
  ⟨[], [], rfl, hown, by simp⟩

/-- The preference is total, and on the candidates of a store it is transitive
exactly when no NaN stands between two of them whose densities rise with their
ids. Only then can candidates with ids of their own be sorted at all. The
candidates then come out sorted, in the only order there is if their ids are
their own, and the proposal does not depend on the order in which the store
lists its ranges. -/
theorem preference_sorts_unless_nan_between (settings : SplitSettings) (store : StoreId)
    (own : StoreReport) :
    (∀ c d : Candidate, MayPrecede c d ∨ MayPrecede d c) ∧
    (PrefersInLine (candidates settings own) ↔ NoRiseAcrossNaN (candidates settings own)) ∧
    (NoRiseAcrossNaN (candidates settings own) →
      (candidates settings own).Pairwise MayPrecede) ∧
    (DistinctIds (candidates settings own) →
      ((∃ cs : List Candidate, cs.Perm (candidates settings own) ∧ cs.Pairwise MayPrecede) ↔
        NoRiseAcrossNaN (candidates settings own)) ∧
      (NoRiseAcrossNaN (candidates settings own) →
        (∀ cs : List Candidate, cs.Perm (candidates settings own) → cs.Pairwise MayPrecede →
          cs = candidates settings own) ∧
        ∀ ranges : List RangeReport, ranges.Perm own.ranges → ∀ reports reports',
          First (fun s => s.store = store) reports own →
          First (fun s => s.store = store) reports' { own with ranges := ranges } →
            propose settings store reports' = propose settings store reports)) := by
  refine ⟨mayPrecede_total, ⟨PrefersInLine.noRise, NoRiseAcrossNaN.prefersInLine⟩,
    candidates_sorted,
    fun hids => ⟨⟨?_, ?_⟩, fun h => ⟨?_, ?_⟩⟩⟩
  · rintro ⟨cs, hperm, hsorted⟩
    exact hids.noRise_of_sorted hperm hsorted
  · intro h
    exact ⟨_, .refl _, candidates_sorted h⟩
  · intro cs hperm hsorted
    exact hids.sorted_unique hperm hsorted (candidates_sorted h)
  · intro ranges hranges reports reports' hfirst hfirst'
    rw [propose_of_first hfirst, propose_of_first hfirst']
    exact pick_relisted hranges hids h

def ratedRange (id : UInt64) (density : Double) : RangeReport :=
  ⟨⟨id, 0⟩, .full, .leader, 0, .normal,
    [⟨"kv_io_mutation", .ofList [("ioDensity", density)], some [0x6d]⟩]⟩

def rated (id : UInt64) (density : Double) : Candidate :=
  ⟨ratedRange id density, density, [0x6d]⟩

def ratedStore (ranges : List RangeReport) : StoreReport := ⟨"near", ranges, .empty⟩

/-- A NaN stands between two candidates whose densities fall. -/
theorem preference_sorts_across_nan :
    let own := ratedStore [ratedRange 1 (.ofNat 50), ratedRange 2 .nan, ratedRange 3 (.ofNat 40)]
    let turned := ratedStore [ratedRange 3 (.ofNat 40), ratedRange 1 (.ofNat 50), ratedRange 2 .nan]
    DistinctIds (candidates {} own) ∧ NoRiseAcrossNaN (candidates {} own) ∧
      PrefersInLine (candidates {} own) ∧ turned.ranges.Perm own.ranges ∧
      propose {} "near" [turned] = propose {} "near" [own] := by
  intro own turned
  have hcandidates : candidates {} own =
      [rated 1 (.ofNat 50), rated 2 .nan, rated 3 (.ofNat 40)] := by
    have hjudged : own.ranges.filterMap (judge {}) =
        [rated 1 (.ofNat 50), rated 2 .nan, rated 3 (.ofNat 40)] := rfl
    rw [candidates_eq, hjudged]
    exact List.mergeSort_of_pairwise (by decide +kernel)
  have hids : DistinctIds (candidates {} own) := by
    rw [hcandidates]
    decide
  have hrise : NoRiseAcrossNaN (candidates {} own) := by
    rw [hcandidates]
    decide +kernel
  have hturned : turned.ranges.Perm own.ranges :=
    (List.perm_append_singleton (ratedRange 3 (.ofNat 40)) _).symm
  obtain ⟨-, hline, -, hsorts⟩ := preference_sorts_unless_nan_between {} "near" own
  obtain ⟨-, hrelisted⟩ := (hsorts hids).2 hrise
  exact ⟨hids, hrise, hline.mpr hrise, hturned,
    hrelisted turned.ranges hturned [own] [turned] (first_of_one rfl) (first_of_one rfl)⟩

/-- The candidate proposed of four has won its pair and then the final. -/
theorem propose_of_four {ranges : List RangeReport} {c₁ c₂ c₃ c₄ : Candidate} (best : Candidate)
    (hjudged : (ratedStore ranges).ranges.filterMap (judge {}) = [c₁, c₂, c₃, c₄])
    (hfew : (waiting "kv_io_mutation" (ratedStore ranges)).length < 30)
    (hbest : (let first := if (c₁.order c₂).isLE then c₁ else c₂
      let second := if (c₃.order c₄).isLE then c₃ else c₄
      if (first.order second).isLE then first else second) = best) :
    propose {} "near" [ratedStore ranges] =
      some (.split ⟨best.range.id, "near", best.range.version, best.splitKey⟩) := by
  have hfirst : First (fun s => s.store = "near") [ratedStore ranges] (ratedStore ranges) :=
    first_of_one rfl
  have hhead : (candidates {} (ratedStore ranges)).head? = some best := by
    rw [candidates_eq, hjudged, head?_mergeSort_four, hbest]
  rw [propose_of_first hfirst]
  exact pick_eq_some_iff.mpr ⟨rfl, hfew, best, hhead, rfl⟩

/-- Two NaNs stand between two candidates whose densities rise: the first is
preferred to a NaN by its id, the NaN to the last, and the last to the first by
its density. No arrangement of the four is in order, and which of them is to be
split depends on which the store lists first. -/
theorem nan_prefers_in_a_circle :
    let ranges := [ratedRange 1 (.ofNat 40), ratedRange 2 .nan, ratedRange 3 .nan,
      ratedRange 4 (.ofNat 50)]
    let turned := [ratedRange 2 .nan, ratedRange 3 .nan, ratedRange 4 (.ofNat 50),
      ratedRange 1 (.ofNat 40)]
    Balancer.split? "near" {} = .ok ⟨"range_split", "near", propose {} "near"⟩ ∧
      DistinctIds (candidates {} (ratedStore ranges)) ∧
      ¬PrefersInLine (candidates {} (ratedStore ranges)) ∧
      (∀ cs : List Candidate, cs.Perm (candidates {} (ratedStore ranges)) →
        ¬cs.Pairwise MayPrecede) ∧
      turned.Perm ranges ∧
      propose {} "near" [ratedStore ranges] = some (.split ⟨⟨1, 0⟩, "near", 0, [0x6d]⟩) ∧
      propose {} "near" [ratedStore turned] = some (.split ⟨⟨2, 0⟩, "near", 0, [0x6d]⟩) := by
  intro ranges turned
  have hjudged : (ratedStore ranges).ranges.filterMap (judge {}) =
      [rated 1 (.ofNat 40), rated 2 .nan, rated 3 .nan, rated 4 (.ofNat 50)] := rfl
  have hjudged' : (ratedStore turned).ranges.filterMap (judge {}) =
      [rated 2 .nan, rated 3 .nan, rated 4 (.ofNat 50), rated 1 (.ofNat 40)] := rfl
  have hperm := candidates_perm {} (ratedStore ranges)
  rw [hjudged] at hperm
  have hids : DistinctIds (candidates {} (ratedStore ranges)) := by
    have hlisted :
        DistinctIds [rated 1 (.ofNat 40), rated 2 .nan, rated 3 .nan, rated 4 (.ofNat 50)] :=
      by decide
    exact (hperm.map _).nodup_iff.mpr hlisted
  have hrise : ¬NoRiseAcrossNaN (candidates {} (ratedStore ranges)) := by
    intro hrise
    have hlisted := hrise.of_perm hperm.symm
    revert hlisted
    decide +kernel
  refine ⟨rfl, hids, fun hline => hrise hline.noRise, fun cs hcs hsorted => ?_, ?_, ?_, ?_⟩
  · exact hrise (hids.noRise_of_sorted hcs hsorted)
  · exact List.perm_append_singleton (ratedRange 1 (.ofNat 40))
      [ratedRange 2 .nan, ratedRange 3 .nan, ratedRange 4 (.ofNat 50)]
  · exact propose_of_four (rated 1 (.ofNat 40)) hjudged (by decide +kernel) rfl
  · exact propose_of_four (rated 2 .nan) hjudged' (by decide +kernel) rfl

end RangeKeeper.SplitBalancer
