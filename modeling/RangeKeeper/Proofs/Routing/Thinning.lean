import RangeKeeper.Proofs.Routing.Outline
import RangeKeeper.Routing.View

/-!
Replicas that own nothing. A candidate that is refused does not move the
interval which later ones are compared with, so it makes no difference whether
it is there. What becomes of the table when replicas are deleted is said by
place: of several copies of one report the first owns the entry, and the others
may go. Only the order within each store counts for that, since two stores never
tie.
-/

namespace RangeKeeper

variable {α : Type} {before after again listing listing' : ReportsByStore} {stays : Nat → Bool}

/-- Every store has the same replicas in both lists, in the same order. How the
stores follow one another is left open, and a store without replicas need not be
listed. -/
def StoreByStore (xs ys : List Owner) : Prop :=
  ∀ store, xs.filter (fun o => o.store = store) = ys.filter fun o => o.store = store

/-- After the deletion of some replicas, none of which owns an entry, the rest
is listed as before. -/
structure Thinned (before after : ReportsByStore) (stays : Nat → Bool) : Prop where
  owners : ∀ c ∈ ownerPlaces before, stays c.2 = true
  rest : StoreByStore (allReplicas after)
    (((allReplicas before).zipIdx.filter fun c => stays c.2).map Prod.fst)

/-- What is refused leaves no trace: without it the same is accepted. -/
theorem sweepAll_filter (interval : α → Interval) (accepted xs : List α) {p : α → Bool}
    (hp : ∀ x ∈ sweepAll interval accepted xs, p x = true) :
    sweepAll interval accepted (xs.filter p) = sweepAll interval accepted xs := by
  induction xs generalizing accepted with
  | nil => rfl
  | cons x rest ih =>
      rw [sweepAll] at hp ⊢
      split at hp
      next hrefused =>
        rw [if_pos hrefused, List.filter_cons]
        split
        · rw [sweepAll, if_pos hrefused]
          exact ih accepted hp
        · exact ih accepted hp
      next haccepted =>
        obtain ⟨hx, hrest⟩ := List.forall_mem_cons.mp hp
        rw [if_neg haccepted, List.filter_cons_of_pos hx, sweepAll, if_neg haccepted]
        exact congrArg (x :: ·) (ih (accepted ++ [x]) hrest)

/-- Of intervals that are apart none is refused. -/
theorem sweepAll_apart (interval : α → Interval) (accepted xs : List α)
    (hxs : (accepted ++ xs).Pairwise fun x y => (interval x).overlaps (interval y) = false) :
    sweepAll interval accepted xs = xs := by
  induction xs generalizing accepted with
  | nil => rfl
  | cons x rest ih =>
      have hfree : ∀ y ∈ accepted, (interval y).overlaps (interval x) = false := fun y hy =>
        (List.pairwise_append.mp hxs).2.2 y hy x (by simp)
      rw [sweepAll, if_neg (by simpa using hfree), ih (accepted ++ [x]) (by simpa using hxs)]

/-- The owners at their places are the owners in the table. -/
theorem ownerPlaces_owners (listing : ReportsByStore) :
    (ownerPlaces listing).map Prod.fst = (resolve listing).values := by
  rw [values_resolve, sweep_owners]

/-- A replica has one place only. -/
theorem ownerPlaces_nodup (listing : ReportsByStore) :
    ((ownerPlaces listing).map Prod.snd).Nodup := by
  have hplaces : ((rankedReplicas listing).map Prod.snd).Nodup := by
    rw [rankedReplicas, ((List.mergeSort_perm _ _).map Prod.snd).nodup_iff]
    have hall : ((allReplicas listing).zipIdx.map Prod.snd).Nodup := by
      rw [List.zipIdx_map_snd]
      exact List.nodup_range'
    exact hall.sublist (List.filter_sublist.map Prod.snd)
  exact hplaces.sublist ((sweepAll_sublist _ _ _).map Prod.snd)

/-- Sorting leaves the replicas of one outline as they are listed. -/
theorem filter_rankedReplicas (listing : ReportsByStore) (s : Outline) :
    (rankedReplicas listing).filter (fun c => c.1.outline = s) =
      ((allReplicas listing).zipIdx.filter fun c => c.1.mayOwn).filter fun c => c.1.outline = s :=
  filter_mergeSort placed_rank_trans (fun c d => outline_eq_iff c.1 d.1) placed_rank_total _ s

theorem rankedReplicas_sorted (listing : ReportsByStore) :
    (rankedReplicas listing).Pairwise fun c d => (c.1.rank d.1).isLE = true :=
  List.pairwise_mergeSort placed_rank_trans placed_rank_total _

/-- The replicas of one outline are those of one store. -/
theorem filter_outline (xs : List Owner) (s : Outline) :
    (xs.filter Owner.mayOwn).filter (fun o => o.outline = s) =
      ((xs.filter fun o => o.store = s.store).filter Owner.mayOwn).filter
        fun o => o.outline = s := by
  simp only [List.filter_filter]
  refine List.filter_congr fun o _ => ?_
  by_cases hs : o.outline = s
  · have hstore : o.store = s.store := congrArg Outline.store hs
    simp [hstore]
  · simp [hs]

/-- What stays of the candidates, by precedence, are the candidates of what
stays. -/
theorem Thinned.ranked_eq (h : Thinned before after stays) :
    ((rankedReplicas before).filter fun c => stays c.2).map Prod.fst = ranked after := by
  refine eq_mergeSort rank_trans outline_eq_iff rank_total ?_ fun s => ?_
  · exact List.pairwise_map.mpr ((rankedReplicas_sorted before).filter _)
  · calc (((rankedReplicas before).filter fun c => stays c.2).map Prod.fst).filter
          (fun o => o.outline = s)
        = (((rankedReplicas before).filter fun c => c.1.outline = s).filter
            fun c => stays c.2).map Prod.fst := by
          simp [List.filter_map, List.filter_filter, Function.comp_def, Bool.and_comm]
      _ = ((((allReplicas before).zipIdx.filter fun c => stays c.2).map Prod.fst).filter
            Owner.mayOwn).filter (fun o => o.outline = s) := by
          rw [filter_rankedReplicas]
          simp [List.filter_map, List.filter_filter, Function.comp_def, Bool.and_assoc,
            Bool.and_comm]
      _ = ((allReplicas after).filter Owner.mayOwn).filter (fun o => o.outline = s) := by
          rw [filter_outline, ← h.rest s.store, ← filter_outline]
      _ = (candidates after).filter (fun o => o.outline = s) := rfl

theorem Thinned.resolve_eq (h : Thinned before after stays) : resolve after = resolve before := by
  have hstays := sweepAll_filter (fun c : Owner × Nat => c.1.interval) [] (rankedReplicas before)
    h.owners
  refine congrArg RoutingTable.ofOwners ?_
  calc sweep none (ranked after)
      = sweepAll Owner.interval []
          (((rankedReplicas before).filter fun c => stays c.2).map Prod.fst) := by
        rw [sweep_ranked, h.ranked_eq]
    _ = (ownerPlaces before).map Prod.fst := by
        rw [ownerPlaces, ← hstays]
        exact (sweepAll_map Owner.interval Prod.fst [] _).symm
    _ = sweep none (ranked before) := by rw [ownerPlaces_owners, values_resolve]

theorem Owner.apart_symm {a b : Owner} (hapart : a.interval.overlaps b.interval = false) :
    b.interval.overlaps a.interval = false := by
  rw [Interval.overlaps_comm]
  exact hapart

/-- Candidates that are apart are all kept. -/
theorem values_of_apart (h : (candidates listing).Pairwise fun a b =>
    a.interval.overlaps b.interval = false) :
    (resolve listing).values.Perm (candidates listing) := by
  have hranked := ((ranked_perm listing).pairwise_iff Owner.apart_symm).mpr h
  rw [values_resolve, sweep_ranked, sweepAll_apart Owner.interval [] _ (by simpa using hranked)]
  exact ranked_perm listing

/-- A table is known by its owners. -/
theorem resolve_eq_of_owners (h : (resolve listing).values.Perm (resolve listing').values) :
    resolve listing = resolve listing' := by
  rw [values_resolve, values_resolve] at h
  refine congrArg RoutingTable.ofOwners ?_
  refine h.eq_of_pairwise ?_ (sweep_leftOf listing) (sweep_leftOf listing')
  intro a b ha hb hab hba
  have hlt := hab.lowers_lt (valid_of_swept ha)
  rw [compareLowers_swap, hba.lowers_lt (valid_of_swept hb)] at hlt
  cases hlt

theorem candidates_of_owners (h : (allReplicas again).Perm (resolve listing).values) :
    candidates again = allReplicas again := by
  refine List.filter_eq_self.mpr fun o ho => ?_
  obtain ⟨place, hkept⟩ := mem_values_resolve.mp (h.subset ho)
  exact (eligible_iff.mp (eligible_of_kept hkept)).2

/-- Resolving the owners of a table gives the table again. -/
theorem resolve_owners (h : (allReplicas again).Perm (resolve listing).values) :
    resolve again = resolve listing := by
  have hcandidates := candidates_of_owners h
  have hapart : (candidates again).Pairwise fun a b => a.interval.overlaps b.interval = false := by
    rw [hcandidates, h.pairwise_iff Owner.apart_symm, values_resolve]
    exact (sweep_leftOf listing).imp fun hleft => hleft.apart
  refine resolve_eq_of_owners ((values_of_apart hapart).trans ?_)
  rw [hcandidates]
  exact h

/-- Candidates that are apart are all kept, wherever they are listed. -/
theorem ownerPlaces_of_apart (h : ∀ c d, Eligible listing c → Eligible listing d → c.2 ≠ d.2 →
    c.1.interval.overlaps d.1.interval = false) {c : Owner × Nat} :
    c ∈ ownerPlaces listing ↔ Eligible listing c := by
  refine ⟨eligible_of_kept, fun hc => mem_ownerPlaces.mpr ⟨hc, fun d hd hprecedes => ?_⟩⟩
  by_cases hplace : d.2 = c.2
  · -- Two candidates at one place are one candidate, which does not precede itself.
    have hsame : d = c := by
      have hdlisted := List.mem_zipIdx_iff_getElem?.mp (eligible_of_kept hd).listed.mem
      have hclisted := List.mem_zipIdx_iff_getElem?.mp hc.listed.mem
      rw [hplace, hclisted] at hdlisted
      exact Prod.ext (Option.some.inj hdlisted).symm hplace
    rw [hsame] at hprecedes
    exact absurd hprecedes hprecedes.asymm
  · exact h d c (eligible_of_kept hd) hc hplace

/-- Replicas that own nothing have no influence: the owners sit at certain
places of the listing, and whatever is deleted at other places, the table and
its gaps stay as they are. So the owners alone give the table again, and leaders
whose intervals are not empty and do not overlap all own them. -/
theorem losers_have_no_influence (before : ReportsByStore) :
    (∀ c, c ∈ (allReplicas before).zipIdx ↔ Listed before c) ∧
    (ownerPlaces before).map Prod.fst = (resolve before).values ∧
    ((ownerPlaces before).map Prod.snd).Nodup ∧
    (∀ after stays, Thinned before after stays →
      resolve after = resolve before ∧ findGaps after = findGaps before) ∧
    (∀ again, (allReplicas again).Perm (resolve before).values → resolve again = resolve before) ∧
    ((∀ c d, Eligible before c → Eligible before d → c.2 ≠ d.2 →
        c.1.interval.overlaps d.1.interval = false) →
      ∀ c, c ∈ ownerPlaces before ↔ Eligible before c) := by
  refine ⟨fun _ => mem_allReplicas_zipIdx, ownerPlaces_owners before, ownerPlaces_nodup before, ?_,
    fun _ => resolve_owners, fun hapart _ => ownerPlaces_of_apart hapart⟩
  intro after stays hthinned
  have hresolve := hthinned.resolve_eq
  exact ⟨hresolve, by rw [findGaps, findGaps, hresolve]⟩

def replicaOf (id : UInt64) (role : Role) (state : Lifecycle) (s e : Key) : RangeReport :=
  ⟨⟨id, 1⟩, ⟨some s, some e⟩, role, 0, state, []⟩

/-- The second range is refused for the first one and would have kept out the
third. The first one is reported twice by its store, and another store has
nothing that could own a key. -/
def chain : ReportsByStore :=
  [("store1", [replicaOf 1 .leader .normal [97] [99], replicaOf 1 .leader .merged [97] [99]]),
    ("store2", [replicaOf 2 .leader .normal [98] [101], replicaOf 3 .leader .normal [100] [102]]),
    ("store3", [replicaOf 4 .follower .normal [97] [122], replicaOf 5 .leader .normal [98] [97]])]

def chainOwners : ReportsByStore :=
  [("store2", [replicaOf 3 .leader .normal [100] [102]]),
    ("store1", [replicaOf 1 .leader .normal [97] [99]])]

theorem losers_have_no_influence_chain :
    Thinned chain chainOwners (fun place => place == 0 || place == 3) ∧
      resolve chainOwners = resolve chain ∧ findGaps chainOwners = findGaps chain ∧
      (allReplicas chainOwners.reverse).Perm (resolve chain).values ∧
      resolve chainOwners.reverse = resolve chain ∧
      (∀ c d, Eligible chainOwners c → Eligible chainOwners d → c.2 ≠ d.2 →
        c.1.interval.overlaps d.1.interval = false) ∧
      ∀ c, c ∈ ownerPlaces chainOwners ↔ Eligible chainOwners c := by
  have hranked : rankedReplicas chain =
      (allReplicas chain).zipIdx.filter fun c => c.1.mayOwn :=
    List.mergeSort_of_pairwise (by decide)
  have hplaces : ownerPlaces chain = [(⟨replicaOf 1 .leader .normal [97] [99], "store1"⟩, 0),
      (⟨replicaOf 3 .leader .normal [100] [102], "store2"⟩, 3)] := by
    rw [ownerPlaces, hranked]
    rfl
  have hthinned : Thinned chain chainOwners (fun place => place == 0 || place == 3) := by
    refine ⟨by simp [hplaces], fun store => ?_⟩
    by_cases hfirst : store = "store1"
    · subst hfirst
      rfl
    · by_cases hsecond : store = "store2"
      · subst hsecond
        rfl
      · simp [chain, chainOwners, allReplicas, Ne.symm hfirst, Ne.symm hsecond]
  have howners : (allReplicas chainOwners.reverse).Perm (resolve chain).values := by
    rw [← ownerPlaces_owners, hplaces]
    exact .refl _
  have hlisted : ∀ c ∈ (allReplicas chainOwners).zipIdx, ∀ d ∈ (allReplicas chainOwners).zipIdx,
      c.2 ≠ d.2 → c.1.interval.overlaps d.1.interval = false := by decide
  have hapart : ∀ c d, Eligible chainOwners c → Eligible chainOwners d → c.2 ≠ d.2 →
      c.1.interval.overlaps d.1.interval = false :=
    fun c d hc hd => hlisted c hc.listed.mem d hd.listed.mem
  obtain ⟨-, -, -, hthin, hagain, -⟩ := losers_have_no_influence chain
  obtain ⟨-, -, -, -, -, hkept⟩ := losers_have_no_influence chainOwners
  obtain ⟨hresolve, hgaps⟩ := hthin _ _ hthinned
  exact ⟨hthinned, hresolve, hgaps, howners, hagain _ howners, hapart, hkept hapart⟩

end RangeKeeper
