import RangeKeeper.Proofs.Routing.Coverage
import RangeKeeper.Proofs.Routing.Lookup

/-!
Reports of intervals that hold no key. The resolver drops an inverted interval
before it compares anything, so such a report changes nothing. The interval
before the empty key holds no key either, but counts as having room. Where it
comes first it is accepted, owns nothing, and displaces the range that is open
below.
-/

namespace RangeKeeper

open RangeKeeper.Interval

/-- The second listing has one report more, which may be the first of its
store. -/
inductive OneMore (store : StoreId) (r : RangeReport) : ReportsByStore → ReportsByStore → Prop where
  | listed (groups later : ReportsByStore) (before behind : List RangeReport) :
      OneMore store r (groups ++ (store, before ++ behind) :: later)
        (groups ++ (store, before ++ r :: behind) :: later)
  | first (groups later : ReportsByStore) :
      OneMore store r (groups ++ later) (groups ++ (store, [r]) :: later)

/-- The keyless `o` comes before the owner `h` that is open below and holds a
key. -/
structure Displaces (listing : ReportsByStore) (o h : Owner) : Prop where
  keyless : o.interval = beforeAll
  owner : h ∈ (resolve listing).values
  opensBelow : h.interval.lower = none
  holdsFirstKey : h.interval.containsKey [] = true
  before : o.rank h = .lt

variable {store : StoreId} {r : RangeReport} {before after listing : ReportsByStore}
variable {o h x : Owner} {xs ys : List Owner} {b : Interval}

theorem OneMore.replicas (hmore : OneMore store r before after) :
    ∃ xs ys, allReplicas before = xs ++ ys ∧ allReplicas after = xs ++ ⟨r, store⟩ :: ys := by
  cases hmore with
  | listed groups later first behind =>
      refine ⟨allReplicas groups ++ first.map fun r => ⟨r, store⟩,
        (behind.map fun r => ⟨r, store⟩) ++ allReplicas later, ?_, ?_⟩
      · simp [allReplicas]
      · simp [allReplicas]
  | first groups later =>
      refine ⟨allReplicas groups, allReplicas later, ?_, ?_⟩
      · simp [allReplicas]
      · simp [allReplicas]

theorem OneMore.ranked_empty (hmore : OneMore store r before after)
    (hempty : r.interval.isEmpty = true) : ranked after = ranked before := by
  obtain ⟨xs, ys, hbefore, hafter⟩ := hmore.replicas
  have hcandidates : candidates after = candidates before := by
    simp [candidates, hbefore, hafter, hempty]
  rw [ranked, hcandidates, ranked]

theorem OneMore.ranked_roomy (hmore : OneMore store r before after) (hleader : r.isLeader = true)
    (hroom : r.interval.isEmpty = false) :
    ∃ l₁ l₂, ranked after = l₁ ++ ⟨r, store⟩ :: l₂ ∧ ranked before = l₁ ++ l₂ := by
  obtain ⟨xs, ys, hbefore, hafter⟩ := hmore.replicas
  let eligible : Owner → Bool := fun o => o.report.isLeader && !o.report.interval.isEmpty
  have hwith : candidates after = xs.filter eligible ++ ⟨r, store⟩ :: ys.filter eligible := by
    simp [candidates, hafter, eligible, hleader, hroom]
  have hwithout : candidates before = xs.filter eligible ++ ys.filter eligible := by
    simp [candidates, hbefore, eligible]
  rw [ranked, ranked, hwith, hwithout]
  exact mergeSort_insert rank_trans rank_total _ _ _

theorem overlaps_of_open {a b : Interval} (ha : a.lower = none) (hb : b.lower = none) :
    a.overlaps b = true := by
  simp [overlaps, intersect, isEmpty, isValid, ha, hb, compareLowers]

theorem sweep_cons (x : Owner) (xs : List Owner) :
    sweep none (x :: xs) = x :: sweep (some x.interval) xs := rfl

/-- Behind an accepted interval that is open below no other such interval is
accepted. -/
theorem sweep_drop (xs ys : List Owner) (hb : b.lower = none)
    (hxs : ∀ x ∈ xs, x.interval.lower = none) :
    sweep (some b) (xs ++ ys) = sweep (some b) ys := by
  induction xs with
  | nil => rfl
  | cons x rest ih =>
      have hover : b.overlaps x.interval = true := overlaps_of_open hb (hxs x (by simp))
      rw [List.cons_append, sweep, Option.any_some, if_pos hover]
      exact ih fun y hy => hxs y (by simp [hy])

/-- The interval before the empty key is no hindrance where nothing is open
below. -/
theorem sweep_beforeAll (h : ∀ x rest, xs = x :: rest → x.interval.lower ≠ none) :
    sweep (some beforeAll) xs = sweep none xs := by
  cases xs with
  | nil => rfl
  | cons x rest =>
      obtain ⟨s, hs⟩ := Option.ne_none_iff_exists'.mp (h x rest rfl)
      have hleft : beforeAll.LeftOf x.interval := ⟨[], s, rfl, hs, List.nil_le s⟩
      rw [sweep, Option.any_some, if_neg (by simp [hleft.apart])]
      rfl

/-- Whoever comes before a candidate that is open below is open below. -/
theorem open_of_rank (hle : (x.rank o).isLE = true) (ho : o.interval.lower = none) :
    x.interval.lower = none := by
  cases hlower : x.interval.lower with
  | none => rfl
  | some s =>
      have hgt : x.rank o = .gt := by
        simp only [Owner.rank, hlower, ho, compareLowers, Ordering.then]
      rw [hgt] at hle
      cases hle

/-- The owner that is open below is the first candidate. -/
theorem open_owner_first (howner : h ∈ (resolve listing).values) (hopen : h.interval.lower = none) :
    ∃ rest, ranked listing = h :: rest := by
  have hleft := sweep_leftOf listing
  rw [values_resolve] at howner
  cases hranked : ranked listing with
  | nil =>
      rw [hranked] at howner
      cases howner
  | cons x rest =>
      rw [hranked, sweep_cons] at howner hleft
      rcases List.mem_cons.mp howner with rfl | hlater
      · exact ⟨rest, rfl⟩
      · obtain ⟨_, s, _, hs, _⟩ := (List.pairwise_cons.mp hleft).1 h hlater
        rw [hopen] at hs
        cases hs

theorem containsKey_nil_of_open (hopen : b.lower = none) (hroomy : b ≠ beforeAll) :
    b.containsKey [] = true := by
  refine containsKey_iff.mpr ⟨by simp [hopen], fun e he => ?_⟩
  cases e with
  | cons byte rest => exact List.nil_lt_cons byte rest
  | nil =>
      have hsame : b = beforeAll := by
        calc b = ⟨b.lower, b.upper⟩ := rfl
          _ = beforeAll := by rw [hopen, he, beforeAll]
      exact absurd hsame hroomy

theorem find?_keyless (xs : List Owner) (k : Key) (hx : x.interval.containsKey k = false) :
    (x :: xs).find? (fun o => o.interval.containsKey k) =
      xs.find? fun o => o.interval.containsKey k := by
  rw [List.find?_cons, hx]

/-- A candidate before the empty key that does not come first is refused. -/
theorem sweep_behind (ho : o.interval = beforeAll) (hafter : ranked after = x :: xs ++ o :: ys)
    (hbefore : ranked before = x :: xs ++ ys) :
    sweep none (ranked after) = sweep none (ranked before) := by
  have hopen : o.interval.lower = none := by rw [ho, beforeAll]
  have hsorted := ranked_sorted after
  rw [hafter] at hsorted
  have hall : ∀ y ∈ x :: xs, y.interval.lower = none := fun y hy =>
    open_of_rank ((List.pairwise_append.mp hsorted).2.2 y hy o (by simp)) hopen
  have hx : x.interval.lower = none := hall x (by simp)
  have hxs : ∀ y ∈ xs, y.interval.lower = none := fun y hy => hall y (by simp [hy])
  rw [hafter, hbefore, List.cons_append, List.cons_append, sweep_cons, sweep_cons,
    sweep_drop xs (o :: ys) hx hxs, sweep_drop xs ys hx hxs]
  exact congrArg (x :: ·) (sweep_drop [o] ys hx (by simpa using hopen))

/-- A candidate before the empty key that comes first displaces one with room
that is open below. -/
theorem displaces_of_first (ho : o.interval = beforeAll)
    (hafter : ranked after = o :: ranked before)
    (hbefore : ranked before = h :: xs) (hopen : h.interval.lower = none)
    (hroomy : h.interval ≠ beforeAll) : Displaces before o h := by
  have hle : (o.rank h).isLE = true := by
    have hsorted := ranked_sorted after
    rw [hafter, hbefore] at hsorted
    exact (List.pairwise_cons.mp hsorted).1 h (by simp)
  have howner : h ∈ (resolve before).values := by
    rw [values_resolve, hbefore, sweep_cons]
    exact List.mem_cons_self
  refine ⟨ho, howner, hopen, containsKey_nil_of_open hopen hroomy, ?_⟩
  cases hrank : o.rank h with
  | lt => rfl
  | gt => simp [hrank] at hle
  | eq =>
      have hsame : h.interval = o.interval := (interval_of_rank_eq hrank).symm
      exact absurd (hsame.trans ho) hroomy

/-- If it displaces none it changes no lookup. -/
theorem same_or_displaces (ho : o.interval = beforeAll)
    (hafter : ranked after = o :: ranked before) :
    (∀ k, (resolve after).findByKey? k = (resolve before).findByKey? k) ∨
      ∃ h, Displaces before o h := by
  have hkeyless : ∀ {x : Owner} (k : Key), x.interval = beforeAll →
      x.interval.containsKey k = false := by
    intro x k hx
    rw [hx]
    exact beforeAll_empty k
  have hfirst : sweep none (ranked after) = o :: sweep (some beforeAll) (ranked before) := by
    rw [hafter, sweep_cons, ho]
  by_cases hsecond : ∃ h rest, ranked before = h :: rest ∧ h.interval.lower = none
  · obtain ⟨h, rest, hbefore, hopen⟩ := hsecond
    by_cases hroomy : h.interval = beforeAll
    · refine .inl fun k => ?_
      have hdropped : sweep (some beforeAll) (h :: rest) = sweep (some beforeAll) rest :=
        sweep_drop [h] rest rfl (by simpa using hopen)
      rw [findByKey?_resolve, findByKey?_resolve, hfirst, hbefore, hdropped, sweep_cons, hroomy,
        find?_keyless _ k (hkeyless k ho), find?_keyless _ k (hkeyless k hroomy)]
    · exact .inr ⟨h, displaces_of_first ho hafter hbefore hopen hroomy⟩
  · refine .inl fun k => ?_
    have hsame : sweep (some beforeAll) (ranked before) = sweep none (ranked before) :=
      sweep_beforeAll fun x rest hbefore hopen => hsecond ⟨x, rest, hbefore, hopen⟩
    rw [findByKey?_resolve, findByKey?_resolve, hfirst, hsame, find?_keyless _ k (hkeyless k ho)]

namespace Displaces

/-- The displaced owner is the first candidate, so the new one can only stand
before it. -/
theorem comes_first (hd : Displaces before o h) (hafter : ranked after = xs ++ o :: ys)
    (hbefore : ranked before = xs ++ ys) : ranked after = o :: ranked before := by
  obtain ⟨rest, hfirst⟩ := open_owner_first hd.owner hd.opensBelow
  cases xs with
  | nil => rw [hafter, hbefore, List.nil_append, List.nil_append]
  | cons x xs =>
      have hsame : x = h := by
        rw [hbefore, List.cons_append] at hfirst
        exact (List.cons.inj hfirst).1
      have hle : (h.rank o).isLE = true := by
        have hsorted := ranked_sorted after
        rw [hafter, hsame] at hsorted
        exact (List.pairwise_cons.mp hsorted).1 o (by simp)
      rw [rank_swap o h, hd.before] at hle
      cases hle

theorem comes_first_of_more (hd : Displaces before ⟨r, store⟩ h)
    (hmore : OneMore store r before after) (hleader : r.isLeader = true) :
    ranked after = ⟨r, store⟩ :: ranked before := by
  have hkeyless : r.interval = beforeAll := hd.keyless
  have hroom : r.interval.isEmpty = false := by
    rw [hkeyless]
    rfl
  obtain ⟨xs, ys, hafter, hbefore⟩ := hmore.ranked_roomy hleader hroom
  exact hd.comes_first hafter hbefore

theorem owns_nil (hd : Displaces before o h) : (resolve before).findByKey? [] = some h := by
  obtain ⟨rest, hfirst⟩ := open_owner_first hd.owner hd.opensBelow
  rw [findByKey?_resolve, hfirst, sweep_cons, List.find?_cons, hd.holdsFirstKey]

theorem gone (hd : Displaces before o h) (hafter : ranked after = o :: ranked before) (k : Key) :
    (resolve after).findByKey? k ≠ some h := by
  intro hfound
  rw [findByKey?_resolve] at hfound
  have howner := List.mem_of_find?_eq_some hfound
  have hleft := sweep_leftOf after
  rw [hafter, sweep_cons] at howner hleft
  rcases List.mem_cons.mp howner with rfl | hlater
  · have hfirst := hd.holdsFirstKey
    rw [hd.keyless, beforeAll_empty] at hfirst
    cases hfirst
  · obtain ⟨_, s, _, hs, _⟩ := (List.pairwise_cons.mp hleft).1 h hlater
    rw [hd.opensBelow] at hs
    cases hs

end Displaces

theorem OneMore.same_lookups (hmore : OneMore store r before after) (hleader : r.isLeader = true)
    (hkeyless : ∀ k, r.interval.containsKey k = false)
    (hnone : ∀ h, ¬Displaces before ⟨r, store⟩ h) (k : Key) :
    (resolve after).findByKey? k = (resolve before).findByKey? k := by
  cases hroom : r.interval.isEmpty with
  | true => rw [findByKey?_resolve, findByKey?_resolve, hmore.ranked_empty hroom]
  | false =>
      have ho : Owner.interval ⟨r, store⟩ = beforeAll :=
        eq_beforeAll (Interval.isEmpty_eq_false.mp hroom) hkeyless
      obtain ⟨xs, ys, hafter, hbefore⟩ := hmore.ranked_roomy hleader hroom
      cases xs with
      | nil =>
          rw [List.nil_append] at hafter hbefore
          rw [← hbefore] at hafter
          rcases same_or_displaces ho hafter with hsame | ⟨h, hd⟩
          · exact hsame k
          · exact absurd hd (hnone h)
      | cons x xs => rw [findByKey?_resolve, findByKey?_resolve, sweep_behind ho hafter hbefore]

/-- A report whose interval holds no key owns no key. It leaves every lookup as
it was unless it displaces the owner that is open below; that owner is then
found nowhere any more. -/
theorem keyless_report_is_inert_unless_it_displaces (hmore : OneMore store r before after)
    (hleader : r.isLeader = true) (hkeyless : ∀ k, r.interval.containsKey k = false) :
    (∀ k, (resolve after).findByKey? k ≠ some ⟨r, store⟩) ∧
    ((∀ k, (resolve after).findByKey? k = (resolve before).findByKey? k) ↔
      ∀ h, ¬Displaces before ⟨r, store⟩ h) ∧
    ∀ h, Displaces before ⟨r, store⟩ h →
      (resolve before).findByKey? [] = some h ∧ ∀ k, (resolve after).findByKey? k ≠ some h := by
  have hlost : ∀ h, Displaces before ⟨r, store⟩ h →
      (resolve before).findByKey? [] = some h ∧ ∀ k, (resolve after).findByKey? k ≠ some h :=
    fun h hd => ⟨hd.owns_nil, hd.gone (hd.comes_first_of_more hmore hleader)⟩
  refine ⟨?_, ⟨?_, hmore.same_lookups hleader hkeyless⟩, hlost⟩
  · intro k hfound
    rw [findByKey?_resolve] at hfound
    have hcontains := List.find?_some hfound
    simp [Owner.interval, hkeyless k] at hcontains
  · intro hsame h hd
    obtain ⟨howned, hgone⟩ := hlost h hd
    exact hgone [] ((hsame []).trans howned)

def leaderOf (id : UInt64) (b : Interval) : RangeReport := ⟨⟨id, 1⟩, b, .leader, 0, .normal, []⟩

def reported (ranges : List RangeReport) : ReportsByStore := [("store1", ranges)]

theorem ranked_full : ranked (reported [leaderOf 2 .full]) = [⟨leaderOf 2 .full, "store1"⟩] :=
  List.mergeSort_singleton _

/-- With the greater id it comes behind the owner of everything and is
refused. -/
theorem keyless_report_is_inert_behind_owner :
    OneMore "store1" (leaderOf 3 beforeAll) (reported [leaderOf 2 .full])
        (reported [leaderOf 2 .full, leaderOf 3 beforeAll]) ∧
      (leaderOf 3 beforeAll).isLeader = true ∧
      (∀ k, (leaderOf 3 beforeAll).interval.containsKey k = false) ∧
      ∀ k, (resolve (reported [leaderOf 2 .full, leaderOf 3 beforeAll])).findByKey? k =
        (resolve (reported [leaderOf 2 .full])).findByKey? k := by
  have hmore : OneMore "store1" (leaderOf 3 beforeAll) (reported [leaderOf 2 .full])
      (reported [leaderOf 2 .full, leaderOf 3 beforeAll]) := .listed [] [] [leaderOf 2 .full] []
  obtain ⟨_, hinert, _⟩ :=
    keyless_report_is_inert_unless_it_displaces hmore rfl beforeAll_empty
  refine ⟨hmore, rfl, beforeAll_empty, hinert.mpr fun h hd => ?_⟩
  have howner := hd.owner
  rw [values_resolve, ranked_full] at howner
  cases List.mem_singleton.mp howner
  have hbefore := hd.before
  exact absurd hbefore (by decide)

/-- With the smaller id it comes first, and no key has an owner any more. -/
theorem keyless_report_takes_every_key :
    OneMore "store1" (leaderOf 1 beforeAll) (reported [leaderOf 2 .full])
        (reported [leaderOf 1 beforeAll, leaderOf 2 .full]) ∧
      (leaderOf 1 beforeAll).isLeader = true ∧
      (∀ k, (leaderOf 1 beforeAll).interval.containsKey k = false) ∧
      (∀ k, (resolve (reported [leaderOf 1 beforeAll, leaderOf 2 .full])).findByKey? k = none) ∧
      ¬∀ k, (resolve (reported [leaderOf 1 beforeAll, leaderOf 2 .full])).findByKey? k =
        (resolve (reported [leaderOf 2 .full])).findByKey? k := by
  have hranked : ranked (reported [leaderOf 1 beforeAll, leaderOf 2 .full]) =
      [⟨leaderOf 1 beforeAll, "store1"⟩, ⟨leaderOf 2 .full, "store1"⟩] :=
    List.mergeSort_of_pairwise (by decide)
  have hnone : ∀ k,
      (resolve (reported [leaderOf 1 beforeAll, leaderOf 2 .full])).findByKey? k = none := by
    intro k
    rw [findByKey?_resolve, hranked]
    exact find?_keyless [] k (beforeAll_empty k)
  refine ⟨.listed [] [] [] [leaderOf 2 .full], rfl, beforeAll_empty, hnone, fun hsame => ?_⟩
  have hnil := hsame []
  rw [hnone, findByKey?_resolve, ranked_full] at hnil
  cases hnil

end RangeKeeper
