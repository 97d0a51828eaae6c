import RangeKeeper.Balance.Split
import RangeKeeper.Proofs.Balance.Reports
import RangeKeeper.Proofs.Double.Order
import RangeKeeper.Proofs.Interval.Split
import RangeKeeper.Proofs.StableSort

/-!
The decision to split. As long as every figure is a number, a store is asked for
a split exactly when it reports, has processor to spare, not too many of its
ranges wait for a split and one of them is worth it. The busiest one is split,
of equally busy ones that with the smallest id, and of those the one that the
store lists first.
-/

namespace RangeKeeper

def LoadHint.NumbersOnly (h : LoadHint) : Prop := ∀ x ∈ h.load.values, x.isNaN = false

instance (h : LoadHint) : Decidable h.NumbersOnly :=
  inferInstanceAs (Decidable (∀ _ ∈ _, _))

/-- Neither the share of the processor, zero when it is not reported, nor a
figure on the load of a range is a NaN. -/
structure StoreReport.NumbersOnly (s : StoreReport) : Prop where
  cpu : ((s.stats.find? "cpu.usage").getD .zero).isNaN = false
  loads : ∀ r ∈ s.ranges, ∀ h ∈ r.hints, h.NumbersOnly

namespace SplitBalancer

/-- A leader in its normal state on which there is a hint of the type. -/
def Waits (hintType : String) (r : RangeReport) : Prop :=
  r.role = .leader ∧ r.state = .normal ∧ ∃ h ∈ r.hints, h.hintType = hintType

instance (hintType : String) (r : RangeReport) : Decidable (Waits hintType r) :=
  inferInstanceAs (Decidable (_ ∧ _ ∧ _))

def waiting (hintType : String) (own : StoreReport) : List RangeReport :=
  own.ranges.filter fun r => Waits hintType r

/-- The range waits for a split and gains by it: it is busy, its storage answers
quickly, and there is a key strictly inside at which to split it. A figure that
is not reported is zero. -/
structure Worth (settings : SplitSettings) (c : Candidate) : Prop where
  waits : Waits settings.hintType c.range
  hint : ∃ h, First (fun g : LoadHint => g.hintType = settings.hintType) c.range.hints h ∧
    h.splitKey = some c.splitKey ∧ (h.load.find? "ioDensity").getD .zero = c.density ∧
    ((h.load.find? "ioLatencyNanos").getD .zero).lt settings.latencyThreshold = true
  busy : settings.densityThreshold.lt c.density = true
  key_nonempty : c.splitKey ≠ []
  key_inside : c.range.interval.HoldsInside c.splitKey

/-- Busier, or as busy with a smaller range id. -/
def Outranks (c d : Candidate) : Prop :=
  d.density.lt c.density = true ∨
    d.density.order? c.density = some .eq ∧ compare c.range.id d.range.id = .lt

/-- The store has processor to spare, ranges wait for a split but not too many,
and one is worth it. -/
structure Ready (settings : SplitSettings) (own : StoreReport) : Prop where
  spare : ((own.stats.find? "cpu.usage").getD .zero).lt settings.cpuLimit = true
  some_wait : 1 ≤ (waiting settings.hintType own).length
  few_wait : (waiting settings.hintType own).length < settings.maxAwaiting.toNat
  worth : ∃ c, Worth settings c ∧ c.range ∈ own.ranges

/-- Worth a split, ahead of all that are listed before and not behind any that
is listed after. -/
def Chosen (settings : SplitSettings) (own : StoreReport) (c : Candidate) : Prop :=
  Worth settings c ∧ ∃ before after, own.ranges = before ++ c.range :: after ∧
    (∀ d, Worth settings d → d.range ∈ before → Outranks c d) ∧
    ∀ d, Worth settings d → d.range ∈ after → ¬Outranks d c

end SplitBalancer

variable {reports : List StoreReport} {store : StoreId} {own : StoreReport} {r : RangeReport}
variable {h : LoadHint} {hintType : String} {settings : SplitSettings}

theorem RangeReport.hint?_eq_some :
    r.hint? hintType = some h ↔ First (fun g => g.hintType = hintType) r.hints h :=
  find?_eq_some_iff_first fun _ => beq_iff_eq

theorem Balancer.of_split? {b : Balancer} (hb : Balancer.split? store settings = .ok b) :
    settings.validate = .ok () ∧
      b = ⟨"range_split", store, SplitBalancer.propose settings store⟩ := by
  rw [split?] at hb
  cases hvalid : settings.validate with
  | error fault =>
      rw [hvalid] at hb
      cases hb
  | ok =>
      rw [hvalid] at hb
      cases hb
      exact ⟨rfl, rfl⟩

theorem LoadHint.NumbersOnly.loadOrZero (hnumbers : h.NumbersOnly) (metric : String) :
    (h.loadOrZero metric).isNaN = false := by
  rw [LoadHint.loadOrZero]
  cases hfound : h.load.find? metric with
  | none => rfl
  | some x =>
      obtain ⟨e, hentry, rfl⟩ := Option.map_eq_some_iff.mp hfound
      exact hnumbers e.2 (List.mem_map_of_mem (List.mem_of_find?_eq_some hentry))

theorem StoreReport.NumbersOnly.cpuUsage (hnumbers : own.NumbersOnly) :
    own.cpuUsage.isNaN = false :=
  hnumbers.cpu

theorem SplitSettings.validate_cpuLimit (hvalid : settings.validate = .ok ()) :
    settings.cpuLimit.isNaN = false := by
  rw [validate] at hvalid
  split at hvalid
  next => cases hvalid
  next =>
    split at hvalid
    next => cases hvalid
    next hlimits =>
      have hle : Double.zero.le settings.cpuLimit = true := by
        simp only [Bool.not_eq_true, Bool.not_eq_false', Bool.and_eq_true] at hlimits
        exact hlimits.1
      exact (Double.le_iff.mp hle).2.1

namespace SplitBalancer

variable {c d : Candidate}

theorem isSome_hint? : (r.hint? hintType).isSome = true ↔ ∃ h ∈ r.hints, h.hintType = hintType := by
  simp [RangeReport.hint?]

theorem awaiting_ranges (settings : SplitSettings) (own : StoreReport) :
    (awaiting settings own).map Prod.fst = waiting settings.hintType own := by
  have hguard : ∀ r : RangeReport, ((r.hint? settings.hintType).map fun h => (r, h)).map Prod.fst =
      Option.guard (fun r => (r.hint? settings.hintType).isSome) r := by
    intro r
    cases hhint : r.hint? settings.hintType <;> simp [Option.guard, hhint]
  rw [awaiting, List.map_filterMap, List.filterMap_congr fun r _ => hguard r,
    List.filterMap_eq_filter, StoreReport.leaderRanges, List.filter_filter, List.filter_filter,
    waiting]
  apply List.filter_congr
  intro r _
  rw [Bool.eq_iff_iff]
  simp only [Bool.and_eq_true, isSome_hint?, decide_eq_true_eq, RangeReport.isLeader]
  constructor
  · intro ⟨⟨hhinted, hnormal⟩, hleader⟩
    exact ⟨hleader, hnormal, hhinted⟩
  · intro ⟨hleader, hnormal, hhinted⟩
    exact ⟨⟨hhinted, hnormal⟩, hleader⟩

theorem length_awaiting (settings : SplitSettings) (own : StoreReport) :
    (awaiting settings own).length = (waiting settings.hintType own).length := by
  rw [← awaiting_ranges, List.length_map]

def judge (settings : SplitSettings) (r : RangeReport) : Option Candidate :=
  if r.role = .leader ∧ r.state = .normal then
    (r.hint? settings.hintType).bind (candidate? settings r)
  else none

theorem candidates_eq (settings : SplitSettings) (own : StoreReport) :
    candidates settings own =
      (own.ranges.filterMap (judge settings)).mergeSort fun a b => (a.order b).isLE := by
  have hjudge : (fun r : RangeReport => if r.isLeader = true then
      if decide (r.state = .normal) = true then
        ((r.hint? settings.hintType).map fun h => (r, h)).bind fun e =>
          candidate? settings e.1 e.2
      else none else none) = judge settings := by
    funext r
    simp only [judge, RangeReport.isLeader, decide_eq_true_eq, ite_and, Option.bind_map]
    rfl
  rw [candidates, awaiting, List.filterMap_filterMap, List.filterMap_filter,
    StoreReport.leaderRanges, List.filterMap_filter, hjudge]

theorem candidates_perm (settings : SplitSettings) (own : StoreReport) :
    (candidates settings own).Perm (own.ranges.filterMap (judge settings)) := by
  rw [candidates_eq]
  exact List.mergeSort_perm _ _

theorem withinLimits_iff (hdensity : settings.densityThreshold.isNaN = false)
    (hlatency : settings.latencyThreshold.isNaN = false)
    (hload : h.NumbersOnly) :
    withinLimits settings h = true ↔
      settings.densityThreshold.lt (h.loadOrZero densityMetric) = true ∧
        (h.loadOrZero latencyMetric).lt settings.latencyThreshold = true := by
  rw [withinLimits, Bool.not_eq_true', Bool.or_eq_false_iff,
    Double.not_le_iff (hload.loadOrZero densityMetric) hdensity,
    Double.not_le_iff hlatency (hload.loadOrZero latencyMetric)]

theorem candidate?_eq_some : candidate? settings r h = some c ↔
    withinLimits settings h = true ∧ h.splitKey = some c.splitKey ∧ c.splitKey ≠ [] ∧
      r.interval.HoldsInside c.splitKey ∧ c.range = r ∧ c.density = h.loadOrZero densityMetric := by
  rw [candidate?]
  split
  next hwithin =>
    simp only [hwithin, true_and, Option.map_eq_some_iff, Option.filter_eq_some_iff,
      LoadHint.usableSplitKey, Interval.isSplittable_iff, decide_eq_true_eq]
    constructor
    · rintro ⟨key, ⟨⟨hkey, hnonempty⟩, hinside⟩, rfl⟩
      exact ⟨hkey, hnonempty, hinside, rfl, rfl⟩
    · rintro ⟨hkey, hnonempty, hinside, rfl, hdensity⟩
      exact ⟨c.splitKey, ⟨⟨hkey, hnonempty⟩, hinside⟩, by rw [← hdensity]⟩
  next hwithin => simp [hwithin]

theorem judge_eq_some_iff : judge settings r = some c ↔ r.role = .leader ∧ r.state = .normal ∧
    ∃ h, First (fun g => g.hintType = settings.hintType) r.hints h ∧
      candidate? settings r h = some c := by
  rw [judge, ← and_assoc]
  split
  next hplace =>
    simp only [hplace, and_self, true_and, Option.bind_eq_some_iff, RangeReport.hint?_eq_some]
  next hplace => simp [hplace]

theorem judge_eq_some (hdensity : settings.densityThreshold.isNaN = false)
    (hlatency : settings.latencyThreshold.isNaN = false)
    (hloads : ∀ h ∈ r.hints, h.NumbersOnly) :
    judge settings r = some c ↔ Worth settings c ∧ c.range = r := by
  rw [judge_eq_some_iff]
  constructor
  · rintro ⟨hleader, hnormal, h, hfirst, hcandidate⟩
    obtain ⟨hwithin, hkey, hnonempty, hinside, rfl, hbusy⟩ := candidate?_eq_some.mp hcandidate
    rw [withinLimits_iff hdensity hlatency (hloads h hfirst.mem), ← hbusy] at hwithin
    have hworth : Worth settings c :=
      { waits := ⟨hleader, hnormal, h, hfirst.mem, hfirst.holds⟩
        hint := ⟨h, hfirst, hkey, hbusy.symm, hwithin.2⟩
        busy := hwithin.1
        key_nonempty := hnonempty
        key_inside := hinside }
    exact ⟨hworth, rfl⟩
  · rintro ⟨hworth, rfl⟩
    obtain ⟨h, hfirst, hkey, hfigure, hquick⟩ := hworth.hint
    have hbusy : h.loadOrZero densityMetric = c.density := hfigure
    refine ⟨hworth.waits.1, hworth.waits.2.1, h, hfirst, ?_⟩
    rw [candidate?_eq_some, withinLimits_iff hdensity hlatency (hloads h hfirst.mem), hbusy]
    exact ⟨⟨hworth.busy, hquick⟩, hkey, hworth.key_nonempty, hworth.key_inside, rfl, rfl⟩

def preference (c d : Candidate) : Ordering :=
  (compare d.density.rank c.density.rank).then (compare c.range.id d.range.id)

instance : Std.TransCmp preference :=
  inferInstanceAs (Std.TransCmp (compareLex
    (fun c d => compareOn (fun c : Candidate => c.density.rank) d c)
    (compareOn fun c : Candidate => c.range.id)))

theorem preference_swap (c d : Candidate) : preference d c = (preference c d).swap :=
  Std.OrientedCmp.eq_swap

theorem preference_trans (a b c : Candidate) (hab : (preference a b).isLE = true)
    (hbc : (preference b c).isLE = true) : (preference a c).isLE = true :=
  Std.TransCmp.isLE_trans hab hbc

theorem preference_total (a b : Candidate) :
    ((preference a b).isLE || (preference b a).isLE) = true := by
  rw [preference_swap a b]
  cases preference a b <;> rfl

theorem Worth.number (hworth : Worth settings c) : c.density.isNaN = false :=
  (Double.lt_iff.mp hworth.busy).2.1

theorem order_eq_preference (hc : Worth settings c) (hd : Worth settings d) :
    c.order d = preference c d := by
  have hdensities : d.density.order? c.density = some (compare d.density.rank c.density.rank) :=
    Double.order?_eq_some.mpr ⟨hd.number, hc.number, rfl⟩
  rw [Candidate.order, hdensities, preference, Option.getD_some]

theorem outranks_iff (hc : Worth settings c) (hd : Worth settings d) :
    Outranks c d ↔ preference c d = .lt := by
  rw [Outranks, Double.lt_iff, Double.order?_eq_some, preference, Ordering.then_eq_lt,
    ← Std.compare_eq_lt]
  simp only [hc.number, hd.number, true_and]

/-- What a partial map yields in the midst of a list it yields in the midst of
another. -/
theorem place_of_filterMap {α β : Type} {f : α → Option β} {xs : List α} {before after : List β}
    {y : β} (hyields : xs.filterMap f = before ++ y :: after) :
    ∃ ahead x behind, xs = ahead ++ x :: behind ∧ f x = some y ∧
      ahead.filterMap f = before ∧ behind.filterMap f = after := by
  obtain ⟨ahead, rest, rfl, hahead, hrest⟩ := List.filterMap_eq_append_iff.mp hyields
  obtain ⟨idle, x, behind, rfl, hidle, hx, hbehind⟩ := List.filterMap_eq_cons_iff.mp hrest
  have hnothing : idle.filterMap f = [] := List.filterMap_eq_nil_iff.mpr hidle
  refine ⟨ahead ++ idle, x, behind, by rw [List.append_assoc], hx, ?_, hbehind⟩
  rw [List.filterMap_append, hahead, hnothing, List.append_nil]

theorem pick_eq_some_iff {command : Command} :
    pick settings store own = some command ↔ settings.cpuLimit.le own.cpuUsage = false ∧
      (waiting settings.hintType own).length < settings.maxAwaiting.toNat ∧
      ∃ c, (candidates settings own).head? = some c ∧
        .split ⟨c.range.id, store, c.range.version, c.splitKey⟩ = command := by
  rw [pick, length_awaiting]
  split
  next hbusy => simp [hbusy]
  next hspare =>
    split
    next hfull =>
      simp [Nat.not_lt.mpr hfull]
    next hroom =>
      simp only [Bool.not_eq_true] at hspare
      simp only [hspare, Nat.not_le.mp hroom, true_and, Option.map_eq_some_iff]

theorem pick_eq_some (hown : own.NumbersOnly) (hcpu : settings.cpuLimit.isNaN = false)
    {command : Command} :
    pick settings store own = some command ↔ own.cpuUsage.lt settings.cpuLimit = true ∧
      (waiting settings.hintType own).length < settings.maxAwaiting.toNat ∧
      ∃ c, (candidates settings own).head? = some c ∧
        .split ⟨c.range.id, store, c.range.version, c.splitKey⟩ = command := by
  rw [pick_eq_some_iff, Double.not_le_iff hcpu hown.cpuUsage]

section Numbers

variable (hdensity : settings.densityThreshold.isNaN = false)
variable (hlatency : settings.latencyThreshold.isNaN = false)
variable (hown : own.NumbersOnly)

include hdensity hlatency hown

theorem mem_judged {ranges : List RangeReport} (hranges : ranges.Sublist own.ranges) :
    c ∈ ranges.filterMap (judge settings) ↔ Worth settings c ∧ c.range ∈ ranges := by
  rw [List.mem_filterMap]
  constructor
  · rintro ⟨r, hr, hjudge⟩
    obtain ⟨hworth, rfl⟩ :=
      (judge_eq_some hdensity hlatency (hown.loads r (hranges.subset hr))).mp hjudge
    exact ⟨hworth, hr⟩
  · rintro ⟨hworth, hr⟩
    exact ⟨c.range, hr,
      (judge_eq_some hdensity hlatency (hown.loads _ (hranges.subset hr))).mpr ⟨hworth, rfl⟩⟩

theorem candidates_by_preference : candidates settings own =
    (own.ranges.filterMap (judge settings)).mergeSort fun a b => (preference a b).isLE := by
  have hworth : ∀ c ∈ own.ranges.filterMap (judge settings), Worth settings c := by
    intro c hc
    exact ((mem_judged hdensity hlatency hown (List.Sublist.refl _)).mp hc).1
  have hsorted := List.map_mergeSort (r := fun a b => (Candidate.order a b).isLE)
    (s := fun a b => (preference a b).isLE) (f := id) fun a ha b hb => by
      rw [order_eq_preference (hworth a ha) (hworth b hb), id, id]
  rw [List.map_id, List.map_id] at hsorted
  rw [candidates_eq, hsorted]

theorem candidates_ne_nil :
    candidates settings own ≠ [] ↔ ∃ c, Worth settings c ∧ c.range ∈ own.ranges := by
  have hperm := candidates_perm settings own
  constructor
  · intro hsome
    obtain ⟨c, hc⟩ := List.exists_mem_of_ne_nil _ hsome
    exact ⟨c, (mem_judged hdensity hlatency hown (List.Sublist.refl _)).mp (hperm.mem_iff.mp hc)⟩
  · rintro ⟨c, hc⟩
    apply List.ne_nil_of_mem
    exact hperm.mem_iff.mpr ((mem_judged hdensity hlatency hown (List.Sublist.refl _)).mpr hc)

theorem chosen_of_head (hhead : (candidates settings own).head? = some c) :
    Chosen settings own c := by
  rw [candidates_by_preference hdensity hlatency hown] at hhead
  obtain ⟨before, after, hjudged, hbefore, hafter⟩ :=
    head?_mergeSort preference_trans preference_total hhead
  obtain ⟨ahead, r, behind, hranges, hjudge, rfl, rfl⟩ := place_of_filterMap hjudged
  have hahead : ahead.Sublist own.ranges := by
    rw [hranges]
    exact List.sublist_append_left ..
  have hbehind : behind.Sublist own.ranges := by
    rw [hranges]
    exact (List.sublist_cons_self ..).trans (List.sublist_append_right ..)
  have hr : r ∈ own.ranges := by
    rw [hranges]
    simp
  obtain ⟨hworth, rfl⟩ := (judge_eq_some hdensity hlatency (hown.loads r hr)).mp hjudge
  refine ⟨hworth, ahead, behind, hranges, ?_, ?_⟩
  · intro d hd hplace
    have hnot := hbefore d ((mem_judged hdensity hlatency hown hahead).mpr ⟨hd, hplace⟩)
    rw [preference_swap c d] at hnot
    rw [outranks_iff hworth hd]
    cases hcmp : preference c d with
    | lt => rfl
    | eq | gt => simp [hcmp] at hnot
  · intro d hd hplace houtranks
    have hle := hafter d ((mem_judged hdensity hlatency hown hbehind).mpr ⟨hd, hplace⟩)
    rw [outranks_iff hd hworth] at houtranks
    rw [preference_swap d c, houtranks] at hle
    cases hle

theorem isSome_pick (hcpu : settings.cpuLimit.isNaN = false) :
    (pick settings store own).isSome = true ↔ Ready settings own := by
  rw [Option.isSome_iff_exists]
  simp only [pick_eq_some hown hcpu]
  constructor
  · rintro ⟨_, hspare, hfew, c, hhead, -⟩
    have hsome : candidates settings own ≠ [] := by
      intro hnone
      rw [hnone] at hhead
      cases hhead
    obtain ⟨d, hworth, hplace⟩ := (candidates_ne_nil hdensity hlatency hown).mp hsome
    have hwaits : d.range ∈ waiting settings.hintType own :=
      List.mem_filter.mpr ⟨hplace, decide_eq_true hworth.waits⟩
    exact ⟨hspare, List.length_pos_of_mem hwaits, hfew, d, hworth, hplace⟩
  · intro hready
    have hsome := (candidates_ne_nil hdensity hlatency hown).mpr hready.worth
    obtain ⟨c, rest, hcandidates⟩ := List.exists_cons_of_ne_nil hsome
    exact ⟨_, hready.spare, hready.few_wait, c, by rw [hcandidates, List.head?_cons], rfl⟩

end Numbers

theorem propose_eq_some {command : Command} : propose settings store reports = some command ↔
    ∃ own, First (fun s => s.store = store) reports own ∧
      pick settings store own = some command := by
  rw [propose, Option.bind_eq_some_iff]
  simp only [reportOf?_eq_some]

end SplitBalancer

/-- A balancer for splits proposes one exactly when its store is ready for it,
of the range that comes first among those worth it, at a key that cuts the range
into two halves. -/
theorem split_decision {b : Balancer} (hb : Balancer.split? store settings = .ok b)
    (hdensity : settings.densityThreshold.isNaN = false)
    (hlatency : settings.latencyThreshold.isNaN = false)
    (hreports : ∀ s ∈ reports, s.NumbersOnly) :
    ((b.propose reports).isSome = true ↔
      ∃ own, First (fun s => s.store = store) reports own ∧ SplitBalancer.Ready settings own) ∧
    ∀ command, b.propose reports = some command → ∃ own c,
      First (fun s => s.store = store) reports own ∧ SplitBalancer.Chosen settings own c ∧
      command = .split ⟨c.range.id, store, c.range.version, c.splitKey⟩ ∧
      ∃ left right, c.range.interval.splitAt c.splitKey = some (left, right) ∧
        c.range.interval.Halves left right := by
  obtain ⟨hvalid, rfl⟩ := Balancer.of_split? hb
  have hcpu := settings.validate_cpuLimit hvalid
  have hown : ∀ own, First (fun s => s.store = store) reports own → own.NumbersOnly := by
    rintro own ⟨before, after, rfl, -⟩
    exact hreports own (by simp)
  constructor
  · rw [Option.isSome_iff_exists]
    simp only [SplitBalancer.propose_eq_some]
    constructor
    · rintro ⟨command, own, hreport, hpick⟩
      refine ⟨own, hreport, ?_⟩
      rw [← SplitBalancer.isSome_pick hdensity hlatency (hown own hreport) hcpu, hpick]
      rfl
    · rintro ⟨own, hreport, hready⟩
      have hpick : (SplitBalancer.pick settings store own).isSome = true :=
        (SplitBalancer.isSome_pick hdensity hlatency (hown own hreport) hcpu).mpr hready
      obtain ⟨command, hcommand⟩ := Option.isSome_iff_exists.mp hpick
      exact ⟨command, own, hreport, hcommand⟩
  · intro command hcommand
    obtain ⟨own, hreport, hpick⟩ := SplitBalancer.propose_eq_some.mp hcommand
    obtain ⟨-, -, c, hhead, rfl⟩ :=
      (SplitBalancer.pick_eq_some (hown own hreport) hcpu).mp hpick
    have hchosen := SplitBalancer.chosen_of_head hdensity hlatency (hown own hreport) hhead
    have hhalves := Interval.splitAt_halves hchosen.1.key_nonempty hchosen.1.key_inside
    exact ⟨own, c, hreport, hchosen, rfl, hhalves⟩

/-- A range that is reported twice, with two keys, and is busier than one with a
smaller id; the store is as busy as `cpu` says. -/
def reportedTwice (cpu : Double) : StoreReport :=
  let busy (id : UInt64) (density : Nat) (key : Key) : RangeReport :=
    ⟨⟨id, 0⟩, ⟨some [1], some [9]⟩, .leader, 7, .normal,
      [⟨"kv_io_mutation", .ofList [("ioDensity", .ofNat density)], some key⟩]⟩
  ⟨"near", [busy 4 40 [5], busy 4 40 [6], busy 1 35 [3]], .ofList [("cpu.usage", cpu)]⟩

/-- With half of the processor in use the busier range is split, with all of it
none is. -/
theorem split_decision_reported_twice :
    let half : Double := ⟨0x3fe0000000000000⟩
    let b : Balancer := ⟨"range_split", "near", SplitBalancer.propose {} "near"⟩
    Balancer.split? "near" {} = .ok b ∧
      (reportedTwice half).NumbersOnly ∧ (reportedTwice .one).NumbersOnly ∧
      b.propose [reportedTwice half] = some (.split ⟨⟨4, 0⟩, "near", 7, [5]⟩) ∧
      (∃ own, First (fun s => s.store = "near") [reportedTwice half] own ∧
        SplitBalancer.Ready {} own) ∧
      (∃ own c, First (fun s => s.store = "near") [reportedTwice half] own ∧
        SplitBalancer.Chosen {} own c ∧
        .split ⟨⟨4, 0⟩, "near", 7, [5]⟩ =
          Command.split ⟨c.range.id, "near", c.range.version, c.splitKey⟩ ∧
        ∃ left right, c.range.interval.splitAt c.splitKey = some (left, right) ∧
          c.range.interval.Halves left right) ∧
      b.propose [reportedTwice .one] = none ∧
      ¬∃ own, First (fun s => s.store = "near") [reportedTwice .one] own ∧
        SplitBalancer.Ready {} own := by
  intro half b
  have hb : Balancer.split? "near" {} = .ok b := rfl
  have hhalf : (reportedTwice half).NumbersOnly := ⟨by decide, by decide⟩
  have hone : (reportedTwice .one).NumbersOnly := ⟨by decide, by decide⟩
  have hcandidates : SplitBalancer.candidates {} (reportedTwice half) =
      (SplitBalancer.awaiting {} (reportedTwice half)).filterMap fun e =>
        SplitBalancer.candidate? {} e.1 e.2 :=
    List.mergeSort_of_pairwise (by decide)
  have hsplit : b.propose [reportedTwice half] = some (.split ⟨⟨4, 0⟩, "near", 7, [5]⟩) := by
    have hpick : b.propose [reportedTwice half] =
        SplitBalancer.pick {} "near" (reportedTwice half) := rfl
    rw [hpick, SplitBalancer.pick, hcandidates]
    decide +kernel
  have hnone : b.propose [reportedTwice .one] = none := by
    have hpick : b.propose [reportedTwice .one] =
        SplitBalancer.pick {} "near" (reportedTwice .one) := rfl
    rw [hpick, SplitBalancer.pick, if_pos (by decide)]
  obtain ⟨hready, hchosen⟩ :=
    split_decision hb (by decide) (by decide) (List.forall_mem_singleton.mpr hhalf)
  obtain ⟨hidle, -⟩ :=
    split_decision hb (by decide) (by decide) (List.forall_mem_singleton.mpr hone)
  refine ⟨hb, hhalf, hone, hsplit, hready.mp (by rw [hsplit]; rfl), hchosen _ hsplit, hnone, ?_⟩
  rw [← hidle, hnone]
  decide

end RangeKeeper
