import RangeKeeper.Proofs.Balance.Split

/-!
The limits on the load. Each is written as the comparison that rules a range
out, and of a NaN no comparison holds, so a NaN is ruled out nowhere. A proposal
therefore keeps to a limit exactly when both sides of it are numbers. The limit
on the processor is one in acceptable settings, a threshold need not be.
-/

namespace RangeKeeper.SplitBalancer

/-- The store has processor to spare, the range is busy and its storage answers
quickly. -/
structure KeepsLimits (settings : SplitSettings) (own : StoreReport) (h : LoadHint) : Prop where
  spare : own.cpuUsage.lt settings.cpuLimit = true
  busy : settings.densityThreshold.lt (h.loadOrZero densityMetric) = true
  quick : (h.loadOrZero latencyMetric).lt settings.latencyThreshold = true

instance (settings : SplitSettings) (own : StoreReport) (h : LoadHint) :
    Decidable (KeepsLimits settings own h) :=
  decidable_of_iff (_ ∧ _ ∧ _)
    ⟨fun ⟨hspare, hbusy, hquick⟩ => ⟨hspare, hbusy, hquick⟩, fun h => ⟨h.spare, h.busy, h.quick⟩⟩

/-- The command asks for the split of the first candidate in the store's first
report, and `h` is the hint that makes the range a candidate. -/
structure Proposes (settings : SplitSettings) (store : StoreId) (reports : List StoreReport)
    (command : Command) (own : StoreReport) (c : Candidate) (h : LoadHint) : Prop where
  report : First (fun s => s.store = store) reports own
  first : (candidates settings own).head? = some c
  listed : c.range ∈ own.ranges
  hint : First (fun g => g.hintType = settings.hintType) c.range.hints h
  command : command = .split ⟨c.range.id, store, c.range.version, c.splitKey⟩

variable {reports : List StoreReport} {store : StoreId} {own : StoreReport} {h : LoadHint}
variable {settings : SplitSettings} {c : Candidate}

theorem not_ruled_out (hwithin : withinLimits settings h = true) :
    (h.loadOrZero densityMetric).le settings.densityThreshold = false ∧
      settings.latencyThreshold.le (h.loadOrZero latencyMetric) = false := by
  rwa [withinLimits, Bool.not_eq_true', Bool.or_eq_false_iff] at hwithin

/-- The candidate that comes first is a range of the store that its first hint
does not rule out. -/
theorem hint_of_head (hhead : (candidates settings own).head? = some c) :
    c.range ∈ own.ranges ∧ ∃ h, First (fun g => g.hintType = settings.hintType) c.range.hints h ∧
      withinLimits settings h = true := by
  have hcandidate : c ∈ candidates settings own := List.mem_of_mem_head? hhead
  rw [candidates_eq, List.mem_mergeSort, List.mem_filterMap] at hcandidate
  obtain ⟨r, hr, hjudge⟩ := hcandidate
  obtain ⟨-, -, h, hfirst, hyields⟩ := judge_eq_some_iff.mp hjudge
  obtain ⟨hwithin, -, -, -, rfl, -⟩ := candidate?_eq_some.mp hyields
  exact ⟨hr, h, hfirst, hwithin⟩

/-- A proposal keeps to each limit on the load exactly when no NaN stands on
either side of it. -/
theorem load_limits_hold_of_numbers {b : Balancer} {command : Command}
    (hb : Balancer.split? store settings = .ok b) (hcommand : b.propose reports = some command) :
    ∃ own c h, Proposes settings store reports command own c h ∧
      (own.cpuUsage.lt settings.cpuLimit = true ↔ own.cpuUsage.isNaN = false) ∧
      (settings.densityThreshold.lt (h.loadOrZero densityMetric) = true ↔
        (h.loadOrZero densityMetric).isNaN = false ∧ settings.densityThreshold.isNaN = false) ∧
      ((h.loadOrZero latencyMetric).lt settings.latencyThreshold = true ↔
        settings.latencyThreshold.isNaN = false ∧ (h.loadOrZero latencyMetric).isNaN = false) := by
  obtain ⟨hvalid, rfl⟩ := Balancer.of_split? hb
  have hcpu := settings.validate_cpuLimit hvalid
  obtain ⟨own, hreport, hpick⟩ := propose_eq_some.mp hcommand
  obtain ⟨hspare, -, c, hhead, rfl⟩ := pick_eq_some_iff.mp hpick
  obtain ⟨hrange, h, hfirst, hwithin⟩ := hint_of_head hhead
  obtain ⟨hbusy, hquick⟩ := not_ruled_out hwithin
  have hproposes : Proposes settings store reports
      (.split ⟨c.range.id, store, c.range.version, c.splitKey⟩) own c h :=
    { report := hreport, first := hhead, listed := hrange, hint := hfirst, command := rfl }
  refine ⟨own, c, h, hproposes, ?_, Double.lt_of_not_le_iff hbusy, Double.lt_of_not_le_iff hquick⟩
  rw [Double.lt_of_not_le_iff hspare]
  simp [hcpu]

def loadedRange (density latency : Double) : RangeReport :=
  ⟨⟨1, 0⟩, .full, .leader, 0, .normal,
    [⟨"kv_io_mutation", .ofList [("ioDensity", density), ("ioLatencyNanos", latency)],
      some [0x6d]⟩]⟩

def loadedStore (cpu density latency : Double) : StoreReport :=
  ⟨"near", [loadedRange density latency], .ofList [("cpu.usage", cpu)]⟩

/-- With one range there is nothing to sort. -/
theorem candidates_loaded (settings : SplitSettings) (cpu density latency : Double) :
    candidates settings (loadedStore cpu density latency) =
      (judge settings (loadedRange density latency)).toList := by
  rw [candidates_eq, loadedStore]
  cases hjudge : judge settings (loadedRange density latency) <;>
    simp [hjudge, List.mergeSort_singleton]

theorem propose_loaded (settings : SplitSettings) (cpu density latency : Double) :
    propose settings "near" [loadedStore cpu density latency] =
      if settings.cpuLimit.le (loadedStore cpu density latency).cpuUsage then none
      else if settings.maxAwaiting.toNat ≤
        (awaiting settings (loadedStore cpu density latency)).length then none
      else (judge settings (loadedRange density latency)).map fun best =>
        .split ⟨best.range.id, "near", best.range.version, best.splitKey⟩ := by
  have hreported : propose settings "near" [loadedStore cpu density latency] =
      pick settings "near" (loadedStore cpu density latency) := rfl
  rw [hreported, pick, candidates_loaded]
  cases judge settings (loadedRange density latency) <;> rfl

/-- Where the density is a NaN the other two limits hold. -/
theorem load_limits_hold_of_numbers_beside_nan :
    Balancer.split? "near" {} = .ok ⟨"range_split", "near", propose {} "near"⟩ ∧
      propose {} "near" [loadedStore .zero .nan .one] =
        some (.split ⟨⟨1, 0⟩, "near", 0, [0x6d]⟩) ∧
      ∃ own c h, Proposes {} "near" [loadedStore .zero .nan .one]
          (.split ⟨⟨1, 0⟩, "near", 0, [0x6d]⟩) own c h ∧
        (own.cpuUsage.lt (SplitSettings.cpuLimit {}) = true ↔ own.cpuUsage.isNaN = false) ∧
        ((SplitSettings.densityThreshold {}).lt (h.loadOrZero densityMetric) = true ↔
          (h.loadOrZero densityMetric).isNaN = false ∧
            (SplitSettings.densityThreshold {}).isNaN = false) ∧
        ((h.loadOrZero latencyMetric).lt (SplitSettings.latencyThreshold {}) = true ↔
          (SplitSettings.latencyThreshold {}).isNaN = false ∧
            (h.loadOrZero latencyMetric).isNaN = false) := by
  have hbalancer : Balancer.split? "near" {} = .ok ⟨"range_split", "near", propose {} "near"⟩ := rfl
  have hproposed : propose {} "near" [loadedStore .zero .nan .one] =
      some (.split ⟨⟨1, 0⟩, "near", 0, [0x6d]⟩) := by
    rw [propose_loaded]
    decide +kernel
  exact ⟨hbalancer, hproposed, load_limits_hold_of_numbers hbalancer hproposed⟩

/-- Acceptable settings under which the range is to be split although a limit
does not hold. -/
structure PassesUnruly (settings : SplitSettings) (cpu density latency : Double) : Prop where
  accepted : Balancer.split? "near" settings = .ok ⟨"range_split", "near", propose settings "near"⟩
  proposed : propose settings "near" [loadedStore cpu density latency] =
    some (.split ⟨⟨1, 0⟩, "near", 0, [0x6d]⟩)
  broken : ∀ h ∈ (loadedRange density latency).hints,
    ¬KeepsLimits settings (loadedStore cpu density latency) h

/-- A NaN passes in each of the five places: the figures of the range, that of
the store, and both thresholds. -/
theorem nan_passes_load_limits :
    PassesUnruly {} .zero .nan .one ∧ PassesUnruly {} .zero (.ofNat 40) .nan ∧
      PassesUnruly {} .nan (.ofNat 40) .one ∧
      PassesUnruly { densityThreshold := .nan } .zero .one .one ∧
      PassesUnruly { latencyThreshold := .nan } .zero (.ofNat 40) (.ofNat 40000) := by
  refine ⟨⟨rfl, ?_, by decide +kernel⟩, ⟨rfl, ?_, by decide +kernel⟩, ⟨rfl, ?_, by decide +kernel⟩,
    ⟨rfl, ?_, by decide +kernel⟩, ⟨rfl, ?_, by decide +kernel⟩⟩
  all_goals
    rw [propose_loaded]
    decide +kernel

end RangeKeeper.SplitBalancer
