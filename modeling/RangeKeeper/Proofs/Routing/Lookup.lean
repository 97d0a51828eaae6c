import RangeKeeper.Routing.Lookup
import RangeKeeper.Proofs.Interval.LeftToRight
import RangeKeeper.Proofs.Routing.Sweep

/-!
Lookup by key. The search looks at one entry only, the last one filed at or
before the key. In a table whose intervals stand apart this is the entry that
contains the key, if there is one: whatever is filed behind that entry begins
behind the key.
-/

namespace RangeKeeper

open RangeKeeper.Interval

variable {b : Interval} {k : Key}

/-- An interval is filed at or before the probe of a key when it does not begin
behind the key. -/
theorem filed_before_probe :
    (compare b ⟨some k, none⟩).isLE = true ↔ ∀ s, b.lower = some s → s ≤ k := by
  rw [compare_def, order]
  cases hlower : b.lower with
  | none => simp [compareLowers, Ordering.then]
  | some s =>
      have huppers : (compareUppers b.upper none).isLE = true := by
        cases b.upper <;> rfl
      simp only [compareLowers, Option.some.injEq, forall_eq']
      cases hcmp : Key.order s k with
      | lt => simp [Std.le_of_lt (Key.order_eq_lt.mp hcmp)]
      | eq => simpa [Key.order_eq_eq.mp hcmp] using huppers
      | gt => simpa using Key.order_eq_gt.mp hcmp

theorem filed_of_containsKey (h : b.containsKey k = true) :
    (compare b ⟨some k, none⟩).isLE = true :=
  filed_before_probe.mpr (containsKey_iff.mp h).1

/-- What stands right of the interval that contains the key is filed behind the
probe. -/
theorem not_filed_of_leftOf {a : Interval} (ha : a.containsKey k = true) (h : a.LeftOf b) :
    ¬(compare b ⟨some k, none⟩).isLE = true := by
  intro hfiled
  obtain ⟨e, s, he, hs, hle⟩ := h
  have hbelow : s ≤ k := filed_before_probe.mp hfiled s hs
  have habove : k < e := (containsKey_iff.mp ha).2 e he
  exact Std.not_le.mpr habove (Std.le_trans hle hbelow)

namespace RoutingTable

variable {table : RoutingTable}

theorem findByKey?_of_mem {earlier later : List (Interval × Owner)} {e : Interval × Owner}
    (hentries : table.entries = earlier ++ e :: later) (hk : e.1.containsKey k = true)
    (hleft : ∀ x ∈ later, e.1.LeftOf x.1) : table.findByKey? k = some e.2 := by
  have hbehind : later.filter (fun x => (compare x.1 ⟨some k, none⟩).isLE) = [] := by
    apply List.filter_eq_nil_iff.mpr
    intro x hx
    exact not_filed_of_leftOf hk (hleft x hx)
  have hfloor : table.floor? ⟨some k, none⟩ = some e := by
    simp only [SortedMap.floor?, hentries, List.filter_append, List.filter_cons,
      filed_of_containsKey hk, if_true, hbehind]
    exact List.getLast?_concat
  rw [findByKey?, hfloor, Option.filter_some, if_pos hk]
  rfl

theorem findByKey?_of_none (h : ∀ e ∈ table.entries, e.1.containsKey k = false) :
    table.findByKey? k = none := by
  rw [findByKey?, Option.map_eq_none_iff, Option.filter_eq_none_iff]
  intro e hfloor
  have hlast := List.mem_of_getLast? hfloor
  have hmem : e ∈ table.entries := (List.mem_filter.mp hlast).1
  simp [h e hmem]

/-- Searching by order finds the first entry that contains the key. -/
theorem findByKey?_eq_find? (hleft : table.keys.Pairwise LeftOf) (k : Key) :
    table.findByKey? k = (table.entries.find? fun e => e.1.containsKey k).map Prod.snd := by
  cases hfind : table.entries.find? fun e => e.1.containsKey k with
  | none =>
      refine findByKey?_of_none fun e he => ?_
      simpa using List.find?_eq_none.mp hfind e he
  | some e =>
      obtain ⟨hk, earlier, later, hentries, _⟩ := List.find?_eq_some_iff_append.mp hfind
      refine findByKey?_of_mem hentries hk ?_
      rw [SortedMap.keys, hentries, List.pairwise_map] at hleft
      have hrest := (List.pairwise_append.mp hleft).2.1
      exact (List.pairwise_cons.mp hrest).1

/-- The ends of every interval leave room between them, and no two intervals
overlap. -/
structure StandsApart (table : RoutingTable) : Prop where
  valid : ∀ b ∈ table.keys, b.isValid = true
  apart : table.keys.Pairwise fun a b => a.overlaps b = false

namespace StandsApart

/-- The order of a table is then the order from left to right. -/
theorem leftOf (h : table.StandsApart) : table.keys.Pairwise LeftOf :=
  pairwise_leftOf h.valid h.apart (List.pairwise_map.mpr table.ascending)

/-- No key is in two entries. -/
theorem entry_unique (h : table.StandsApart) {d e : Interval × Owner} (hd : d ∈ table.entries)
    (he : e ∈ table.entries) (hdk : d.1.containsKey k = true) (hek : e.1.containsKey k = true) :
    d = e := by
  have hleft := List.pairwise_map.mp h.leftOf
  refine List.Pairwise.forall_of_forall_of_flip
    (R := fun d e => d.1.containsKey k = true → e.1.containsKey k = true → d = e)
    (fun _ _ _ _ => rfl) (hleft.imp fun hab ha hb => ?_) (hleft.imp fun hab hb ha => ?_)
    hd he hdk hek
  all_goals exact absurd hb (LeftOf.not_both hab ha)

end StandsApart

end RoutingTable

theorem resolve_standsApart (listing : ReportsByStore) : (resolve listing).StandsApart :=
  ⟨fun _ => valid_of_key, (keys_leftOf listing).imp LeftOf.apart⟩

namespace RoutingTable

/-- Every resolved table stands apart. In a table that does, a search by key
gives the value of the only entry that contains the key, and gives none exactly
when no entry does. -/
theorem key_lookup_scans_table :
    (∀ listing, (resolve listing).StandsApart) ∧
    ∀ table : RoutingTable, table.StandsApart → ∀ k,
      (∀ e ∈ table.entries, e.1.containsKey k = true →
        table.findByKey? k = some e.2 ∧
          ∀ d ∈ table.entries, d.1.containsKey k = true → d = e) ∧
      (table.findByKey? k = none ↔ ∀ e ∈ table.entries, e.1.containsKey k = false) := by
  refine ⟨resolve_standsApart, fun table hapart k => ?_⟩
  have hfound : ∀ e ∈ table.entries, e.1.containsKey k = true →
      table.findByKey? k = some e.2 := by
    intro e he hek
    obtain ⟨earlier, later, hentries⟩ := List.append_of_mem he
    have hleft := List.pairwise_map.mp hapart.leftOf
    rw [hentries] at hleft
    exact findByKey?_of_mem hentries hek
      (List.pairwise_cons.mp (List.pairwise_append.mp hleft).2.1).1
  refine ⟨fun e he hek => ⟨hfound e he hek, fun d hd hdk => ?_⟩, fun hnone e he => ?_, ?_⟩
  · exact hapart.entry_unique hd he hdk hek
  · rw [Bool.eq_false_iff]
    intro hek
    rw [hfound e he hek] at hnone
    cases hnone
  · exact findByKey?_of_none

/-- Two ranges meet at a key, behind a gap. -/
theorem key_lookup_scans_table_at_border :
    let low : Owner := ⟨⟨⟨1, 0⟩, ⟨some [0x62], some [0x63]⟩, .leader, 4, .normal, []⟩, "store1"⟩
    let high : Owner := ⟨⟨⟨2, 0⟩, ⟨some [0x63], none⟩, .leader, 9, .normal, []⟩, "store2"⟩
    let table := RoutingTable.ofOwners [high, low]
    table.StandsApart ∧ table.findByKey? [0x63] = some high ∧ table.findByKey? [0x61] = none := by
  intro low high table
  have hapart : table.StandsApart := ⟨by decide, by decide⟩
  obtain ⟨hfound, -⟩ := key_lookup_scans_table.2 table hapart [0x63]
  obtain ⟨-, hgap⟩ := key_lookup_scans_table.2 table hapart [0x61]
  have hentries : table.entries = [(low.interval, low), (high.interval, high)] := rfl
  have hhigh : (high.interval, high) ∈ table.entries := by simp [hentries]
  exact ⟨hapart, (hfound _ hhigh (by decide)).1, hgap.mpr (by decide)⟩

end RoutingTable

/-- The owner of a key is the accepted candidate whose interval contains it. -/
theorem findByKey?_resolve (listing : ReportsByStore) (k : Key) :
    (resolve listing).findByKey? k =
      (sweep none (ranked listing)).find? fun o => o.interval.containsKey k := by
  have hentries : (resolve listing).entries =
      (sweep none (ranked listing)).map fun o => (o.interval, o) :=
    ofOwners_entries (sweep_order listing)
  rw [RoutingTable.findByKey?_eq_find? (keys_leftOf listing), hentries, List.find?_map,
    Option.map_map]
  exact Option.map_id'

end RangeKeeper
