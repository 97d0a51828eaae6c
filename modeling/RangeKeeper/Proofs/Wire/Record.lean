import RangeKeeper.Proofs.Wire.Form
import RangeKeeper.Wire.Record

/-!
The wire forms of reports, log entries, snapshots and settings. Every form of a
record is read as the record, whatever follows it, and no proper piece of a form
is read as anything. Load hints and what holds them have several forms, since
their figures may be written in any order; every other record has one. The only
condition is that the length of a form can be written in eight bytes, as that of
any bytes in the memory of a 64-bit machine can.
-/

namespace RangeKeeper.Wire

open Codec

/-- The codec writes one of the forms; each form is read as its value, whatever
follows; and each is refused when its end is missing. -/
structure Codec.SelfDelimiting {α : Type} (c : Codec α) (F : Forms α) : Prop where
  written : ∀ v, F v (c.write v)
  whole : ∀ v bs, F v bs → bs.length < UInt64.size → ∀ t, c.decode (bs ++ t) = .ok v
  piece : ∀ v bs, F v bs → bs.length < UInt64.size →
    ∀ p, p <+: bs → p ≠ bs → ∃ fault, c.decode p = .error fault

theorem Codec.Reads.selfDelimiting {α : Type} {c : Codec α} {F : Forms α} (h : c.Reads F) :
    c.SelfDelimiting F where
  written := h.written
  whole v bs hform hlength t := by
    rw [decode, (h.spells hform hlength).whole t]
    rfl
  piece v bs hform hlength p hpiece hproper := by
    obtain ⟨fault, hfault⟩ := (h.spells hform hlength).refuses hpiece hproper
    exact ⟨fault, by rw [decode, hfault]; rfl⟩

def figuresForms : Forms Figures := .sortedMap text double

def hintForms : Forms LoadHint :=
  ((Forms.only text).both (figuresForms.both (.only (option bytes)))).map
    fun h => (h.hintType, h.load, h.splitKey)

def rangeReportForms : Forms RangeReport :=
  ((Forms.only rangeId).both ((Forms.only interval).both ((Forms.only role).both
    ((Forms.only word64).both ((Forms.only lifecycle).both hintForms.list))))).map
    fun r => (r.id, r.interval, r.role, r.version, r.state, r.hints)

def storeReportForms : Forms StoreReport :=
  ((Forms.only text).both (rangeReportForms.list.both figuresForms)).map
    fun s => (s.store, s.ranges, s.stats)

theorem reads_interval : interval.Reads (.only interval) :=
  reads_map (fun _ => rfl) (reads_both_only (reads_option reads_bytes) (reads_option reads_bytes))

theorem reads_rangeId : rangeId.Reads (.only rangeId) :=
  reads_map (fun _ => rfl) (reads_both_only reads_word64 reads_word64)

theorem reads_role : role.Reads (.only role) :=
  reads_choice (fun r => by cases r <;> decide) (by decide)

theorem reads_lifecycle : lifecycle.Reads (.only lifecycle) :=
  reads_choice (fun s => by cases s <;> decide) (by decide)

theorem reads_figures : figures.Reads figuresForms :=
  reads_sortedMap ⟨_, rfl⟩ (reads_both_only reads_text reads_double)

theorem reads_hint : hint.Reads hintForms :=
  reads_map (fun _ => rfl)
    (reads_both reads_text (reads_both reads_figures (reads_option reads_bytes)))

theorem reads_rangeReport : rangeReport.Reads rangeReportForms :=
  reads_map (fun _ => rfl) (reads_both reads_rangeId (reads_both reads_interval
    (reads_both reads_role (reads_both reads_word64
      (reads_both reads_lifecycle (reads_list ⟨_, rfl⟩ reads_hint))))))

theorem reads_storeReport : storeReport.Reads storeReportForms :=
  reads_map (fun _ => rfl)
    (reads_both reads_text (reads_both (reads_list ⟨_, rfl⟩ reads_rangeReport) reads_figures))

theorem reads_logEntry : logEntry.Reads (.only logEntry) :=
  reads_map (fun _ => rfl) (reads_both_only reads_word64 (reads_both_only reads_word64 reads_bytes))

theorem reads_snapshot : snapshot.Reads (.only snapshot) :=
  reads_map (fun _ => rfl) (reads_both_only reads_rangeId (reads_both_only reads_word64
    (reads_both_only reads_text (reads_both_only reads_word64 reads_lifecycle))))

theorem reads_backoffSettings : backoffSettings.Reads (.only backoffSettings) :=
  reads_map (fun _ => rfl)
    (reads_both_only reads_duration (reads_both_only reads_duration reads_double))

theorem reads_replaySettings : replaySettings.Reads (.only replaySettings) :=
  reads_map (fun _ => rfl) (reads_both_only reads_word64 (reads_both_only reads_duration
    (reads_both_only (reads_option reads_backoffSettings) reads_word64)))

theorem reads_splitSettings : splitSettings.Reads (.only splitSettings) :=
  reads_map (fun _ => rfl) (reads_both_only reads_text (reads_both_only reads_word64
    (reads_both_only reads_double (reads_both_only reads_double reads_double))))

theorem reads_controlSettings : controlSettings.Reads (.only controlSettings) :=
  reads_map (fun _ => rfl) (reads_both_only reads_duration reads_duration)

/-- Records delimit themselves. Each of the ten kinds is read back from every
form that it has, whatever follows, and never from a form without its end; only
hints, and the reports that hold them, have more forms than the one written. -/
theorem records_self_delimiting :
    interval.SelfDelimiting (.only interval) ∧ rangeId.SelfDelimiting (.only rangeId) ∧
      hint.SelfDelimiting hintForms ∧ rangeReport.SelfDelimiting rangeReportForms ∧
      storeReport.SelfDelimiting storeReportForms ∧ logEntry.SelfDelimiting (.only logEntry) ∧
      snapshot.SelfDelimiting (.only snapshot) ∧
      replaySettings.SelfDelimiting (.only replaySettings) ∧
      splitSettings.SelfDelimiting (.only splitSettings) ∧
      controlSettings.SelfDelimiting (.only controlSettings) :=
  ⟨reads_interval.selfDelimiting, reads_rangeId.selfDelimiting, reads_hint.selfDelimiting,
    reads_rangeReport.selfDelimiting, reads_storeReport.selfDelimiting,
    reads_logEntry.selfDelimiting, reads_snapshot.selfDelimiting,
    reads_replaySettings.selfDelimiting, reads_splitSettings.selfDelimiting,
    reads_controlSettings.selfDelimiting⟩

/-- A report whose figures stand in descending order of their names, in a hint
and in the report itself, and a byte behind it. -/
theorem records_self_delimiting_of_descending :
    let hinted : LoadHint := ⟨"kv", .ofList [("a", .zero), ("b", .one)], some [0x6D]⟩
    let range : RangeReport := ⟨⟨1, 2⟩, ⟨none, some [0x6D]⟩, .leader, 7, .normal, [hinted]⟩
    let report : StoreReport := ⟨"süd", [range], .ofList [("cpu", .one), ("disk", .zero)]⟩
    let hintForm := text.write "kv" ++
      ((text.both double).list.write [("b", .one), ("a", .zero)] ++
        (option bytes).write (some [0x6D]))
    let rangeForm := rangeId.write range.id ++ (interval.write range.interval ++
      (role.write .leader ++ (word64.write 7 ++ (lifecycle.write .normal ++
        (word64.write 1 ++ hintForm)))))
    let bs := text.write "süd" ++ ((word64.write 1 ++ rangeForm) ++
      (text.both double).list.write [("disk", .zero), ("cpu", .one)])
    storeReportForms report bs ∧ bs ≠ storeReport.write report ∧
      storeReport.decode (bs ++ [0xFF]) = .ok report ∧
      ∃ fault, storeReport.decode (bs.take 40) = .error fault := by
  intro hinted range report hintForm rangeForm bs
  have hhint : hintForms hinted hintForm :=
    ⟨_, _, rfl, rfl, _, _, rfl, ⟨_, .swap _ _ _, rfl⟩, rfl⟩
  have hrange : rangeReportForms range rangeForm :=
    ⟨_, _, rfl, rfl, _, _, rfl, rfl, _, _, rfl, rfl, _, _, rfl, rfl, _, _, rfl, rfl,
      ⟨[hintForm], .cons hhint .nil, rfl⟩⟩
  have hreport : storeReportForms report bs :=
    ⟨_, _, rfl, rfl, _, _, rfl, ⟨[rangeForm], .cons hrange .nil, rfl⟩, ⟨_, .swap _ _ _, rfl⟩⟩
  have hlength : bs.length < UInt64.size := by decide +kernel
  obtain ⟨-, -, -, -, hstore, -⟩ := records_self_delimiting
  refine ⟨hreport, by decide, hstore.whole report bs hreport hlength [0xFF], ?_⟩
  exact hstore.piece report bs hreport hlength _ (List.take_prefix 40 bs) (by decide)

end RangeKeeper.Wire
