import RangeKeeper.Proofs.SortedMap
import RangeKeeper.Proofs.Wire.Codec
import RangeKeeper.Wire.Record

/-!
The wire form of commands. The only condition is that every length can be
written in its eight bytes, as any length in the memory of a 64-bit machine can.
-/

namespace RangeKeeper

/-- The number of stores and the length of every name can be written. -/
structure StoreSet.Fits (ids : StoreSet) : Prop where
  count : ids.keys.length < UInt64.size
  names : ∀ id ∈ ids.keys, (Utf8.encode id).length < UInt64.size

structure SplitCommand.Fits (c : SplitCommand) : Prop where
  store : (Utf8.encode c.toStore).length < UInt64.size
  key : c.splitKey.length < UInt64.size

structure ChangeConfigCommand.Fits (c : ChangeConfigCommand) : Prop where
  store : (Utf8.encode c.toStore).length < UInt64.size
  voters : c.voters.Fits
  learners : c.learners.Fits

def Command.Fits : Command → Prop
  | .split c => c.Fits
  | .changeConfig c => c.Fits

/-- A set is the set of its members. -/
theorem StoreSet.ofList_keys (ids : StoreSet) : StoreSet.ofList ids.keys = ids := by
  have hentries : (ids.keys.map fun id => (id, ())) = ids.entries := by
    rw [SortedMap.keys, List.map_map]
    exact List.map_id' ids.entries
  rw [StoreSet.ofList, hentries, SortedMap.ofList_entries]

namespace Wire

open Codec

theorem spells_rangeId (r : RangeId) : Spells rangeId.read (rangeId.write r) r :=
  spells_map rfl (spells_both (spells_word64 r.id) (spells_word64 r.epoch))

theorem spells_storeSet {ids : StoreSet} (h : ids.Fits) :
    Spells storeSet.read (storeSet.write ids) ids :=
  spells_map (StoreSet.ofList_keys ids)
    (spells_list h.count fun id hid => spells_text (h.names id hid))

theorem spells_splitCommand {c : SplitCommand} (h : c.Fits) :
    Spells splitCommand.read (splitCommand.write c) c :=
  spells_map rfl (spells_both (spells_rangeId c.rangeId) (spells_both (spells_text h.store)
    (spells_both (spells_word64 c.expectedVersion) (spells_bytes h.key))))

theorem spells_changeConfigCommand {c : ChangeConfigCommand} (h : c.Fits) :
    Spells changeConfigCommand.read (changeConfigCommand.write c) c :=
  spells_map rfl (spells_both (spells_rangeId c.rangeId) (spells_both (spells_text h.store)
    (spells_both (spells_word64 c.expectedVersion)
      (spells_both (spells_storeSet h.voters) (spells_storeSet h.learners)))))

theorem spells_command {c : Command} (h : c.Fits) : Spells command.read (command.write c) c := by
  cases c with
  | split c => exact spells_map rfl (spells_inl (spells_splitCommand h))
  | changeConfig c => exact spells_map rfl (spells_inr (spells_changeConfigCommand h))

end Wire

namespace Command

variable {c c' : Command}

theorem ofBytes?_of_spells {bs : Bytes} (h : Wire.Spells Wire.command.read bs c) (t : Bytes) :
    ofBytes? (bs ++ t) = .ok c := by
  rw [ofBytes?, Wire.Codec.decode, h.whole t]
  rfl

theorem ofBytes?_toBytes_append (h : c.Fits) (t : Bytes) : ofBytes? (c.toBytes ++ t) = .ok c :=
  ofBytes?_of_spells (Wire.spells_command h) t

theorem ofBytes?_of_piece {p : Bytes} (h : c.Fits) (hpiece : p <+: c.toBytes)
    (hproper : p ≠ c.toBytes) : ∃ fault, ofBytes? p = .error (.wire fault) := by
  obtain ⟨fault, hfault⟩ := (Wire.spells_command h).refuses hpiece hproper
  exact ⟨fault, by rw [ofBytes?, Wire.Codec.decode, hfault]; rfl⟩

/-- A command is read back from its wire form whatever follows it; every proper
piece of the form is refused as unreadable; and no form begins with the form of
another command. -/
theorem wire_form_self_delimiting (h : c.Fits) :
    (∀ t, ofBytes? (c.toBytes ++ t) = .ok c) ∧
      (∀ p, p <+: c.toBytes → p ≠ c.toBytes → ∃ fault, ofBytes? p = .error (.wire fault)) ∧
      ∀ c' : Command, c'.Fits → c.toBytes <+: c'.toBytes → c = c' :=
  ⟨ofBytes?_toBytes_append h, fun _ => ofBytes?_of_piece h, fun _ h' hbegins =>
    (Wire.spells_command h).unique (Wire.spells_command h') hbegins⟩

/-- Two commands that differ in one voter. -/
theorem wire_form_self_delimiting_of_voters :
    let two : Command :=
      .changeConfig ⟨⟨1, 2⟩, "süd", 7, StoreSet.ofList ["süd", "nord"], StoreSet.ofList []⟩
    let one : Command :=
      .changeConfig ⟨⟨1, 2⟩, "süd", 7, StoreSet.ofList ["süd"], StoreSet.ofList []⟩
    two.Fits ∧ one.Fits ∧ ofBytes? (two.toBytes ++ [0xFF]) = .ok two ∧
      (∃ fault, ofBytes? (two.toBytes.take 40) = .error (.wire fault)) ∧
      ¬ one.toBytes <+: two.toBytes := by
  intro two one
  have htwo : two.Fits := ⟨by decide, ⟨by decide, by decide⟩, ⟨by decide, by decide⟩⟩
  have hone : one.Fits := ⟨by decide, ⟨by decide, by decide⟩, ⟨by decide, by decide⟩⟩
  obtain ⟨hread, hpiece, -⟩ := wire_form_self_delimiting htwo
  obtain ⟨-, -, hunique⟩ := wire_form_self_delimiting hone
  refine ⟨htwo, hone, hread [0xFF], hpiece _ (List.take_prefix 40 _) (by decide), ?_⟩
  intro hbegins
  have hsame : one ≠ two := by decide
  exact hsame (hunique two htwo hbegins)

end Command

end RangeKeeper
