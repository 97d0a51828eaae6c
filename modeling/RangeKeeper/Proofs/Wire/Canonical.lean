import Mathlib.Data.List.Flatten
import RangeKeeper.Proofs.Text.Order
import RangeKeeper.Proofs.Wire.Command
import RangeKeeper.Proofs.Wire.Exact

/-!
The bytes that are taken for a command. A command to split has one form. A
change of replicas lists the stores of two sets, and only these two lists are
free: the same sets may be listed in another order or with repetitions, and the
bytes are the command's own form exactly if both lists ascend. The own form is
never the longer one, and it is taken for the same command.
-/

namespace RangeKeeper

section StoreSet

variable {ids : StoreSet} {listed : List StoreId}

def StoreSet.Ascending (listed : List StoreId) : Prop :=
  listed.Pairwise fun a b => Utf8.encode a < Utf8.encode b

theorem StoreId.compare_eq_lt {a b : StoreId} :
    compare a b = .lt ↔ Utf8.encode a < Utf8.encode b :=
  compareOfLessAndEq_eq_lt.trans Utf8.encode_lt_encode_iff.symm

theorem StoreSet.ascending_keys (ids : StoreSet) : StoreSet.Ascending ids.keys :=
  List.pairwise_map.mpr (ids.ascending.imp StoreId.compare_eq_lt.mp)

theorem StoreSet.keys_ofList (h : StoreSet.Ascending listed) :
    (StoreSet.ofList listed).keys = listed := by
  let ids : StoreSet := ⟨listed.map fun id => (id, ()),
    List.pairwise_map.mpr (h.imp StoreId.compare_eq_lt.mpr)⟩
  have hids : StoreSet.ofList listed = ids := SortedMap.ofList_entries ids
  rw [hids, SortedMap.keys, List.map_map]
  exact List.map_id' listed

theorem StoreSet.keys_ofList_subperm (listed : List StoreId) :
    (StoreSet.ofList listed).keys.Subperm listed := by
  have hkeys := SortedMap.keys_ofList_subperm (listed.map fun id => (id, ()))
  have hlisted : (listed.map fun id => (id, ())).map Prod.fst = listed := by
    rw [List.map_map]
    exact List.map_id' listed
  rwa [hlisted] at hkeys

end StoreSet

namespace Wire

open Codec

variable {bs rest : Bytes}

theorem write_word64_length (n : UInt64) : (word64.write n).length = 8 := rfl

theorem exact_rangeId : rangeId.Exact :=
  exact_map (fun _ => rfl) (exact_both exact_word64 exact_word64)

theorem exact_splitCommand : splitCommand.Exact :=
  exact_map (fun _ => rfl)
    (exact_both exact_rangeId (exact_both exact_text (exact_both exact_word64 exact_bytes)))

structure Listing (ids : StoreSet) (listed : List StoreId) : Prop where
  members : ids = StoreSet.ofList listed
  spells : Spells text.list.read (text.list.write listed) listed

theorem Listing.spells_ids {ids : StoreSet} {listed : List StoreId} (h : Listing ids listed) :
    Spells storeSet.read (text.list.write listed) ids :=
  h.members ▸ h.spells.map StoreSet.ofList

/-- Any list is a listing of its set, if its lengths can be written. -/
theorem Listing.of_names {ids : StoreSet} {listed : List StoreId}
    (hids : ids = StoreSet.ofList listed) (hcount : listed.length < UInt64.size)
    (hnames : ∀ id ∈ listed, (Utf8.encode id).length < UInt64.size) : Listing ids listed :=
  ⟨hids, spells_list hcount fun id hid => spells_text (hnames id hid)⟩

/-- A set that was read was listed, and it can be listed by its members. -/
theorem read_storeSet {ids : StoreSet} (h : storeSet.read bs = .ok (ids, rest)) :
    ∃ listed, bs = text.list.write listed ++ rest ∧ Listing ids listed ∧ Listing ids ids.keys := by
  obtain ⟨listed, hlisted, rfl⟩ := read_map h
  obtain ⟨hform, hcount, hspells⟩ := read_list exact_text hlisted
  have hkeys := StoreSet.keys_ofList_subperm listed
  refine ⟨listed, hform, ⟨rfl, spells_list hcount hspells⟩, (StoreSet.ofList_keys _).symm, ?_⟩
  refine spells_list ?_ fun id hid => hspells id (hkeys.subset hid)
  exact Nat.lt_of_le_of_lt hkeys.length_le hcount

/-- No listing of a set is shorter than the listing by its members. -/
theorem write_keys_length_le {ids : StoreSet} {listed : List StoreId} (h : Listing ids listed) :
    (text.list.write ids.keys).length ≤ (text.list.write listed).length := by
  have hkeys : ids.keys.Subperm listed := h.members ▸ StoreSet.keys_ofList_subperm listed
  obtain ⟨inner, hperm, hsublist⟩ := hkeys
  have hsame : (inner.flatMap text.write).length = (ids.keys.flatMap text.write).length :=
    (hperm.flatMap_right text.write).length_eq
  have hle : (inner.flatMap text.write).length ≤ (listed.flatMap text.write).length :=
    (hsublist.flatMap text.write).length_le
  rw [list_write, list_write, List.length_append, List.length_append, write_word64_length,
    write_word64_length]
  omega

/-- A set is listed in its own form if the listing ascends. -/
theorem Listing.eq_keys_iff {ids : StoreSet} {listed : List StoreId} (h : Listing ids listed) :
    listed = ids.keys ↔ StoreSet.Ascending listed := by
  constructor
  · rintro rfl
    exact StoreSet.ascending_keys ids
  · intro hascending
    rw [h.members, StoreSet.keys_ofList hascending]

end Wire

namespace ChangeConfigCommand

def listing (c : ChangeConfigCommand) (voters learners : List StoreId) : Bytes :=
  Wire.Codec.word32.write 1 ++ (Wire.rangeId.write c.rangeId ++ (Wire.Codec.text.write c.toStore ++
    (Wire.Codec.word64.write c.expectedVersion ++
      (Wire.Codec.text.list.write voters ++ Wire.Codec.text.list.write learners))))

end ChangeConfigCommand

namespace Wire

open Codec

variable {bs rest : Bytes} {c : ChangeConfigCommand} {voters learners : List StoreId}

/-- The bytes of a change of replicas, its sets listed so. -/
structure Listed (c : ChangeConfigCommand) (voters learners : List StoreId) : Prop where
  store : Spells text.read (text.write c.toStore) c.toStore
  voters : Listing c.voters voters
  learners : Listing c.learners learners

theorem Listed.spells (h : Listed c voters learners) :
    Spells command.read (c.listing voters learners) (.changeConfig c) := by
  have hsets := spells_both h.voters.spells_ids h.learners.spells_ids
  have hfields : Spells changeConfigCommand.read _ c :=
    spells_map rfl (spells_both (spells_rangeId c.rangeId)
      (spells_both h.store (spells_both (spells_word64 c.expectedVersion) hsets)))
  exact spells_map rfl (spells_inr hfields)

theorem read_changeConfigCommand (h : changeConfigCommand.read bs = .ok (c, rest)) :
    ∃ voters learners, word32.write 1 ++ bs = c.listing voters learners ++ rest ∧
      Listed c voters learners ∧ Listed c c.voters.keys c.learners.keys := by
  obtain ⟨⟨id, store, version, votersSet, learnersSet⟩, hfields, rfl⟩ := read_map h
  obtain ⟨afterId, hid, hfields⟩ := read_both hfields
  obtain ⟨afterStore, hstore, hfields⟩ := read_both hfields
  obtain ⟨afterVersion, hversion, hfields⟩ := read_both hfields
  obtain ⟨afterVoters, hvoters, hlearners⟩ := read_both hfields
  obtain ⟨voters, hvotersForm, hvoters, hownVoters⟩ := read_storeSet hvoters
  obtain ⟨learners, hlearnersForm, hlearners, hownLearners⟩ := read_storeSet hlearners
  have hspelled := exact_text.spells hstore
  refine ⟨voters, learners, ?_, ⟨hspelled, hvoters, hlearners⟩,
    ⟨hspelled, hownVoters, hownLearners⟩⟩
  rw [exact_rangeId.form hid, exact_text.form hstore, exact_word64.form hversion, hvotersForm,
    hlearnersForm]
  simp only [ChangeConfigCommand.listing, List.append_assoc]

/-- The bytes say how the sets are listed. -/
theorem Listed.unique {voters' learners' : List StoreId} {t : Bytes} (h : Listed c voters learners)
    (h' : Listed c voters' learners')
    (heq : c.listing voters learners ++ t = c.listing voters' learners' ++ rest) :
    voters = voters' ∧ learners = learners' := by
  simp only [ChangeConfigCommand.listing, List.append_assoc, List.append_cancel_left_eq] at heq
  obtain ⟨hvoters, hbehind⟩ := h.voters.spells.split h'.voters.spells heq
  exact ⟨hvoters, (h.learners.spells.split h'.learners.spells hbehind).1⟩

theorem Listed.keys_length_le (h : Listed c voters learners) :
    (c.listing c.voters.keys c.learners.keys).length ≤ (c.listing voters learners).length := by
  have hvoters := write_keys_length_le h.voters
  have hlearners := write_keys_length_le h.learners
  simp only [ChangeConfigCommand.listing, List.length_append]
  omega

end Wire

namespace Command

variable {bs : Bytes} {c : Command}

/-- A split that was read stands there in its own form. A change of replicas
stands there with its sets listed somehow; this is its own form exactly if both
lists ascend, and its own form, which is no longer, is read as the same
change. -/
theorem wire_form_up_to_listing (h : ofBytes? bs = .ok c) :
    match c with
    | .split _ => c.toBytes <+: bs
    | .changeConfig change => ∃ voters learners rest,
        bs = change.listing voters learners ++ rest ∧ Wire.command.read bs = .ok (c, rest) ∧
          change.voters = StoreSet.ofList voters ∧ change.learners = StoreSet.ofList learners ∧
          (c.toBytes <+: bs ↔ StoreSet.Ascending voters ∧ StoreSet.Ascending learners) ∧
          c.toBytes.length ≤ (change.listing voters learners).length ∧
          ofBytes? c.toBytes = .ok c := by
  obtain ⟨rest, hread⟩ := Wire.Codec.read_of_decode (Wire.ok_of_mapError h)
  obtain ⟨alternative, halternative, rfl⟩ := Wire.Codec.read_map hread
  rcases Wire.Codec.read_either halternative with
    ⟨command, mid, rfl, rfl, hcommand⟩ | ⟨change, mid, rfl, rfl, hchange⟩
  · refine ⟨rest, ?_⟩
    rw [Wire.exact_splitCommand.form hcommand, ← List.append_assoc]
    rfl
  · obtain ⟨voters, learners, hform, hlisted, hown⟩ := Wire.read_changeConfigCommand hchange
    refine ⟨voters, learners, rest, hform, hread, hlisted.voters.members, hlisted.learners.members,
      ⟨?_, ?_⟩, hlisted.keys_length_le, ?_⟩
    · rintro ⟨t, ht⟩
      obtain ⟨hvoters, hlearners⟩ := hown.unique hlisted (ht.trans hform)
      exact ⟨hlisted.voters.eq_keys_iff.mp hvoters.symm,
        hlisted.learners.eq_keys_iff.mp hlearners.symm⟩
    · rintro ⟨hvoters, hlearners⟩
      obtain rfl := hlisted.voters.eq_keys_iff.mpr hvoters
      obtain rfl := hlisted.learners.eq_keys_iff.mpr hlearners
      exact ⟨rest, hform.symm⟩
    · have hagain := ofBytes?_of_spells hown.spells []
      rwa [List.append_nil] at hagain

/-- Three names for two voters, out of order, and a byte behind the command. -/
theorem wire_form_up_to_listing_of_repeated :
    let change : ChangeConfigCommand :=
      ⟨⟨1, 2⟩, "süd", 7, StoreSet.ofList ["nord", "süd"], StoreSet.ofList ["ost"]⟩
    let bs := change.listing ["süd", "nord", "süd"] ["ost"] ++ [0xFF]
    ofBytes? bs = .ok (changeConfig change) ∧ ¬ (changeConfig change).toBytes <+: bs ∧
      ofBytes? (changeConfig change).toBytes = .ok (changeConfig change) := by
  intro change bs
  have hvoters : Wire.Listing change.voters ["süd", "nord", "süd"] :=
    .of_names (by decide) (by decide) (by decide)
  have hlearners : Wire.Listing change.learners ["ost"] :=
    .of_names (by decide) (by decide) (by decide)
  have hread : ofBytes? bs = .ok (changeConfig change) :=
    ofBytes?_of_spells (Wire.Listed.spells ⟨Wire.Codec.spells_text (by decide), hvoters, hlearners⟩)
      [0xFF]
  obtain ⟨_, _, _, -, -, -, -, -, -, hown⟩ := wire_form_up_to_listing hread
  exact ⟨hread, by decide, hown⟩

end Command

end RangeKeeper
