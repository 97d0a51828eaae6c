import RangeKeeper.Proofs.Wire.Codec

/-!
Values with several forms. The entries of a map may be written in any order, so
a map has a form for every order of its entries, and what holds maps has a form
for every choice of these. A codec reads forms if the form it writes is one of
them and each of them spells its value. Lengths are written in eight bytes; that
they fit follows when the whole form is no longer than a length can say.
-/

namespace RangeKeeper

/-- The nanoseconds of a span stay below a second. -/
theorem Duration.toNanos_div (d : Duration) : d.toNanos / 1000000000 = d.seconds.toNat := by
  have hnanos := d.nanos.isLt
  rw [toNanos]
  omega

/-- A span has one form. -/
theorem Duration.ofNanos_toNanos (d : Duration) : Duration.ofNanos d.toNanos = d := by
  have hrest : d.toNanos % 1000000000 = d.nanos.val := by
    have hbelow := d.nanos.isLt
    rw [toNanos]
    omega
  have hnanos : Fin.ofNat 1000000000 d.toNanos = d.nanos := Fin.ext hrest
  rw [ofNanos, d.toNanos_div, UInt64.ofNat_toNat, hnanos]

namespace Wire

/-- Which bytes are forms of which values. -/
abbrev Forms (α : Type) := α → Bytes → Prop

variable {α β κ ν : Type}

namespace Forms

def only (c : Codec α) : Forms α := fun a bs => bs = c.write a

def both (F : Forms α) (G : Forms β) : Forms (α × β) := fun p bs =>
  ∃ xs ys, bs = xs ++ ys ∧ F p.1 xs ∧ G p.2 ys

def map (F : Forms α) (unpack : β → α) : Forms β := fun b => F (unpack b)

/-- A length, then one form of each value. -/
def list (F : Forms α) : Forms (List α) := fun xs bs =>
  ∃ parts, List.Forall₂ F xs parts ∧
    bs = Codec.word64.write (UInt64.ofNat xs.length) ++ parts.flatten

def sortedMap [Ord κ] (key : Codec κ) (value : Codec ν) : Forms (SortedMap κ ν) := fun m bs =>
  ∃ es, es.Perm m.entries ∧ bs = (key.both value).list.write es

theorem both_only {c : Codec α} {d : Codec β} : (only c).both (only d) = only (c.both d) := by
  funext p bs
  apply propext
  constructor
  · rintro ⟨xs, ys, rfl, rfl, rfl⟩
    rfl
  · rintro rfl
    exact ⟨c.write p.1, d.write p.2, rfl, rfl, rfl⟩

end Forms

namespace Codec

variable {c : Codec α} {d : Codec β} {F : Forms α} {G : Forms β}

/-- The codec writes one of the forms and reads them all, as long as their
lengths can be written. -/
structure Reads (c : Codec α) (F : Forms α) : Prop where
  written : ∀ a, F a (c.write a)
  spells : ∀ {a bs}, F a bs → bs.length < UInt64.size → Spells c.read bs a

theorem reads_only (h : ∀ a, (c.write a).length < UInt64.size → Spells c.read (c.write a) a) :
    c.Reads (.only c) where
  written _ := rfl
  spells {a bs} hform hlength := by
    obtain rfl := hform
    exact h a hlength

theorem reads_word32 : word32.Reads (.only word32) := reads_only fun n _ => spells_word32 n

theorem reads_word64 : word64.Reads (.only word64) := reads_only fun n _ => spells_word64 n

theorem reads_bytes : bytes.Reads (.only bytes) := by
  refine reads_only fun xs hlength => spells_bytes ?_
  have hform : (bytes.write xs).length = 8 + xs.length := List.length_append
  omega

theorem reads_both (hc : c.Reads F) (hd : d.Reads G) : (c.both d).Reads (F.both G) where
  written p := ⟨c.write p.1, d.write p.2, rfl, hc.written p.1, hd.written p.2⟩
  spells {p bs} hform hlength := by
    obtain ⟨xs, ys, rfl, hxs, hys⟩ := hform
    rw [List.length_append] at hlength
    exact spells_both (hc.spells hxs (by omega)) (hd.spells hys (by omega))

theorem reads_both_only (hc : c.Reads (.only c)) (hd : d.Reads (.only d)) :
    (c.both d).Reads (.only (c.both d)) :=
  Forms.both_only ▸ reads_both hc hd

theorem reads_map {pack : α → β} {unpack : β → α} (hpack : ∀ b, pack (unpack b) = b)
    (hc : c.Reads F) : (c.map pack unpack).Reads (F.map unpack) where
  written b := hc.written (unpack b)
  spells hform hlength := spells_map (hpack _) (hc.spells hform hlength)

theorem reads_refine {pack : α → Except WireFault β} {unpack : β → α}
    (hpack : ∀ b, pack (unpack b) = .ok b) (hc : c.Reads F) :
    (c.refine pack unpack).Reads (F.map unpack) where
  written b := hc.written (unpack b)
  spells hform hlength := spells_refine (hpack _) (hc.spells hform hlength)

theorem reads_double : double.Reads (.only double) := reads_map (fun _ => rfl) reads_word64

theorem reads_text : text.Reads (.only text) := by
  refine reads_refine (fun s => ?_) reads_bytes
  rw [Utf8.decode_encode]
  rfl

/-- Every value of the kind is listed, and the list is short enough for the
numbers. -/
theorem reads_choice [BEq α] [LawfulBEq α] {all : List α} (hall : ∀ a, a ∈ all)
    (hlength : all.length < UInt32.size) : (choice all).Reads (.only (choice all)) := by
  refine reads_refine (fun a => ?_) reads_word32
  have hindex : all.idxOf a < all.length := List.idxOf_lt_length_of_mem (hall a)
  have hnumber : (UInt32.ofNat (all.idxOf a)).toNat = all.idxOf a :=
    UInt32.toNat_ofNat_of_lt' (Nat.lt_trans hindex hlength)
  rw [hnumber, List.getElem?_idxOf (hall a)]
  rfl

theorem reads_duration : duration.Reads (.only duration) := by
  refine reads_refine (fun d => ?_) (reads_both_only reads_word64 reads_word32)
  have hnanos : (UInt32.ofNat d.nanos.val).toNat = d.nanos.val :=
    UInt32.toNat_ofNat_of_lt' (Nat.lt_trans d.nanos.isLt (by decide))
  have hfits : ¬ Nat.pow 2 64 ≤ d.toNanos / 1000000000 := by
    rw [d.toNanos_div]
    exact Nat.not_le_of_lt d.seconds.toNat_lt
  rw [hnanos]
  exact (if_neg hfits).trans (congrArg Except.ok d.ofNanos_toNanos)

theorem reads_option (hc : c.Reads (.only c)) : (option c).Reads (.only (option c)) := by
  refine reads_only fun a hlength => ?_
  cases a with
  | none => exact .byte ⟨_, rfl⟩ (fun _ => rfl) (.known none)
  | some a =>
      have hwritten : (c.write a).length < UInt64.size := Nat.lt_of_succ_lt hlength
      exact .byte ⟨_, rfl⟩ (fun _ => rfl) ((hc.spells rfl hwritten).map some)

/-- What is read from no bytes is nothing, so a form is not empty. -/
theorem length_pos_of_spells {a : α} {bs : Bytes} (hempty : ∃ fault, c.read [] = .error fault)
    (h : Spells c.read bs a) : 0 < bs.length := by
  apply List.length_pos_iff.mpr
  rintro rfl
  obtain ⟨fault, hfault⟩ := hempty
  cases hfault.symm.trans (h.whole [])

/-- Forms that fit together fit one by one, and there are no more of them than
bytes. -/
theorem spells_forms {xs : List α} {parts : List Bytes} (hempty : ∃ fault, c.read [] = .error fault)
    (hc : c.Reads F) (h : List.Forall₂ F xs parts) (hlength : parts.flatten.length < UInt64.size) :
    List.Forall₂ (fun x part => Spells c.read part x) xs parts ∧
      xs.length ≤ parts.flatten.length := by
  induction h with
  | nil => exact ⟨.nil, Nat.le_refl 0⟩
  | cons hform _ ih =>
      rw [List.flatten_cons, List.length_append] at hlength ⊢
      have hspells := hc.spells hform (by omega)
      obtain ⟨hothers, hcount⟩ := ih (by omega)
      have hpos := length_pos_of_spells hempty hspells
      rw [List.length_cons]
      exact ⟨.cons hspells hothers, by omega⟩

theorem reads_list (hempty : ∃ fault, c.read [] = .error fault) (hc : c.Reads F) :
    c.list.Reads F.list where
  written xs := by
    refine ⟨xs.map c.write, ?_, ?_⟩
    · exact List.forall₂_map_right_iff.mpr (List.forall₂_same.mpr fun x _ => hc.written x)
    · rw [← List.flatMap_def]
      rfl
  spells {xs bs} hform hlength := by
    obtain ⟨parts, hparts, rfl⟩ := hform
    rw [List.length_append] at hlength
    obtain ⟨hspells, hcount⟩ := spells_forms hempty hc hparts (by omega)
    exact spells_list_parts (by omega) hspells

theorem reads_sortedMap [Ord κ] [Std.TransOrd κ] {key : Codec κ} {value : Codec ν}
    (hempty : ∃ fault, (key.both value).read [] = .error fault)
    (hentry : (key.both value).Reads (.only (key.both value))) :
    (sortedMap key value).Reads (.sortedMap key value) where
  written m := ⟨m.entries, .refl _, rfl⟩
  spells {m bs} hform hlength := by
    obtain ⟨es, hperm, rfl⟩ := hform
    have hentries := reads_list hempty hentry
    have hspells := (hentries.spells (hentries.written es) hlength).map SortedMap.ofList
    rwa [SortedMap.ofList_of_perm hperm] at hspells

end Codec

end Wire

end RangeKeeper
