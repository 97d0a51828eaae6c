import RangeKeeper.Proofs.Wire.Codec

/-!
Codecs with one form for each value. What such a codec takes off the front of a
byte list is what it writes for the value it took it for, so reading and writing
again changes no byte. What was read could be written: its lengths have been
spelled once and can be spelled again.
-/

namespace RangeKeeper.Wire

variable {α β : Type} {bs rest : Bytes} {a : α} {b : β}

/-- Where two steps succeed, the first did, and the second from where it got
to. -/
theorem ok_of_bind {x : Except WireFault α} {next : α → Except WireFault β}
    (h : x >>= next = .ok b) :
    ∃ a, x = .ok a ∧ next a = .ok b := by
  cases x with
  | error fault => cases h
  | ok a => exact ⟨a, rfl, h⟩

theorem ok_of_mapError {ε ε' : Type} {f : ε → ε'} {x : Except ε α} (h : x.mapError f = .ok a) :
    x = .ok a := by
  cases x with
  | error fault => cases h
  | ok a' =>
      cases h
      rfl

/-- Bytes that were read as a number are the bytes of the number. -/
theorem littleEndian_of_read {width n : Nat} (h : readLittleEndian width bs = .ok (n, rest)) :
    bs = littleEndian width n ++ rest ∧ n < Nat.pow 256 width := by
  induction width generalizing bs n with
  | zero =>
      cases h
      exact ⟨rfl, by decide⟩
  | succ width ih =>
      cases bs with
      | nil => cases h
      | cons byte bs =>
          obtain ⟨⟨high, mid⟩, hhigh, hvalue⟩ := ok_of_bind h
          cases hvalue
          obtain ⟨rfl, hfits⟩ := ih hhigh
          have hbyte := byte.toNat_lt
          have hlow : UInt8.ofNat (byte.toNat + 256 * high) = byte := by
            apply UInt8.toNat_inj.mp
            rw [UInt8.toNat_ofNat']
            omega
          have hrest : (byte.toNat + 256 * high) / 256 = high := by omega
          refine ⟨by rw [littleEndian, hlow, hrest, List.cons_append], ?_⟩
          have hpow : Nat.pow 256 (width + 1) = Nat.pow 256 width * 256 := rfl
          omega

namespace Codec

variable {c : Codec α} {d : Codec β}

/-- Only what the codec writes is read, and what was read can be written. -/
structure Exact (c : Codec α) : Prop where
  form : ∀ {bs a rest}, c.read bs = .ok (a, rest) → bs = c.write a ++ rest
  spells : ∀ {bs a rest}, c.read bs = .ok (a, rest) → Spells c.read (c.write a) a

theorem read_of_decode (h : c.decode bs = .ok a) : ∃ rest, c.read bs = .ok (a, rest) := by
  rw [decode] at h
  cases hread : c.read bs with
  | error fault =>
      rw [hread] at h
      cases h
  | ok r =>
      rw [hread] at h
      cases h
      exact ⟨r.2, rfl⟩

theorem read_both {p : α × β} (h : (c.both d).read bs = .ok (p, rest)) :
    ∃ mid, c.read bs = .ok (p.1, mid) ∧ d.read mid = .ok (p.2, rest) := by
  obtain ⟨⟨a, mid⟩, ha, h⟩ := ok_of_bind h
  obtain ⟨⟨b, last⟩, hb, h⟩ := ok_of_bind h
  cases h
  exact ⟨mid, ha, hb⟩

theorem read_map {pack : α → β} {unpack : β → α}
    (h : (c.map pack unpack).read bs = .ok (b, rest)) :
    ∃ a, c.read bs = .ok (a, rest) ∧ pack a = b := by
  obtain ⟨⟨a, mid⟩, ha, h⟩ := ok_of_bind h
  cases h
  exact ⟨a, ha, rfl⟩

theorem read_refine {pack : α → Except WireFault β} {unpack : β → α}
    (h : (c.refine pack unpack).read bs = .ok (b, rest)) :
    ∃ a, c.read bs = .ok (a, rest) ∧ pack a = .ok b := by
  obtain ⟨⟨a, mid⟩, ha, h⟩ := ok_of_bind h
  obtain ⟨b', hpack, h⟩ := ok_of_bind h
  cases h
  exact ⟨a, ha, hpack⟩

theorem exact_word32 : word32.Exact := by
  refine ⟨fun {bs n rest} h => ?_, fun {bs n rest} h => spells_word32 n⟩
  obtain ⟨⟨value, mid⟩, hvalue, h⟩ := ok_of_bind h
  cases h
  obtain ⟨hform, hfits⟩ := littleEndian_of_read hvalue
  have hwrite : word32.write (UInt32.ofNat value) = littleEndian 4 value :=
    congrArg (littleEndian 4) (UInt32.toNat_ofNat_of_lt' hfits)
  rw [hwrite]
  exact hform

theorem exact_word64 : word64.Exact := by
  refine ⟨fun {bs n rest} h => ?_, fun {bs n rest} h => spells_word64 n⟩
  obtain ⟨⟨value, mid⟩, hvalue, h⟩ := ok_of_bind h
  cases h
  obtain ⟨hform, hfits⟩ := littleEndian_of_read hvalue
  have hwrite : word64.write (UInt64.ofNat value) = littleEndian 8 value :=
    congrArg (littleEndian 8) (UInt64.toNat_ofNat_of_lt' hfits)
  rw [hwrite]
  exact hform

theorem exact_both (hc : c.Exact) (hd : d.Exact) : (c.both d).Exact where
  form h := by
    obtain ⟨mid, ha, hb⟩ := read_both h
    rw [hc.form ha, hd.form hb, ← List.append_assoc]
    rfl
  spells h := by
    obtain ⟨mid, ha, hb⟩ := read_both h
    exact spells_both (hc.spells ha) (hd.spells hb)

theorem exact_map {pack : α → β} {unpack : β → α} (hunpack : ∀ a, unpack (pack a) = a)
    (hc : c.Exact) : (c.map pack unpack).Exact := by
  have hwrite (a : α) : (c.map pack unpack).write (pack a) = c.write a :=
    congrArg c.write (hunpack a)
  constructor
  · intro bs b rest h
    obtain ⟨a, ha, rfl⟩ := read_map h
    rw [hwrite]
    exact hc.form ha
  · intro bs b rest h
    obtain ⟨a, ha, rfl⟩ := read_map h
    rw [hwrite]
    exact (hc.spells ha).map pack

theorem exact_refine {pack : α → Except WireFault β} {unpack : β → α}
    (hunpack : ∀ {a b}, pack a = .ok b → unpack b = a) (hc : c.Exact) :
    (c.refine pack unpack).Exact := by
  have hwrite {a : α} {b : β} (hpack : pack a = .ok b) :
      (c.refine pack unpack).write b = c.write a := congrArg c.write (hunpack hpack)
  constructor
  · intro bs b rest h
    obtain ⟨a, ha, hpack⟩ := read_refine h
    rw [hwrite hpack]
    exact hc.form ha
  · intro bs b rest h
    obtain ⟨a, ha, hpack⟩ := read_refine h
    obtain rfl := hunpack hpack
    exact spells_refine hpack (hc.spells ha)

theorem bytes_write (xs : Bytes) :
    bytes.write xs = word64.write (UInt64.ofNat xs.length) ++ xs := rfl

theorem list_write (c : Codec α) (xs : List α) :
    c.list.write xs = word64.write (UInt64.ofNat xs.length) ++ xs.flatMap c.write := rfl

/-- A string of bytes is as long as its length says. -/
theorem read_bytes {xs : Bytes} (h : bytes.read bs = .ok (xs, rest)) :
    bs = bytes.write xs ++ rest ∧ xs.length < UInt64.size := by
  obtain ⟨⟨n, mid⟩, hn, h⟩ := ok_of_bind h
  by_cases hshort : mid.length < n.toNat
  · cases (if_pos hshort).symm.trans h
  · cases (if_neg hshort).symm.trans h
    have hlength : (mid.take n.toNat).length = n.toNat := by
      rw [List.length_take]
      omega
    have hwrite : bytes.write (mid.take n.toNat) = word64.write n ++ mid.take n.toNat := by
      rw [bytes_write, hlength, UInt64.ofNat_toNat]
    constructor
    · rw [hwrite, List.append_assoc, List.take_append_drop]
      exact exact_word64.form hn
    · rw [hlength]
      exact n.toNat_lt

theorem exact_bytes : bytes.Exact where
  form h := (read_bytes h).1
  spells h := spells_bytes (read_bytes h).2

theorem exact_text : text.Exact :=
  exact_refine (fun h => Utf8.encode_of_decode (ok_of_mapError h)) exact_bytes

/-- As many values as were asked for, each from its own form. -/
theorem read_many {count : Nat} {xs : List α} (hc : c.Exact)
    (h : readMany c.read count bs = .ok (xs, rest)) :
    bs = xs.flatMap c.write ++ rest ∧ xs.length = count ∧
      ∀ x ∈ xs, Spells c.read (c.write x) x := by
  induction count generalizing bs xs with
  | zero =>
      cases h
      exact ⟨rfl, rfl, by simp⟩
  | succ count ih =>
      obtain ⟨⟨x, mid⟩, hx, h⟩ := ok_of_bind h
      obtain ⟨⟨others, last⟩, hothers, h⟩ := ok_of_bind h
      cases h
      obtain ⟨hform, hcount, hspells⟩ := ih hothers
      refine ⟨?_, congrArg Nat.succ hcount, List.forall_mem_cons.mpr ⟨hc.spells hx, hspells⟩⟩
      rw [hc.form hx, hform, List.flatMap_cons, List.append_assoc]

theorem read_list {xs : List α} (hc : c.Exact) (h : c.list.read bs = .ok (xs, rest)) :
    bs = c.list.write xs ++ rest ∧ xs.length < UInt64.size ∧
      ∀ x ∈ xs, Spells c.read (c.write x) x := by
  obtain ⟨⟨n, mid⟩, hn, h⟩ := ok_of_bind h
  obtain ⟨hform, hcount, hspells⟩ := read_many hc h
  have hwrite : c.list.write xs = word64.write n ++ xs.flatMap c.write := by
    rw [list_write, hcount, UInt64.ofNat_toNat]
  refine ⟨?_, hcount ▸ n.toNat_lt, hspells⟩
  rw [hwrite, List.append_assoc, ← hform]
  exact exact_word64.form hn

/-- The number of an alternative, then its value. -/
theorem read_either {r : α ⊕ β} (h : (c.either d).read bs = .ok (r, rest)) :
    (∃ a mid, r = .inl a ∧ bs = word32.write 0 ++ mid ∧ c.read mid = .ok (a, rest)) ∨
      ∃ b mid, r = .inr b ∧ bs = word32.write 1 ++ mid ∧ d.read mid = .ok (b, rest) := by
  obtain ⟨⟨n, mid⟩, hn, h⟩ := ok_of_bind h
  have hform := exact_word32.form hn
  by_cases hzero : n = 0
  · obtain ⟨⟨a, last⟩, ha, h⟩ := ok_of_bind ((if_pos hzero).symm.trans h)
    cases h
    exact .inl ⟨a, mid, rfl, hzero ▸ hform, ha⟩
  · have hother := (if_neg hzero).symm.trans h
    by_cases hone : n = 1
    · obtain ⟨⟨b, last⟩, hb, h⟩ := ok_of_bind ((if_pos hone).symm.trans hother)
      cases h
      exact .inr ⟨b, mid, rfl, hone ▸ hform, hb⟩
    · cases (if_neg hone).symm.trans hother

end Codec

end RangeKeeper.Wire
