import Mathlib.Data.List.Forall2
import RangeKeeper.Proofs.SortedMap
import RangeKeeper.Proofs.Text.Utf8
import RangeKeeper.Wire.Codec

/-!
Bytes that spell a value. A reader takes them for the value whatever follows,
and finds fault with every piece of them that ends too early. Both halves
survive when readers are chained, so what a composite codec writes spells the
value because its parts do. No piece of it can be taken for another value, and
no form is the beginning of the form of another.
-/

namespace RangeKeeper.Wire

abbrev Reader (α : Type) := Bytes → Except WireFault (α × Bytes)

variable {α β : Type} {read : Reader α} {bs bs' p t : Bytes} {a : α} {b : β}

/-- The reader takes exactly `bs` for `a`, whatever follows, and refuses every
proper piece of `bs`. -/
structure Spells (read : Reader α) (bs : Bytes) (a : α) : Prop where
  whole : ∀ t, read (bs ++ t) = .ok (a, t)
  piece : ∀ p q, bs = p ++ q → q ≠ [] → ∃ fault, read p = .error fault

namespace Spells

/-- No bytes are needed where the value is known. -/
theorem known (a : α) : Spells (fun rest => .ok (a, rest)) [] a := by
  refine ⟨fun t => rfl, fun p q h hq => ?_⟩
  exact absurd (List.append_eq_nil_iff.mp h.symm).2 hq

/-- What follows is read by a reader that may depend on what was read. -/
theorem bind (h : Spells read bs a) (next : α → Reader β) (hnext : Spells (next a) bs' b) :
    Spells (fun x => do
      let (a, rest) ← read x
      next a rest) (bs ++ bs') b := by
  refine ⟨fun t => ?_, fun p q hsplit hq => ?_⟩
  · rw [List.append_assoc, h.whole]
    exact hnext.whole t
  · rcases List.append_eq_append_iff.mp hsplit with ⟨mid, rfl, rfl⟩ | ⟨mid, rfl, rfl⟩
    · obtain ⟨fault, hfault⟩ := hnext.piece mid q rfl hq
      exact ⟨fault, by rw [h.whole]; exact hfault⟩
    · cases mid with
      | nil =>
          obtain ⟨fault, hfault⟩ := hnext.piece [] bs' rfl hq
          have hread := h.whole []
          rw [List.append_nil, List.append_nil] at hread
          exact ⟨fault, by rw [hread]; exact hfault⟩
      | cons byte mid =>
          obtain ⟨fault, hfault⟩ := h.piece p (byte :: mid) rfl (by simp)
          exact ⟨fault, by rw [hfault]; rfl⟩

/-- The value is worked out from what was read. -/
theorem map (f : α → β) (h : Spells read bs a) :
    Spells (fun x => do
      let (a, rest) ← read x
      .ok (f a, rest)) bs (f a) := by
  have hknown := h.bind (fun a rest => .ok (f a, rest)) (known (f a))
  rwa [List.append_nil] at hknown

/-- One byte and then a reader that may depend on it. -/
theorem byte {byte : UInt8} {next : Reader α} (hnone : ∃ fault, read [] = .error fault)
    (hstep : ∀ rest, read (byte :: rest) = next rest) (h : Spells next bs a) :
    Spells read (byte :: bs) a := by
  refine ⟨fun t => (hstep _).trans (h.whole t), fun p q hsplit hq => ?_⟩
  cases p with
  | nil => exact hnone
  | cons first p =>
      obtain ⟨rfl, hrest⟩ := List.cons.inj hsplit
      obtain ⟨fault, hfault⟩ := h.piece p q hrest hq
      exact ⟨fault, (hstep p).trans hfault⟩

/-- A proper piece is one with something missing. -/
theorem refuses (h : Spells read bs a) (hpiece : p <+: bs) (hproper : p ≠ bs) :
    ∃ fault, read p = .error fault := by
  obtain ⟨q, rfl⟩ := hpiece
  refine h.piece p q rfl ?_
  rintro rfl
  exact hproper (List.append_nil p).symm

/-- Bytes that begin with a form of one value and with a form of another are cut
in one place. -/
theorem split {a' : α} {t' : Bytes} (h : Spells read bs a) (h' : Spells read bs' a')
    (heq : bs ++ t = bs' ++ t') : a = a' ∧ t = t' := by
  have hread := h.whole t
  rw [heq, h'.whole t'] at hread
  cases hread
  exact ⟨rfl, rfl⟩

/-- Of two values whose forms begin alike, one is the other. -/
theorem unique {a' : α} (h : Spells read bs a) (h' : Spells read bs' a') (hbegins : bs <+: bs') :
    a = a' := by
  obtain ⟨t, ht⟩ := hbegins
  rw [← List.append_nil bs'] at ht
  exact (h.split h' ht).1

end Spells

/-- A number that fits is read off as many bytes as it was written in. -/
theorem spells_littleEndian {n : Nat} (width : Nat) (hn : n < Nat.pow 256 width) :
    Spells (readLittleEndian width) (littleEndian width n) n := by
  induction width generalizing n with
  | zero =>
      have hzero : n = 0 := by simpa using hn
      subst hzero
      exact .known 0
  | succ width ih =>
      have hhigh : n / 256 < Nat.pow 256 width := by
        rw [Nat.div_lt_iff_lt_mul (by decide)]
        exact hn
      have hvalue : (UInt8.ofNat n).toNat + 256 * (n / 256) = n := by
        rw [UInt8.toNat_ofNat']
        exact Nat.mod_add_div n 256
      have hspells := (ih hhigh).map fun high => (UInt8.ofNat n).toNat + 256 * high
      rw [hvalue] at hspells
      exact .byte ⟨_, rfl⟩ (fun _ => rfl) hspells

/-- Values that follow one another, each spelled by its own part. -/
theorem spells_parts {xs : List α} {parts : List Bytes}
    (h : List.Forall₂ (fun x part => Spells read part x) xs parts) :
    Spells (readMany read xs.length) parts.flatten xs := by
  induction h with
  | nil => exact .known []
  | cons hx _ ih =>
      exact hx.bind (fun x rest => readMany read _ rest >>= fun r => .ok (x :: r.1, r.2))
        (ih.map fun xs => _ :: xs)

namespace Codec

variable {c : Codec α} {d : Codec β}

theorem spells_map {pack : α → β} {unpack : β → α} (hpack : pack (unpack b) = b)
    (h : Spells c.read bs (unpack b)) : Spells (c.map pack unpack).read bs b := by
  have hspells := h.map pack
  rwa [hpack] at hspells

theorem spells_refine {pack : α → Except WireFault β} {unpack : β → α}
    (hpack : pack (unpack b) = .ok b) (h : Spells c.read bs (unpack b)) :
    Spells (c.refine pack unpack).read bs b := by
  have hknown : Spells (fun rest => do .ok (← pack (unpack b), rest)) [] b := by
    rw [hpack]
    exact .known b
  have hspells := h.bind (fun a rest => do .ok (← pack a, rest)) hknown
  rwa [List.append_nil] at hspells

theorem spells_both (ha : Spells c.read bs a) (hb : Spells d.read bs' b) :
    Spells (c.both d).read (bs ++ bs') (a, b) :=
  ha.bind (fun a rest => do
    let (b, rest) ← d.read rest
    .ok ((a, b), rest)) (hb.map fun b => (a, b))

theorem spells_word32 (n : UInt32) : Spells word32.read (word32.write n) n := by
  have hspells := (spells_littleEndian 4 n.toNat_lt).map UInt32.ofNat
  rwa [UInt32.ofNat_toNat] at hspells

theorem spells_word64 (n : UInt64) : Spells word64.read (word64.write n) n := by
  have hspells := (spells_littleEndian 8 n.toNat_lt).map UInt64.ofNat
  rwa [UInt64.ofNat_toNat] at hspells

def counted (n : UInt64) : Reader Bytes := fun bs =>
  if bs.length < n.toNat then .error .lengthPastInput
  else .ok (bs.take n.toNat, bs.drop n.toNat)

theorem spells_counted {n : UInt64} {xs : Bytes} (hlength : n.toNat = xs.length) :
    Spells (counted n) xs xs := by
  constructor
  · intro t
    simp [counted, hlength]
  · intro p q hsplit hq
    have hshort : p.length < n.toNat := by
      have hmissing := List.length_pos_iff.mpr hq
      rw [hlength, hsplit, List.length_append]
      omega
    exact ⟨.lengthPastInput, if_pos hshort⟩

/-- The length of a string of bytes fits the word it is written in. -/
theorem spells_bytes {xs : Bytes} (hlength : xs.length < UInt64.size) :
    Spells bytes.read (bytes.write xs) xs :=
  (spells_word64 _).bind counted (spells_counted (UInt64.toNat_ofNat_of_lt' hlength))

theorem spells_text {s : String} (hlength : (Utf8.encode s).length < UInt64.size) :
    Spells text.read (text.write s) s := by
  refine spells_refine ?_ (spells_bytes hlength)
  rw [Utf8.decode_encode]
  rfl

/-- A length, then each value spelled by its own part. -/
theorem spells_list_parts {xs : List α} {parts : List Bytes} (hlength : xs.length < UInt64.size)
    (h : List.Forall₂ (fun x part => Spells c.read part x) xs parts) :
    Spells c.list.read (word64.write (UInt64.ofNat xs.length) ++ parts.flatten) xs := by
  have hmany := spells_parts h
  rw [← UInt64.toNat_ofNat_of_lt' hlength] at hmany
  exact (spells_word64 _).bind (fun n => readMany c.read n.toNat) hmany

theorem spells_list {xs : List α} (hlength : xs.length < UInt64.size)
    (h : ∀ x ∈ xs, Spells c.read (c.write x) x) :
    Spells c.list.read (c.list.write xs) xs := by
  have hparts : List.Forall₂ (fun x part => Spells c.read part x) xs (xs.map c.write) :=
    List.forall₂_map_right_iff.mpr (List.forall₂_same.mpr h)
  have hspells := spells_list_parts hlength hparts
  rwa [← List.flatMap_def] at hspells

def alternative (c : Codec α) (d : Codec β) (n : UInt32) : Reader (α ⊕ β) := fun bs =>
  if n = 0 then do
    let (a, rest) ← c.read bs
    .ok (.inl a, rest)
  else if n = 1 then do
    let (b, rest) ← d.read bs
    .ok (.inr b, rest)
  else .error (.alternative n 2)

theorem spells_inl (h : Spells c.read bs a) :
    Spells (c.either d).read (word32.write 0 ++ bs) (.inl a) :=
  (spells_word32 0).bind (alternative c d) (h.map Sum.inl)

theorem spells_inr (h : Spells d.read bs b) :
    Spells (c.either d).read (word32.write 1 ++ bs) (.inr b) :=
  (spells_word32 1).bind (alternative c d) (h.map Sum.inr)

end Codec

end RangeKeeper.Wire
