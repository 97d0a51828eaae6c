import RangeKeeper.Proofs.Text.Utf8

/-!
The order of texts in bytes. Texts are ordered by their code points, and so are
their encodings as byte lists: a longer form has the greater lead byte, and two
forms of one length differ first where the code points do, as both write the
high digits first.
-/

namespace RangeKeeper.Utf8

variable {a b x y : Bytes} {c d : Char} {m n : Nat}

/-- Of two byte lists of one length the lesser stays the lesser, whatever
follows. -/
theorem append_lt_append (hlength : a.length = b.length) (h : a < b) : a ++ x < b ++ y := by
  induction a generalizing b with
  | nil =>
      rw [List.length_nil, eq_comm, List.length_eq_zero_iff] at hlength
      rw [hlength] at h
      cases h
  | cons byte a ih =>
      cases b with
      | nil => cases hlength
      | cons byte' b =>
          rw [List.cons_append, List.cons_append, List.cons_lt_cons_iff]
          rcases List.cons_lt_cons_iff.mp h with hlt | ⟨heq, hlt⟩
          · exact .inl hlt
          · exact .inr ⟨heq, ih (by simpa using hlength) hlt⟩

/-- Whatever follows the lesser byte comes first. -/
theorem byte_lt_byte (hm : m < 256) (hn : n < 256) (h : m < n) :
    UInt8.ofNat m :: x < UInt8.ofNat n :: y := by
  refine List.cons_lt_cons_iff.mpr (.inl ?_)
  rwa [UInt8.lt_iff_toNat_lt, UInt8.toNat_ofNat_of_lt' hm, UInt8.toNat_ofNat_of_lt' hn]

theorem byte_lt_byte_iff (hm : m < 256) (hn : n < 256) :
    UInt8.ofNat m :: x < UInt8.ofNat n :: y ↔ m < n ∨ m = n ∧ x < y := by
  rw [List.cons_lt_cons_iff, UInt8.lt_iff_toNat_lt, ← UInt8.toNat_inj,
    UInt8.toNat_ofNat_of_lt' hm, UInt8.toNat_ofNat_of_lt' hn]

theorem two_lt_two (hn : n < 0x800) (h : m < n) :
    [UInt8.ofNat (0xC0 + m / 64), UInt8.ofNat (0x80 + m % 64)] <
      [UInt8.ofNat (0xC0 + n / 64), UInt8.ofNat (0x80 + n % 64)] := by
  simp (disch := omega) only [byte_lt_byte_iff, List.not_lt_nil, and_false, or_false]
  omega

theorem three_lt_three (hn : n < 0x10000) (h : m < n) :
    [UInt8.ofNat (0xE0 + m / 4096), UInt8.ofNat (0x80 + m / 64 % 64), UInt8.ofNat (0x80 + m % 64)] <
      [UInt8.ofNat (0xE0 + n / 4096), UInt8.ofNat (0x80 + n / 64 % 64),
        UInt8.ofNat (0x80 + n % 64)] := by
  simp (disch := omega) only [byte_lt_byte_iff, List.not_lt_nil, and_false, or_false]
  omega

theorem four_lt_four (hn : n < 0x110000) (h : m < n) :
    [UInt8.ofNat (0xF0 + m / 262144), UInt8.ofNat (0x80 + m / 4096 % 64),
        UInt8.ofNat (0x80 + m / 64 % 64), UInt8.ofNat (0x80 + m % 64)] <
      [UInt8.ofNat (0xF0 + n / 262144), UInt8.ofNat (0x80 + n / 4096 % 64),
        UInt8.ofNat (0x80 + n / 64 % 64), UInt8.ofNat (0x80 + n % 64)] := by
  simp (disch := omega) only [byte_lt_byte_iff, List.not_lt_nil, and_false, or_false]
  omega

/-- The form of the lesser character comes first, whatever follows. -/
theorem encodeChar_lt_encodeChar (h : c < d) : encodeChar c ++ x < encodeChar d ++ y := by
  have hlt : c.toNat < d.toNat := h
  have hd := toNat_char d
  unfold encodeChar
  generalize c.toNat = m at hlt
  generalize d.toNat = n at hlt hd
  dsimp only
  split_ifs
  -- The lesser character has no longer form than the greater one.
  all_goals try omega
  · exact byte_lt_byte (by omega) (by omega) hlt
  · exact byte_lt_byte (by omega) (by omega) (by omega)
  · exact byte_lt_byte (by omega) (by omega) (by omega)
  · exact byte_lt_byte (by omega) (by omega) (by omega)
  · exact append_lt_append rfl (two_lt_two (by omega) hlt)
  · exact byte_lt_byte (by omega) (by omega) (by omega)
  · exact byte_lt_byte (by omega) (by omega) (by omega)
  · exact append_lt_append rfl (three_lt_three (by omega) hlt)
  · exact byte_lt_byte (by omega) (by omega) (by omega)
  · exact append_lt_append rfl (four_lt_four (by omega) hlt)

theorem flatMap_lt_flatMap {cs ds : List Char} (h : cs < ds) :
    cs.flatMap encodeChar < ds.flatMap encodeChar := by
  induction cs generalizing ds with
  | nil =>
      cases ds with
      | nil => cases h
      | cons d ds =>
          obtain ⟨lead, tail, hform, -⟩ := scan_encodeChar d []
          rw [List.flatMap_cons, hform]
          exact List.nil_lt_cons _ _
  | cons c cs ih =>
      cases ds with
      | nil => cases h
      | cons d ds =>
          rw [List.flatMap_cons, List.flatMap_cons]
          rcases List.cons_lt_cons_iff.mp h with hlt | ⟨rfl, hlt⟩
          · exact encodeChar_lt_encodeChar hlt
          · exact List.append_left_lt (ih hlt)

/-- Texts are ordered as their encodings are. -/
theorem encode_lt_encode_iff {s t : String} : encode s < encode t ↔ s < t := by
  have hforth : ∀ {s t : String}, s < t → encode s < encode t := fun h => flatMap_lt_flatMap h
  refine ⟨fun h => ?_, hforth⟩
  rcases Std.lt_trichotomy s t with hlt | rfl | hback
  · exact hlt
  · exact absurd h (List.lt_irrefl _)
  · exact absurd (hforth hback) (Std.not_lt.mpr (Std.le_of_lt h))

end RangeKeeper.Utf8
