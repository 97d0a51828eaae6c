import Mathlib.Tactic.SplitIfs
import RangeKeeper.Text.Utf8

/-!
Decoding undoes encoding, and encoding undoes decoding. A scan of an encoded
character takes exactly its bytes, whatever follows: the lead byte tells the
form, and the bounds that a scan puts on the second byte leave out only forms
that are longer than needed, surrogates and values past the last code point,
none of which is a character. So what a scan takes is the form of the character,
and a text has no second form.
-/

namespace RangeKeeper.Utf8

variable {count low high value seen n : Nat} {rest t : Bytes}

/-- A byte within the bounds is taken. -/
theorem follow_byte (hlow : low ≤ n) (hhigh : n ≤ high) (hn : n < 256) :
    follow (count + 1) low high value seen (UInt8.ofNat n :: rest) =
      follow count 0x80 0xBF (value * 64 + (n - 0x80)) (seen + 1) rest := by
  have hbyte : (UInt8.ofNat n).toNat = n := UInt8.toNat_ofNat_of_lt' hn
  rw [follow, hbyte, if_pos ⟨hlow, hhigh⟩]

/-- The bytes behind the second carry six bits each, the high ones first. -/
theorem follow_tail_one (n : Nat) :
    follow 1 0x80 0xBF (n / 64) seen (UInt8.ofNat (0x80 + n % 64) :: t) =
      .scalar (Char.ofNat n) t := by
  rw [follow_byte (by omega) (by omega) (by omega)]
  have hvalue : n / 64 * 64 + (0x80 + n % 64 - 0x80) = n := by omega
  rw [hvalue, follow]

theorem follow_tail_two (n : Nat) :
    follow 2 0x80 0xBF (n / 4096) seen
      (UInt8.ofNat (0x80 + n / 64 % 64) :: UInt8.ofNat (0x80 + n % 64) :: t) =
      .scalar (Char.ofNat n) t := by
  rw [follow_byte (by omega) (by omega) (by omega)]
  have hvalue : n / 4096 * 64 + (0x80 + n / 64 % 64 - 0x80) = n / 64 := by omega
  rw [hvalue, follow_tail_one]

theorem scan_lead (hn : n < 256) : scan (UInt8.ofNat n) rest =
    if n < 0x80 then .scalar (Char.ofNat n) rest
    else if n < 0xC2 then .malformed 1 rest
    else if n < 0xE0 then follow 1 0x80 0xBF (n - 0xC0) 1 rest
    else if n = 0xE0 then follow 2 0xA0 0xBF (n - 0xE0) 1 rest
    else if n = 0xED then follow 2 0x80 0x9F (n - 0xE0) 1 rest
    else if n < 0xF0 then follow 2 0x80 0xBF (n - 0xE0) 1 rest
    else if n = 0xF0 then follow 3 0x90 0xBF (n - 0xF0) 1 rest
    else if n < 0xF4 then follow 3 0x80 0xBF (n - 0xF0) 1 rest
    else if n = 0xF4 then follow 3 0x80 0x8F (n - 0xF0) 1 rest
    else .malformed 1 rest := by
  have hbyte : (UInt8.ofNat n).toNat = n := UInt8.toNat_ofNat_of_lt' hn
  simp only [scan, hbyte]

/-- The second byte of a form of three is within the bounds that the lead byte
sets. -/
theorem scan_lead_three (hlow : 0x800 ≤ n) (hhigh : n < 0x10000)
    (hchar : n < 0xD800 ∨ 0xDFFF < n) (rest : Bytes) : ∃ low high,
    low ≤ 0x80 + n / 64 % 64 ∧ 0x80 + n / 64 % 64 ≤ high ∧
      scan (UInt8.ofNat (0xE0 + n / 4096)) rest = follow 2 low high (n / 4096) 1 rest := by
  have hlead : 0xE0 + n / 4096 - 0xE0 = n / 4096 := Nat.add_sub_cancel_left ..
  rw [scan_lead (by omega), if_neg (by omega), if_neg (by omega), if_neg (by omega), hlead]
  by_cases hfirst : n / 4096 = 0
  · exact ⟨0xA0, 0xBF, by omega, by omega, by rw [if_pos (by omega)]⟩
  · rw [if_neg (by omega)]
    by_cases hbefore : n / 4096 = 13
    · exact ⟨0x80, 0x9F, by omega, by omega, by rw [if_pos (by omega)]⟩
    · exact ⟨0x80, 0xBF, by omega, by omega, by rw [if_neg (by omega), if_pos (by omega)]⟩

/-- The second byte of a form of four is within the bounds that the lead byte
sets. -/
theorem scan_lead_four (hlow : 0x10000 ≤ n) (hhigh : n < 0x110000) (rest : Bytes) :
    ∃ low high,
    low ≤ 0x80 + n / 4096 % 64 ∧ 0x80 + n / 4096 % 64 ≤ high ∧
      scan (UInt8.ofNat (0xF0 + n / 262144)) rest = follow 3 low high (n / 262144) 1 rest := by
  have hlead : 0xF0 + n / 262144 - 0xF0 = n / 262144 := Nat.add_sub_cancel_left ..
  rw [scan_lead (by omega), if_neg (by omega), if_neg (by omega), if_neg (by omega),
    if_neg (by omega), if_neg (by omega), if_neg (by omega), hlead]
  by_cases hfirst : n / 262144 = 0
  · exact ⟨0x90, 0xBF, by omega, by omega, by rw [if_pos (by omega)]⟩
  · rw [if_neg (by omega)]
    by_cases hlast : n / 262144 = 4
    · exact ⟨0x80, 0x8F, by omega, by omega, by rw [if_neg (by omega), if_pos (by omega)]⟩
    · exact ⟨0x80, 0xBF, by omega, by omega, by rw [if_pos (by omega)]⟩

/-- The code points of characters: below the surrogates, or above them and below
the end. -/
theorem toNat_char (c : Char) :
    c.toNat < 0xD800 ∨ 0xDFFF < c.toNat ∧ c.toNat < 0x110000 := c.valid

theorem scan_encodeChar (c : Char) (t : Bytes) :
    ∃ lead tail, encodeChar c = lead :: tail ∧ scan lead (tail ++ t) = .scalar c t := by
  have hchar := toNat_char c
  have hback : Char.ofNat c.toNat = c := Char.ofNat_toNat c
  unfold encodeChar
  generalize c.toNat = n at hchar hback
  subst hback
  dsimp only
  split_ifs with hone htwo hthree
  · refine ⟨_, _, rfl, ?_⟩
    rw [scan_lead (by omega), if_pos hone]
    rfl
  · refine ⟨_, _, rfl, ?_⟩
    have hlead : 0xC0 + n / 64 - 0xC0 = n / 64 := Nat.add_sub_cancel_left ..
    rw [scan_lead (by omega), if_neg (by omega), if_neg (by omega), if_pos (by omega), hlead]
    exact follow_tail_one n
  · refine ⟨_, _, rfl, ?_⟩
    obtain ⟨low, high, hlow, hhigh, hscan⟩ := scan_lead_three (n := n) (by omega) hthree
      (by omega) (UInt8.ofNat (0x80 + n / 64 % 64) :: UInt8.ofNat (0x80 + n % 64) :: t)
    have hvalue : n / 4096 * 64 + (0x80 + n / 64 % 64 - 0x80) = n / 64 := by omega
    rw [List.cons_append, List.cons_append, List.nil_append, hscan,
      follow_byte hlow hhigh (by omega), hvalue]
    exact follow_tail_one n
  · refine ⟨_, _, rfl, ?_⟩
    obtain ⟨low, high, hlow, hhigh, hscan⟩ := scan_lead_four (n := n) (by omega) (by omega)
      (UInt8.ofNat (0x80 + n / 4096 % 64) :: UInt8.ofNat (0x80 + n / 64 % 64) ::
        UInt8.ofNat (0x80 + n % 64) :: t)
    have hvalue : n / 262144 * 64 + (0x80 + n / 4096 % 64 - 0x80) = n / 4096 := by omega
    rw [List.cons_append, List.cons_append, List.cons_append, List.nil_append, hscan,
      follow_byte hlow hhigh (by omega), hvalue]
    exact follow_tail_two n

theorem decodeFrom_encodeChar (index : Nat) (c : Char) (t : Bytes) :
    ∃ index', decodeFrom index (encodeChar c ++ t) = (decodeFrom index' t).map (c :: ·) := by
  obtain ⟨lead, tail, hform, hscan⟩ := scan_encodeChar c t
  rw [hform, List.cons_append, decodeFrom]
  split
  next htaken _ =>
    rw [hscan] at htaken
    cases htaken
    exact ⟨_, rfl⟩
  next hmalformed _ =>
    rw [hscan] at hmalformed
    cases hmalformed
  next htruncated _ =>
    rw [hscan] at htruncated
    cases htruncated

theorem decodeFrom_encoded (index : Nat) (cs : List Char) :
    decodeFrom index (cs.flatMap encodeChar) = .ok cs := by
  induction cs generalizing index with
  | nil => rw [List.flatMap_nil, decodeFrom]
  | cons c rest ih =>
      obtain ⟨index', hstep⟩ := decodeFrom_encodeChar index c (rest.flatMap encodeChar)
      rw [List.flatMap_cons, hstep, ih index']
      rfl

/-- What is encoded is well-formed, and decodes to the same text. -/
theorem decode_encode (s : String) : decode (encode s) = .ok s := by
  rw [decode, encode, decodeFrom_encoded]
  exact congrArg Except.ok s.ofList_toList

section Inverse

variable {bs : Bytes} {c : Char}

theorem follow_zero_scalar (h : follow 0 low high value seen bs = .scalar c rest) :
    ∃ n, n = value ∧ c = Char.ofNat n ∧ bs = rest := by
  rw [follow] at h
  cases h
  exact ⟨value, rfl, rfl, rfl⟩

/-- A byte that was taken is within the bounds. -/
theorem follow_succ_scalar (h : follow (count + 1) low high value seen bs = .scalar c rest) :
    ∃ b tail, bs = b :: tail ∧ low ≤ b.toNat ∧ b.toNat ≤ high ∧
      follow count 0x80 0xBF (value * 64 + (b.toNat - 0x80)) (seen + 1) tail = .scalar c rest := by
  cases bs with
  | nil => cases h
  | cons b tail =>
      rw [follow] at h
      split at h
      next hbounds => exact ⟨b, tail, rfl, hbounds.1, hbounds.2, h⟩
      next => cases h

theorem toNat_ofNat (h : n < 0xD800 ∨ 0xDFFF < n ∧ n < 0x110000) : (Char.ofNat n).toNat = n := by
  have hvalid : n.isValidChar := h
  rw [Char.ofNat, dif_pos hvalid]
  rfl

theorem encodeChar_one (h : n < 0x80) : encodeChar (Char.ofNat n) = [UInt8.ofNat n] := by
  rw [encodeChar, toNat_ofNat (by omega), if_pos h]

theorem encodeChar_two (hlow : 0x80 ≤ n) (hhigh : n < 0x800) :
    encodeChar (Char.ofNat n) = [UInt8.ofNat (0xC0 + n / 64), UInt8.ofNat (0x80 + n % 64)] := by
  rw [encodeChar, toNat_ofNat (by omega), if_neg (by omega), if_pos hhigh]

theorem encodeChar_three (hlow : 0x800 ≤ n) (hhigh : n < 0x10000)
    (hchar : n < 0xD800 ∨ 0xDFFF < n) :
    encodeChar (Char.ofNat n) = [UInt8.ofNat (0xE0 + n / 4096),
      UInt8.ofNat (0x80 + n / 64 % 64), UInt8.ofNat (0x80 + n % 64)] := by
  rw [encodeChar, toNat_ofNat (by omega), if_neg (by omega), if_neg (by omega), if_pos hhigh]

theorem encodeChar_four (hlow : 0x10000 ≤ n) (hhigh : n < 0x110000) :
    encodeChar (Char.ofNat n) = [UInt8.ofNat (0xF0 + n / 262144),
      UInt8.ofNat (0x80 + n / 4096 % 64), UInt8.ofNat (0x80 + n / 64 % 64),
      UInt8.ofNat (0x80 + n % 64)] := by
  rw [encodeChar, toNat_ofNat (by omega), if_neg (by omega), if_neg (by omega),
    if_neg (by omega)]

theorem ofNat_eq {b : UInt8} (h : n = b.toNat) : UInt8.ofNat n = b := by
  rw [h, UInt8.ofNat_toNat]

/-- A form of three: the bounds leave out surrogates and what has a shorter
form. -/
theorem encode_of_three {lead : UInt8} (hlead : 0xE0 ≤ lead.toNat ∧ lead.toNat < 0xF0)
    (hshort : lead.toNat = 0xE0 → 0xA0 ≤ low) (hsurrogate : lead.toNat = 0xED → high ≤ 0x9F)
    (hlow : 0x80 ≤ low) (hhigh : high ≤ 0xBF)
    (h : follow 2 low high (lead.toNat - 0xE0) 1 bs = .scalar c rest) :
    lead :: bs = encodeChar c ++ rest := by
  obtain ⟨x, bs, rfl, hxl, hxh, h⟩ := follow_succ_scalar h
  obtain ⟨y, bs, rfl, hyl, hyh, h⟩ := follow_succ_scalar h
  obtain ⟨n, hn, rfl, rfl⟩ := follow_zero_scalar h
  have hfirst : UInt8.ofNat (0xE0 + n / 4096) = lead := ofNat_eq (by omega)
  have hsecond : UInt8.ofNat (0x80 + n / 64 % 64) = x := ofNat_eq (by omega)
  have hthird : UInt8.ofNat (0x80 + n % 64) = y := ofNat_eq (by omega)
  rw [encodeChar_three (by omega) (by omega) (by omega), hfirst, hsecond, hthird]
  rfl

theorem encode_of_four {lead : UInt8} (hlead : 0xF0 ≤ lead.toNat ∧ lead.toNat < 0xF5)
    (hshort : lead.toNat = 0xF0 → 0x90 ≤ low) (hlast : lead.toNat = 0xF4 → high ≤ 0x8F)
    (hlow : 0x80 ≤ low) (hhigh : high ≤ 0xBF)
    (h : follow 3 low high (lead.toNat - 0xF0) 1 bs = .scalar c rest) :
    lead :: bs = encodeChar c ++ rest := by
  obtain ⟨x, bs, rfl, hxl, hxh, h⟩ := follow_succ_scalar h
  obtain ⟨y, bs, rfl, hyl, hyh, h⟩ := follow_succ_scalar h
  obtain ⟨z, bs, rfl, hzl, hzh, h⟩ := follow_succ_scalar h
  obtain ⟨n, hn, rfl, rfl⟩ := follow_zero_scalar h
  have hfirst : UInt8.ofNat (0xF0 + n / 262144) = lead := ofNat_eq (by omega)
  have hsecond : UInt8.ofNat (0x80 + n / 4096 % 64) = x := ofNat_eq (by omega)
  have hthird : UInt8.ofNat (0x80 + n / 64 % 64) = y := ofNat_eq (by omega)
  have hfourth : UInt8.ofNat (0x80 + n % 64) = z := ofNat_eq (by omega)
  rw [encodeChar_four (by omega) (by omega), hfirst, hsecond, hthird, hfourth]
  rfl

/-- A character that was scanned stands there in its form. -/
theorem encodeChar_of_scan {lead : UInt8} (h : scan lead bs = .scalar c rest) :
    lead :: bs = encodeChar c ++ rest := by
  simp only [scan] at h
  split_ifs at h with h1 h2 h3 h4 h5 h6 h7 h8 h9
  · cases h
    rw [encodeChar_one h1, UInt8.ofNat_toNat]
    rfl
  · obtain ⟨x, bs, rfl, hxl, hxh, h⟩ := follow_succ_scalar h
    obtain ⟨n, hn, rfl, rfl⟩ := follow_zero_scalar h
    have hfirst : UInt8.ofNat (0xC0 + n / 64) = lead := ofNat_eq (by omega)
    have hsecond : UInt8.ofNat (0x80 + n % 64) = x := ofNat_eq (by omega)
    rw [encodeChar_two (by omega) (by omega), hfirst, hsecond]
    rfl
  · have h : follow 2 0xA0 0xBF (lead.toNat - 0xE0) 1 bs = .scalar c rest := by
      simpa only [h4] using h
    exact encode_of_three (by omega) (by omega) (by omega) (by omega) (by omega) h
  · exact encode_of_three (by omega) (by omega) (by omega) (by omega) (by omega) h
  · exact encode_of_three (by omega) (by omega) (by omega) (by omega) (by omega) h
  · exact encode_of_four (by omega) (by omega) (by omega) (by omega) (by omega) h
  · exact encode_of_four (by omega) (by omega) (by omega) (by omega) (by omega) h
  · exact encode_of_four (by omega) (by omega) (by omega) (by omega) (by omega) h

theorem encode_of_decodeFrom {index : Nat} {cs : List Char} (h : decodeFrom index bs = .ok cs) :
    cs.flatMap encodeChar = bs := by
  -- The rest behind a character is shorter, which is why the scan says how much
  -- it leaves.
  induction hlength : bs.length using Nat.strongRecOn generalizing index bs cs with
  | _ length ih =>
      cases bs with
      | nil =>
          rw [decodeFrom] at h
          cases h
          rfl
      | cons lead tail =>
          rw [decodeFrom] at h
          split at h
          next c rest hremaining hscan _ =>
            have hshorter : rest.length < length := by
              rw [← hlength, List.length_cons]
              exact Nat.lt_succ_of_le hremaining
            cases hrest : decodeFrom (index + (tail.length + 1 - rest.length)) rest with
            | error flaw =>
                rw [hrest] at h
                cases h
            | ok later =>
                rw [hrest] at h
                cases h
                rw [List.flatMap_cons, ih rest.length hshorter hrest rfl]
                exact (encodeChar_of_scan hscan).symm
          next => cases h
          next => cases h

/-- What decodes to a text is the form of the text: no text has a second
form. -/
theorem encode_of_decode {s : String} (h : decode bs = .ok s) : encode s = bs := by
  cases hchars : decodeFrom 0 bs with
  | error flaw =>
      rw [decode, hchars] at h
      cases h
  | ok cs =>
      rw [decode, hchars] at h
      cases h
      rw [encode, String.toList_ofList]
      exact encode_of_decodeFrom hchars

end Inverse

end RangeKeeper.Utf8
