import RangeKeeper.Key

/-!
The UTF-8 form of text, as byte lists. Encoding and scanning are written with
division and remainder on code points, so the one undoes the other by
arithmetic. A scan stops at the first byte that no well-formed sequence
continues with; what it consumed until then is the maximal ill-formed part,
which a lossy reading replaces by one replacement character and a strict reading
reports with its place.
-/

namespace RangeKeeper.Utf8

/-- One to four bytes, by the size of the code point. -/
def encodeChar (c : Char) : Bytes :=
  let n := c.toNat
  if n < 0x80 then [UInt8.ofNat n]
  else if n < 0x800 then [UInt8.ofNat (0xC0 + n / 64), UInt8.ofNat (0x80 + n % 64)]
  else if n < 0x10000 then
    [UInt8.ofNat (0xE0 + n / 4096), UInt8.ofNat (0x80 + n / 64 % 64), UInt8.ofNat (0x80 + n % 64)]
  else
    [UInt8.ofNat (0xF0 + n / 262144), UInt8.ofNat (0x80 + n / 4096 % 64),
      UInt8.ofNat (0x80 + n / 64 % 64), UInt8.ofNat (0x80 + n % 64)]

def encode (s : String) : Bytes := s.toList.flatMap encodeChar

inductive Scan where
  | scalar (c : Char) (rest : Bytes)
  /-- An ill-formed part of `width` bytes, and what follows it. -/
  | malformed (width : Nat) (rest : Bytes)
  /-- The bytes end inside a sequence that was well-formed so far. -/
  | truncated
  deriving Repr

/-- Read `count` more bytes of a sequence. The next one lies in `low … high`;
those after it may be any continuation byte. `seen` bytes of the sequence are
already read and spell `value`. -/
def follow : (count low high value seen : Nat) → Bytes → Scan
  | 0, _, _, value, _, rest => .scalar (Char.ofNat value) rest
  | _ + 1, _, _, _, _, [] => .truncated
  | count + 1, low, high, value, seen, b :: rest =>
    if low ≤ b.toNat ∧ b.toNat ≤ high then
      follow count 0x80 0xBF (value * 64 + (b.toNat - 0x80)) (seen + 1) rest
    else .malformed seen (b :: rest)

/-- The lead byte fixes the length, and narrows the second byte where a longer
form than needed, a surrogate or a value past the last code point would
begin. -/
def scan (lead : UInt8) (rest : Bytes) : Scan :=
  let n := lead.toNat
  if n < 0x80 then .scalar (Char.ofNat n) rest
  else if n < 0xC2 then .malformed 1 rest
  else if n < 0xE0 then follow 1 0x80 0xBF (n - 0xC0) 1 rest
  else if n = 0xE0 then follow 2 0xA0 0xBF (n - 0xE0) 1 rest
  else if n = 0xED then follow 2 0x80 0x9F (n - 0xE0) 1 rest
  else if n < 0xF0 then follow 2 0x80 0xBF (n - 0xE0) 1 rest
  else if n = 0xF0 then follow 3 0x90 0xBF (n - 0xF0) 1 rest
  else if n < 0xF4 then follow 3 0x80 0xBF (n - 0xF0) 1 rest
  else if n = 0xF4 then follow 3 0x80 0x8F (n - 0xF0) 1 rest
  else .malformed 1 rest

def Scan.remaining : Scan → Bytes
  | .scalar _ rest => rest
  | .malformed _ rest => rest
  | .truncated => []

theorem follow_remaining_le (count low high value seen : Nat) (bs : Bytes) :
    (follow count low high value seen bs).remaining.length ≤ bs.length := by
  induction count generalizing low high value seen bs with
  | zero => simp [follow, Scan.remaining]
  | succ count ih =>
    cases bs with
    | nil => simp [follow, Scan.remaining]
    | cons b bs =>
      rw [follow]
      split
      · exact Nat.le_succ_of_le (ih ..)
      · exact Nat.le_refl _

/-- A scan consumes at least the lead byte. -/
theorem scan_remaining_le (lead : UInt8) (bs : Bytes) :
    (scan lead bs).remaining.length ≤ bs.length := by
  simp only [scan]
  repeat' split
  all_goals first
    | exact follow_remaining_le ..
    | exact Nat.le_refl _

/-- Why bytes are not the form of a text: `index` bytes are well-formed, then
comes an ill-formed part of `width` bytes, or the end of the bytes inside a
sequence. -/
inductive Flaw where
  | malformed (width index : Nat)
  | truncated (index : Nat)
  deriving DecidableEq, Repr

/-- The characters of `bs`, of which `index` bytes were read before. -/
def decodeFrom (index : Nat) (bs : Bytes) : Except Flaw (List Char) :=
  match bs with
  | [] => .ok []
  | b :: tail =>
    match scan b tail, scan_remaining_le b tail with
    | .scalar c rest, _ => (decodeFrom (index + (tail.length + 1 - rest.length)) rest).map (c :: ·)
    | .malformed width _, _ => .error (.malformed width index)
    | .truncated, _ => .error (.truncated index)
  termination_by bs.length
  decreasing_by exact Nat.lt_succ_of_le ‹(Scan.scalar c rest).remaining.length ≤ tail.length›

def decode (bs : Bytes) : Except Flaw String := (decodeFrom 0 bs).map String.ofList

/-- The characters of `bs`, with one replacement character for each maximal
ill-formed part. -/
def lossyChars (bs : Bytes) : List Char :=
  match bs with
  | [] => []
  | b :: tail =>
    match scan b tail, scan_remaining_le b tail with
    | .scalar c rest, _ => c :: lossyChars rest
    | .malformed _ rest, _ => '\uFFFD' :: lossyChars rest
    | .truncated, _ => ['\uFFFD']
  termination_by bs.length
  decreasing_by
    · exact Nat.lt_succ_of_le ‹(Scan.scalar c rest).remaining.length ≤ tail.length›
    · exact Nat.lt_succ_of_le ‹(Scan.malformed _ rest).remaining.length ≤ tail.length›

def lossy (bs : Bytes) : String := String.ofList (lossyChars bs)

def Flaw.message : Flaw → String
  | .malformed width index => s!"invalid utf-8 sequence of {width} bytes from index {index}"
  | .truncated index => s!"incomplete utf-8 byte sequence from index {index}"

end RangeKeeper.Utf8
