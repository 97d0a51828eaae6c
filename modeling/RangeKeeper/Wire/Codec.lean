import RangeKeeper.Duration
import RangeKeeper.Fault
import RangeKeeper.SortedMap

/-!
Wire forms, put together from small ones. A codec writes a value as bytes and
reads it back off the front of a byte list, handing on what follows, so codecs
chain in the order of their bytes. Numbers have a fixed width, low byte first; a
string of bytes, a text or a list follows its length; an alternative follows its
number. Bytes behind the value are no fault of the value.
-/

namespace RangeKeeper.Wire

/-- A writer, and the reader that gives a value back with the bytes behind it,
or says why there is none. -/
structure Codec (α : Type) where
  write : α → Bytes
  read : Bytes → Except WireFault (α × Bytes)

/-- The `width` low bytes of `n`, the lowest first. -/
def littleEndian : (width n : Nat) → Bytes
  | 0, _ => []
  | width + 1, n => UInt8.ofNat n :: littleEndian width (n / 256)

def readLittleEndian : (width : Nat) → Bytes → Except WireFault (Nat × Bytes)
  | 0, bs => .ok (0, bs)
  | _ + 1, [] => .error .endOfInput
  | width + 1, b :: bs => do
    let (high, rest) ← readLittleEndian width bs
    .ok (b.toNat + 256 * high, rest)

def readMany {α : Type} (read : Bytes → Except WireFault (α × Bytes)) :
    (count : Nat) → Bytes → Except WireFault (List α × Bytes)
  | 0, bs => .ok ([], bs)
  | count + 1, bs => do
    let (x, bs) ← read bs
    let (xs, bs) ← readMany read count bs
    .ok (x :: xs, bs)

namespace Codec

variable {α β : Type}

/-- Present the values of a codec in another way; `pack` undoes `unpack`. -/
def map (c : Codec α) (pack : α → β) (unpack : β → α) : Codec β where
  write b := c.write (unpack b)
  read bs := do
    let (a, rest) ← c.read bs
    .ok (pack a, rest)

def refine (c : Codec α) (pack : α → Except WireFault β) (unpack : β → α) : Codec β where
  write b := c.write (unpack b)
  read bs := do
    let (a, rest) ← c.read bs
    .ok (← pack a, rest)

def both (c : Codec α) (d : Codec β) : Codec (α × β) where
  write p := c.write p.1 ++ d.write p.2
  read bs := do
    let (a, bs) ← c.read bs
    let (b, bs) ← d.read bs
    .ok ((a, b), bs)

def word32 : Codec UInt32 where
  write n := littleEndian 4 n.toNat
  read bs := do
    let (n, rest) ← readLittleEndian 4 bs
    .ok (UInt32.ofNat n, rest)

def word64 : Codec UInt64 where
  write n := littleEndian 8 n.toNat
  read bs := do
    let (n, rest) ← readLittleEndian 8 bs
    .ok (UInt64.ofNat n, rest)

def double : Codec Double := word64.map Double.mk Double.bits

/-- A length, then as many bytes. -/
def bytes : Codec Bytes where
  write bs := word64.write (UInt64.ofNat bs.length) ++ bs
  read bs := do
    let (n, rest) ← word64.read bs
    if rest.length < n.toNat then .error .lengthPastInput
    else .ok (rest.take n.toNat, rest.drop n.toNat)

def text : Codec String :=
  bytes.refine (fun bs => (Utf8.decode bs).mapError .text) Utf8.encode

/-- A tag, zero for an absent value and one before a present one. -/
def option (c : Codec α) : Codec (Option α) where
  write
    | none => [0]
    | some a => 1 :: c.write a
  read
    | [] => .error .endOfInput
    | tag :: bs =>
      if tag = 0 then .ok (none, bs)
      else if tag = 1 then do
        let (a, rest) ← c.read bs
        .ok (some a, rest)
      else .error (.optionTag tag)

def list (c : Codec α) : Codec (List α) where
  write xs := word64.write (UInt64.ofNat xs.length) ++ xs.flatMap c.write
  read bs := do
    let (n, rest) ← word64.read bs
    readMany c.read n.toNat rest

/-- The number of a value in the list of all values of its kind. -/
def choice [BEq α] (all : List α) : Codec α :=
  word32.refine
    (fun n => (all[n.toNat]?).elim (.error (.alternative n all.length)) .ok)
    (fun a => UInt32.ofNat (all.idxOf a))

/-- The number of the alternative, zero or one, then its value. -/
def either (c : Codec α) (d : Codec β) : Codec (α ⊕ β) where
  write
    | .inl a => word32.write 0 ++ c.write a
    | .inr b => word32.write 1 ++ d.write b
  read bs := do
    let (n, bs) ← word32.read bs
    if n = 0 then do
      let (a, rest) ← c.read bs
      .ok (.inl a, rest)
    else if n = 1 then do
      let (b, rest) ← d.read bs
      .ok (.inr b, rest)
    else .error (.alternative n 2)

/-- The entries of a map; of two entries with one key the later counts. -/
def sortedMap {κ ν : Type} [Ord κ] [Std.TransOrd κ] (key : Codec κ) (value : Codec ν) :
    Codec (SortedMap κ ν) :=
  (key.both value).list.map SortedMap.ofList SortedMap.entries

/-- Seconds, then nanoseconds. A whole second of nanoseconds is carried into the
seconds. -/
def duration : Codec Duration :=
  (word64.both word32).refine
    (fun p =>
      let total := p.1.toNat * 1000000000 + p.2.toNat
      if Nat.pow 2 64 ≤ total / 1000000000 then .error .spanTooLong
      else .ok (Duration.ofNanos total))
    (fun d => (d.seconds, UInt32.ofNat d.nanos.val))

/-- The value that a whole byte list holds at its front. -/
def decode (c : Codec α) (bs : Bytes) : Except WireFault α := (c.read bs).map Prod.fst

end Codec

end RangeKeeper.Wire
