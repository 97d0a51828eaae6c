/-!
Keys of the key space. A key is a finite string of bytes and keys compare byte
by byte, a proper initial part before its extensions, so the empty key is the
least of all. The three-way comparison is stated over the strict order of lists,
which carries the theory of a linear order.
-/

namespace RangeKeeper

abbrev Bytes := List UInt8

abbrev Key := Bytes

def Key.order (a b : Key) : Ordering := compareOfLessAndEq a b

theorem Key.order_eq_lt {a b : Key} : Key.order a b = .lt ↔ a < b :=
  compareOfLessAndEq_eq_lt

theorem Key.order_eq_eq {a b : Key} : Key.order a b = .eq ↔ a = b :=
  compareOfLessAndEq_eq_eq List.le_refl Std.not_le

theorem Key.order_eq_gt {a b : Key} : Key.order a b = .gt ↔ b < a :=
  compareOfLessAndEq_eq_gt Std.le_antisymm (fun _ _ => Std.le_total) Std.not_le a b

theorem Key.order_swap (a b : Key) : Key.order a b = (Key.order b a).swap :=
  compareOfLessAndEq_eq_swap Std.le_antisymm (fun _ _ => Std.le_total) Std.not_le

end RangeKeeper
