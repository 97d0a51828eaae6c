/-!
Finite maps kept as a list of entries in strictly ascending key order, so
listing the map and searching it agree on one order, and no key can occur twice.
One operation, `upsert`, changes a map; it touches the entry of its own key and
leaves every other entry as it is.
-/

namespace RangeKeeper

/-- Entries in strictly ascending order of their keys. -/
structure SortedMap (κ : Type) (ν : Type) [Ord κ] where
  entries : List (κ × ν)
  ascending : entries.Pairwise (fun a b => compare a.1 b.1 = .lt)

namespace SortedMap

variable {κ ν : Type} [Ord κ]

/-- Give key `k` the value that `f` makes of its present one, in a list that is
already sorted. -/
def upsertEntry (k : κ) (f : Option ν → ν) : List (κ × ν) → List (κ × ν)
  | [] => [(k, f none)]
  | (k', v) :: rest =>
    match compare k k' with
    | .lt => (k, f none) :: (k', v) :: rest
    | .eq => (k', f (some v)) :: rest
    | .gt => (k', v) :: upsertEntry k f rest

/-- A key listed after the change is the changed key or was listed before, up to
the order. -/
theorem key_of_mem_upsertEntry {k : κ} {f : Option ν → ν} {es : List (κ × ν)} {e : κ × ν}
    (h : e ∈ upsertEntry k f es) : e.1 = k ∨ ∃ e' ∈ es, e'.1 = e.1 := by
  induction es with
  | nil => simp_all [upsertEntry]
  | cons hd tl ih =>
    obtain ⟨k', v⟩ := hd
    rw [upsertEntry] at h
    split at h
    · rcases List.mem_cons.mp h with rfl | h
      · exact .inl rfl
      · exact .inr ⟨e, h, rfl⟩
    · rcases List.mem_cons.mp h with rfl | h
      · exact .inr ⟨(k', v), List.mem_cons_self, rfl⟩
      · exact .inr ⟨e, List.mem_cons_of_mem _ h, rfl⟩
    · rcases List.mem_cons.mp h with rfl | h
      · exact .inr ⟨(k', v), List.mem_cons_self, rfl⟩
      · rcases ih h with h | ⟨e', he', h⟩
        · exact .inl h
        · exact .inr ⟨e', List.mem_cons_of_mem _ he', h⟩

theorem upsertEntry_ascending [Std.TransOrd κ] {k : κ} {f : Option ν → ν} {es : List (κ × ν)}
    (h : es.Pairwise (fun a b => compare a.1 b.1 = .lt)) :
    (upsertEntry k f es).Pairwise (fun a b => compare a.1 b.1 = .lt) := by
  induction es with
  | nil => simp [upsertEntry]
  | cons hd tl ih =>
    obtain ⟨k', v⟩ := hd
    obtain ⟨hhead, htail⟩ := List.pairwise_cons.mp h
    rw [upsertEntry]
    split
    next hlt =>
      refine List.pairwise_cons.mpr ⟨fun e he => ?_, h⟩
      rcases List.mem_cons.mp he with rfl | he
      · exact hlt
      · exact Std.TransCmp.lt_trans hlt (hhead e he)
    next => exact List.pairwise_cons.mpr ⟨hhead, htail⟩
    next hgt =>
      refine List.pairwise_cons.mpr ⟨fun e he => ?_, ih htail⟩
      rcases key_of_mem_upsertEntry he with he | ⟨e', he', heq⟩
      · rw [he]; exact Std.OrientedCmp.lt_of_gt hgt
      · rw [← heq]; exact hhead e' he'

/-- A map is its entries. -/
theorem ext_entries {a b : SortedMap κ ν} (h : a.entries = b.entries) : a = b := by
  cases a; cases b; simp_all

instance [DecidableEq κ] [DecidableEq ν] : DecidableEq (SortedMap κ ν) := fun a b =>
  decidable_of_iff (a.entries = b.entries) ⟨ext_entries, fun h => h ▸ rfl⟩

def empty : SortedMap κ ν := ⟨[], .nil⟩

instance : Inhabited (SortedMap κ ν) := ⟨empty⟩

/-- Give key `k` the value that `f` makes of its present one, if it has one. -/
def upsert [Std.TransOrd κ] (m : SortedMap κ ν) (k : κ) (f : Option ν → ν) : SortedMap κ ν :=
  ⟨upsertEntry k f m.entries, upsertEntry_ascending m.ascending⟩

def insert [Std.TransOrd κ] (m : SortedMap κ ν) (k : κ) (v : ν) : SortedMap κ ν :=
  m.upsert k fun _ => v

def find? (m : SortedMap κ ν) (k : κ) : Option ν :=
  (m.entries.find? fun e => compare e.1 k == .eq).map Prod.snd

/-- Enter the pairs one after the other, a later one replacing an earlier one of
its key. -/
def ofList [Std.TransOrd κ] (es : List (κ × ν)) : SortedMap κ ν :=
  es.foldl (fun m e => m.insert e.1 e.2) empty

def keys (m : SortedMap κ ν) : List κ := m.entries.map Prod.fst

def values (m : SortedMap κ ν) : List ν := m.entries.map Prod.snd

def size (m : SortedMap κ ν) : Nat := m.entries.length

/-- The entry with the greatest key that is not above `k`. -/
def floor? (m : SortedMap κ ν) (k : κ) : Option (κ × ν) :=
  (m.entries.filter fun e => (compare e.1 k).isLE).getLast?

/-- One side of a range of keys. -/
inductive Limit (κ : Type) where
  | unlimited
  | included (k : κ)
  | excluded (k : κ)
  deriving Repr

def Limit.admitsAbove : Limit κ → κ → Bool
  | .unlimited, _ => true
  | .included low, k => (compare low k).isLE
  | .excluded low, k => compare low k == .lt

def Limit.admitsBelow : Limit κ → κ → Bool
  | .unlimited, _ => true
  | .included high, k => (compare k high).isLE
  | .excluded high, k => compare k high == .lt

def between (m : SortedMap κ ν) (low high : Limit κ) : List (κ × ν) :=
  m.entries.filter fun e => low.admitsAbove e.1 && high.admitsBelow e.1

end SortedMap

end RangeKeeper
