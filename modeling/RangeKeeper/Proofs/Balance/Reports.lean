import RangeKeeper.Report

/-!
What is reported. A store may report several times; its ranges are then those of
all its reports, in the order they are listed.
-/

namespace RangeKeeper

/-- The first element of the list with the property. -/
def First {α : Type} (p : α → Prop) (xs : List α) (x : α) : Prop :=
  ∃ before after, xs = before ++ x :: after ∧ p x ∧ ∀ y ∈ before, ¬p y

def reportedRanges (reports : List StoreReport) : List RangeReport := reports.flatMap (·.ranges)

/-- The ranges of one store, whichever of its reports lists them. -/
def rangesOf (reports : List StoreReport) (store : StoreId) : List RangeReport :=
  (reports.filter fun s => s.store = store).flatMap (·.ranges)

variable {reports : List StoreReport} {store : StoreId} {own : StoreReport}

theorem find?_eq_some_iff_first {α : Type} {p : α → Prop} {test : α → Bool} {xs : List α} {x : α}
    (htest : ∀ y, test y = true ↔ p y) : xs.find? test = some x ↔ First p xs x := by
  rw [List.find?_eq_some_iff_append]
  simp only [Bool.not_eq_true', ← Bool.not_eq_true, htest]
  constructor
  · rintro ⟨hx, before, after, hxs, hbefore⟩
    exact ⟨before, after, hxs, hx, hbefore⟩
  · rintro ⟨before, after, hxs, hx, hbefore⟩
    exact ⟨hx, before, after, hxs, hbefore⟩

theorem First.mem {α : Type} {p : α → Prop} {xs : List α} {x : α} (hfirst : First p xs x) :
    x ∈ xs := by
  obtain ⟨before, after, rfl, -⟩ := hfirst
  simp

theorem First.holds {α : Type} {p : α → Prop} {xs : List α} {x : α} (hfirst : First p xs x) :
    p x := by
  obtain ⟨_, _, _, hx, _⟩ := hfirst
  exact hx

/-- Where an element has the property there is a first one. -/
theorem exists_first {α : Type} {p : α → Prop} {xs : List α} (h : ∃ x ∈ xs, p x) :
    ∃ x, First p xs x := by
  classical
  have hsome : (xs.find? fun x => decide (p x)).isSome = true := by simpa using h
  obtain ⟨x, hx⟩ := Option.isSome_iff_exists.mp hsome
  exact ⟨x, (find?_eq_some_iff_first fun y => decide_eq_true_iff).mp hx⟩

theorem reportOf?_eq_some :
    reportOf? reports store = some own ↔ First (fun s => s.store = store) reports own :=
  find?_eq_some_iff_first fun _ => beq_iff_eq

end RangeKeeper
