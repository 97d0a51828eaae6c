import Mathlib.Data.List.Perm.Basic

/-!
What a stable sort does to elements that its order cannot tell apart. Each class
of such elements keeps the order of the list, so a sorted list is known once
every class is known, element by element. Up to the class a sorted list depends
on what it holds alone. One element more takes its place among the others and
leaves them in theirs, and what comes out first is the first of the least in the
list. All that is asked of the order is asked on what the list holds: a list
comes out sorted where it is transitive there, and without ties nothing can be
sorted where it is not.
-/

namespace RangeKeeper

variable {α β : Type} {le : α → α → Bool} {f : α → β} {l l' : List α} {a b : α}

/-- Lists that hold the same of every class hold the same. -/
theorem mem_iff_of_classes [DecidableEq β]
    (hsame : ∀ s, l.filter (fun x => f x = s) = l'.filter fun x => f x = s) (x : α) :
    x ∈ l ↔ x ∈ l' := by
  have hx : x ∈ l.filter (fun y => f y = f x) ↔ x ∈ l'.filter fun y => f y = f x := by
    rw [hsame]
  simpa using hx

section Classes

variable (htrans : ∀ a b c, le a b = true → le b c = true → le a c = true)
variable (hclass : ∀ a b, f a = f b ↔ le a b = true ∧ le b a = true)

include htrans hclass

/-- The head of a sorted list does not stand behind anything of a class that the
list holds. -/
theorem head_le (hl : (a :: l).Pairwise fun x y => le x y = true) (hb : f b ∈ (a :: l).map f) :
    le a b = true := by
  obtain ⟨x, hx, hsame⟩ := List.mem_map.mp hb
  obtain ⟨hxb, -⟩ := (hclass x b).mp hsame
  rcases List.mem_cons.mp hx with rfl | hx
  · exact hxb
  · exact htrans a x b ((List.pairwise_cons.mp hl).1 x hx) hxb

/-- Sorted lists that hold the same classes equally often list them alike. -/
theorem map_eq_of_sorted (hperm : (l.map f).Perm (l'.map f))
    (hl : l.Pairwise fun x y => le x y = true) (hl' : l'.Pairwise fun x y => le x y = true) :
    l.map f = l'.map f := by
  induction l generalizing l' with
  | nil => exact (List.nil_perm.mp hperm).symm
  | cons a rest ih =>
      cases l' with
      | nil => simp at hperm
      | cons b rest' =>
          have hab : le a b = true := head_le htrans hclass hl (hperm.symm.subset (by simp))
          have hba : le b a = true := head_le htrans hclass hl' (hperm.subset (by simp))
          have hhead : f a = f b := (hclass a b).mpr ⟨hab, hba⟩
          rw [List.map_cons, List.map_cons, hhead] at hperm ⊢
          rw [ih hperm.cons_inv hl.of_cons hl'.of_cons]

variable [DecidableEq β]

/-- Sorted lists are equal when they hold the same elements of every class in
the same order. -/
theorem eq_of_classes (hl : l.Pairwise fun x y => le x y = true)
    (hl' : l'.Pairwise fun x y => le x y = true)
    (hsame : ∀ s, l.filter (fun x => f x = s) = l'.filter fun x => f x = s) : l = l' := by
  have hmem := mem_iff_of_classes hsame
  induction l generalizing l' with
  | nil =>
      symm
      rw [List.eq_nil_iff_forall_not_mem]
      intro x hx
      simpa using (hmem x).mpr hx
  | cons a rest ih =>
      cases l' with
      | nil => simpa using (hmem a).mp List.mem_cons_self
      | cons b rest' =>
          have hab : le a b = true :=
            head_le htrans hclass hl (List.mem_map_of_mem ((hmem b).mpr List.mem_cons_self))
          have hba : le b a = true :=
            head_le htrans hclass hl' (List.mem_map_of_mem ((hmem a).mp List.mem_cons_self))
          have hhead : f a = f b := (hclass a b).mpr ⟨hab, hba⟩
          have hfirst : a = b := by
            have hclassmates := hsame (f a)
            simp only [List.filter_cons, hhead, decide_true, if_true] at hclassmates
            exact (List.cons.inj hclassmates).1
          subst hfirst
          have hrest : ∀ s, rest.filter (fun x => f x = s) = rest'.filter fun x => f x = s := by
            intro s
            have hclassmates := hsame s
            simp only [List.filter_cons] at hclassmates
            split at hclassmates
            next => exact (List.cons.inj hclassmates).2
            next => exact hclassmates
          rw [ih hl.of_cons hl'.of_cons hrest (mem_iff_of_classes hrest)]

variable (htotal : ∀ a b, (le a b || le b a) = true)

include htotal

/-- Sorting keeps the order within a class. -/
theorem filter_mergeSort (l : List α) (s : β) :
    (l.mergeSort le).filter (fun x => f x = s) = l.filter fun x => f x = s := by
  have hclassmates : (l.filter fun x => f x = s).Pairwise fun x y => le x y = true := by
    refine List.pairwise_of_forall_mem_list fun x hx y hy => ?_
    have hx : f x = s := by simpa using (List.mem_filter.mp hx).2
    have hy : f y = s := by simpa using (List.mem_filter.mp hy).2
    exact ((hclass x y).mp (hx.trans hy.symm)).1
  have hsub : (l.filter fun x => f x = s).Sublist (l.mergeSort le) :=
    List.sublist_mergeSort htrans htotal hclassmates List.filter_sublist
  have hwithin := hsub.filter fun x => decide (f x = s)
  rw [List.filter_filter] at hwithin
  simp only [Bool.and_self] at hwithin
  exact (hwithin.eq_of_length ((List.mergeSort_perm l le).filter _).length_eq.symm).symm

/-- A sorted list that holds the classes of another as they are listed there is
its stable sort. -/
theorem eq_mergeSort (hl : l.Pairwise fun x y => le x y = true)
    (hsame : ∀ s, l.filter (fun x => f x = s) = l'.filter fun x => f x = s) :
    l = l'.mergeSort le :=
  eq_of_classes htrans hclass hl (List.pairwise_mergeSort htrans htotal l') fun s =>
    (hsame s).trans (filter_mergeSort htrans hclass htotal l' s).symm

end Classes

section Members

/-- It is enough for the order to behave on what the list holds. -/
theorem pairwise_mergeSort_of_mem
    (htrans : ∀ a ∈ l, ∀ b ∈ l, ∀ c ∈ l, le a b = true → le b c = true → le a c = true)
    (htotal : ∀ a ∈ l, ∀ b ∈ l, (le a b || le b a) = true) :
    (l.mergeSort le).Pairwise fun a b => le a b = true := by
  have hmembers : (l.attach.mergeSort fun a b => le a.1 b.1).map Subtype.val = l.mergeSort le := by
    rw [List.map_mergeSort (s := le) fun _ _ _ _ => rfl, List.attach_map_subtype_val]
  rw [← hmembers, List.pairwise_map]
  apply List.pairwise_mergeSort
  · intro a b c
    exact htrans a.1 a.2 b.1 b.2 c.1 c.2
  · intro a b
    exact htotal a.1 a.2 b.1 b.2

/-- A relation by which some list stands in order, and that never holds both
ways between two of its elements, is transitive on them. -/
theorem trans_of_pairwise {r : α → α → Prop} (hl : l.Pairwise r)
    (hanti : ∀ a ∈ l, ∀ b ∈ l, r a b → r b a → a = b) :
    ∀ a ∈ l, ∀ b ∈ l, ∀ c ∈ l, r a b → r b c → r a c := by
  have hplaces := List.pairwise_iff_getElem.mp hl
  intro a ha b hb c hc hab hbc
  obtain ⟨i, hi, hai⟩ := List.getElem_of_mem ha
  obtain ⟨j, hj, hbj⟩ := List.getElem_of_mem hb
  obtain ⟨k, hk, hck⟩ := List.getElem_of_mem hc
  rcases Nat.lt_trichotomy i j with hij | hij | hji
  · rcases Nat.lt_trichotomy j k with hjk | hjk | hkj
    · rw [← hai, ← hck]
      exact hplaces i k hi hk (Nat.lt_trans hij hjk)
    · obtain rfl : b = c := by simp only [← hbj, ← hck, hjk]
      exact hab
    · have hcb : r c b := by
        rw [← hck, ← hbj]
        exact hplaces k j hk hj hkj
      rw [← hanti b hb c hc hbc hcb]
      exact hab
  · obtain rfl : a = b := by simp only [← hai, ← hbj, hij]
    exact hbc
  · have hba : r b a := by
      rw [← hbj, ← hai]
      exact hplaces j i hj hi hji
    rw [hanti a ha b hb hab hba]
    exact hbc

/-- Four elements are sorted as two pairs: what comes out first has won its pair
and then the final. -/
theorem head?_mergeSort_four (a b c d : α) :
    ([a, b, c, d].mergeSort le).head? =
      some (let first := if le a b then a else b
        let second := if le c d then c else d
        if le first second then first else second) := by
  cases hab : le a b <;> cases hcd : le c d <;>
    simp [List.mergeSort, List.MergeSort.Internal.splitInTwo, List.cons_merge_cons, hab, hcd] <;>
    split <;> rfl

end Members

section Insertion

theorem nil_of_both {p : α → Bool} {l : List α} (hno : ∀ b ∈ l, p b = false)
    (hyes : ∀ b ∈ l, p b = true) : l = [] := by
  rw [List.eq_nil_iff_forall_not_mem]
  intro b hb
  have hfails := hno b hb
  rw [hyes b hb] at hfails
  cases hfails

/-- A list falls in one way only into a part where a test fails and a part where
it succeeds. -/
theorem parts_unique {p : α → Bool} {l₁ l₂ m₁ m₂ : List α} (h : l₁ ++ l₂ = m₁ ++ m₂)
    (hl₁ : ∀ b ∈ l₁, p b = false) (hl₂ : ∀ b ∈ l₂, p b = true)
    (hm₁ : ∀ b ∈ m₁, p b = false) (hm₂ : ∀ b ∈ m₂, p b = true) : l₁ = m₁ ∧ l₂ = m₂ := by
  rcases List.append_eq_append_iff.mp h with ⟨mid, rfl, rfl⟩ | ⟨mid, rfl, rfl⟩
  · have hnone : mid = [] :=
      nil_of_both (fun b hb => hm₁ b (by simp [hb])) fun b hb => hl₂ b (by simp [hb])
    simp [hnone]
  · have hnone : mid = [] :=
      nil_of_both (fun b hb => hl₁ b (by simp [hb])) fun b hb => hm₂ b (by simp [hb])
    simp [hnone]

variable (htrans : ∀ a b c, le a b = true → le b c = true → le a c = true)
variable (htotal : ∀ a b, (le a b || le b a) = true)

include htrans htotal

/-- The head of a list is sorted in before the first element that does not
precede it. -/
theorem mergeSort_head (x : α) (xs : List α) :
    ∃ l₁ l₂, (x :: xs).mergeSort le = l₁ ++ x :: l₂ ∧ xs.mergeSort le = l₁ ++ l₂ ∧
      (∀ b ∈ l₁, le x b = false) ∧ ∀ b ∈ l₂, le x b = true := by
  obtain ⟨l₁, l₂, hwith, hwithout, hbefore⟩ := List.mergeSort_cons htrans htotal x xs
  have hsorted := List.pairwise_mergeSort htrans htotal (x :: xs)
  rw [hwith] at hsorted
  have hbehind := (List.pairwise_cons.mp (List.pairwise_append.mp hsorted).2.1).1
  exact ⟨l₁, l₂, hwith, hwithout, by simpa using hbefore, hbehind⟩

/-- One element more takes its place in the sorted list and leaves the others in
theirs. -/
theorem mergeSort_insert (xs ys : List α) (a : α) :
    ∃ l₁ l₂, (xs ++ a :: ys).mergeSort le = l₁ ++ a :: l₂ ∧
      (xs ++ ys).mergeSort le = l₁ ++ l₂ := by
  induction xs with
  | nil =>
      obtain ⟨l₁, l₂, hwith, hwithout, _⟩ := mergeSort_head htrans htotal a ys
      exact ⟨l₁, l₂, hwith, hwithout⟩
  | cons x xs ih =>
      obtain ⟨l₁, l₂, hwith, hwithout⟩ := ih
      obtain ⟨m₁, m₂, hm, hsplit, hm₁, hm₂⟩ := mergeSort_head htrans htotal x (xs ++ a :: ys)
      obtain ⟨n₁, n₂, hn, hsplit', hn₁, hn₂⟩ := mergeSort_head htrans htotal x (xs ++ ys)
      rw [hwith] at hsplit
      rw [hwithout] at hsplit'
      rw [List.cons_append, List.cons_append, hm, hn]
      -- `a` stands at the place of `x`, before it or behind it.
      rcases List.append_eq_append_iff.mp hsplit with ⟨mid, rfl, hmid⟩ | ⟨mid, rfl, rfl⟩
      · rcases List.cons_eq_append_iff.mp hmid with ⟨rfl, rfl⟩ | ⟨mid, rfl, rfl⟩
        · obtain ⟨rfl, rfl⟩ := parts_unique hsplit' (by simpa using hm₁)
            (fun b hb => hm₂ b (by simp [hb])) hn₁ hn₂
          exact ⟨l₁ ++ [x], l₂, by simp, by simp⟩
        · rw [← List.append_assoc] at hsplit'
          obtain ⟨rfl, rfl⟩ := parts_unique hsplit'
            (fun b hb => hm₁ b (by simpa using (List.mem_append.mp hb).imp_right .inr))
            hm₂ hn₁ hn₂
          exact ⟨l₁, mid ++ x :: m₂, by simp, by simp⟩
      · rw [List.append_assoc] at hsplit'
        obtain ⟨rfl, rfl⟩ := parts_unique hsplit' hm₁
          (fun b hb => hm₂ b (by simpa using (List.mem_append.mp hb).imp_right .inr)) hn₁ hn₂
        exact ⟨m₁ ++ x :: mid, l₂, by simp, by simp⟩

/-- Sorting leaves elements that its order cannot tell apart as they stood to
each other in the list. -/
theorem pairwise_mergeSort_stable {r : α → α → Prop} (hl : l.Pairwise r) :
    (l.mergeSort le).Pairwise fun a b => le a b = true ∧ (le b a = true → r a b) := by
  induction l with
  | nil => simp
  | cons x xs ih =>
      obtain ⟨hhead, hxs⟩ := List.pairwise_cons.mp hl
      obtain ⟨l₁, l₂, hwith, hwithout, hbefore, hbehind⟩ := mergeSort_head htrans htotal x xs
      have hrest := ih hxs
      rw [hwithout, List.pairwise_append] at hrest
      obtain ⟨hl₁, hl₂, hcross⟩ := hrest
      have hmem : ∀ b ∈ l₂, b ∈ xs := by
        intro b hb
        have hsorted : b ∈ xs.mergeSort le := by
          rw [hwithout]
          exact List.mem_append_right _ hb
        exact List.mem_mergeSort.mp hsorted
      rw [hwith, List.pairwise_append, List.pairwise_cons]
      refine ⟨hl₁, ⟨fun b hb => ⟨hbehind b hb, fun _ => hhead b (hmem b hb)⟩, hl₂⟩, ?_⟩
      intro a ha b hb
      rcases List.mem_cons.mp hb with rfl | hb
      · have hnot := hbefore a ha
        refine ⟨by simpa [hnot] using htotal b a, fun hle => ?_⟩
        rw [hnot] at hle
        cases hle
      · exact hcross a ha b hb

/-- The first of the least elements comes out first. -/
theorem head?_mergeSort {x : α} {xs : List α} (h : (xs.mergeSort le).head? = some x) :
    ∃ before after, xs = before ++ x :: after ∧
      (∀ y ∈ before, le y x = false) ∧ ∀ y ∈ after, le x y = true := by
  induction xs with
  | nil => simp at h
  | cons a rest ih =>
      obtain ⟨l₁, l₂, hwith, hwithout, hbefore, hbehind⟩ := mergeSort_head htrans htotal a rest
      rw [hwith] at h
      cases l₁ with
      | nil =>
          obtain rfl : a = x := by simpa using h
          refine ⟨[], rest, rfl, by simp, ?_⟩
          intro y hy
          apply hbehind
          rw [List.nil_append] at hwithout
          rw [← hwithout]
          exact List.mem_mergeSort.mpr hy
      | cons z l₁ =>
          obtain rfl : z = x := by simpa using h
          have hrest : (rest.mergeSort le).head? = some z := by rw [hwithout]; rfl
          obtain ⟨before, after, rfl, hahead, hafter⟩ := ih hrest
          refine ⟨a :: before, after, rfl, ?_, hafter⟩
          intro y hy
          rcases List.mem_cons.mp hy with rfl | hy
          · exact hbefore z List.mem_cons_self
          · exact hahead y hy

end Insertion

end RangeKeeper
