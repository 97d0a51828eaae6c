import Mathlib.Data.List.Perm.Subperm
import RangeKeeper.SortedMap

/-!
Finite maps as they are filled and searched. A key above all present ones goes
to the end and meets no entry of its own, so a map filled in ascending order
lists what was entered, as it was entered. A search finds what is listed, the
floor of a key is the greatest of those not above it, and a change is found at
its own key and nowhere else.
-/

namespace RangeKeeper.SortedMap

variable {κ ν α : Type} [Ord κ]

theorem find?_greatest {m : SortedMap κ ν} {k : κ} (h : ∀ e ∈ m.entries, compare e.1 k = .lt) :
    m.find? k = none := by
  have habsent : ∀ e ∈ m.entries, ¬(compare e.1 k == .eq) = true := by
    intro e he
    simp [h e he]
  rw [find?, List.find?_eq_none.mpr habsent]
  rfl

/-- Without a floor every entry is above `k`. -/
theorem floor?_none {m : SortedMap κ ν} {k : κ} (h : m.floor? k = none) :
    ∀ x ∈ m.entries, compare x.1 k = .gt := by
  rw [floor?, List.getLast?_eq_none_iff, List.filter_eq_nil_iff] at h
  intro x hx
  simpa using h x hx

section Lookup

variable [Std.LawfulEqOrd κ] {m : SortedMap κ ν} {j k : κ} {v : ν}

/-- A search finds what is listed: no other entry has the key. -/
theorem find?_eq_some : m.find? k = some v ↔ (k, v) ∈ m.entries := by
  rw [find?, Option.map_eq_some_iff]
  constructor
  · rintro ⟨e, hfound, rfl⟩
    have hkey : e.1 = k := Std.LawfulEqOrd.eq_of_compare (by simpa using List.find?_some hfound)
    rw [← hkey]
    exact List.mem_of_find?_eq_some hfound
  · intro hlisted
    obtain ⟨before, after, hentries⟩ := List.append_of_mem hlisted
    refine ⟨(k, v), List.find?_eq_some_iff_append.mpr ⟨by simp, before, after, hentries, ?_⟩, rfl⟩
    intro e he
    have hascending := m.ascending
    rw [hentries] at hascending
    have hlt : compare e.1 k = .lt :=
      (List.pairwise_append.mp hascending).2.2 e he (k, v) (by simp)
    simp [hlt]

theorem isSome_find? : (m.find? k).isSome = true ↔ k ∈ m.keys := by
  simp [Option.isSome_iff_exists, find?_eq_some, keys]

/-- Of all entries only the one that a search finds has the key. -/
theorem filter_key [DecidableEq κ] (m : SortedMap κ ν) (k : κ) :
    m.entries.filter (fun e => e.1 = k) = ((m.find? k).map fun v => (k, v)).toList := by
  have hne : ∀ {j k : κ}, compare j k = .lt → j ≠ k := by
    rintro j k hlt rfl
    simp [Std.ReflCmp.compare_self] at hlt
  cases hfound : m.find? k with
  | none =>
      refine List.filter_eq_nil_iff.mpr fun e he hkey => ?_
      have hlisted : m.find? k = some e.2 := find?_eq_some.mpr (decide_eq_true_iff.mp hkey ▸ he)
      rw [hfound] at hlisted
      cases hlisted
  | some v =>
      obtain ⟨before, after, hentries⟩ := List.append_of_mem (find?_eq_some.mp hfound)
      have hascending := m.ascending
      rw [hentries] at hascending
      obtain ⟨-, hlater, hearlier⟩ := List.pairwise_append.mp hascending
      have hbefore : before.filter (fun e => e.1 = k) = [] :=
        List.filter_eq_nil_iff.mpr fun e he => by simpa using hne (hearlier e he (k, v) (by simp))
      have hafter : after.filter (fun e => e.1 = k) = [] :=
        List.filter_eq_nil_iff.mpr fun e he => by
          simpa using (hne ((List.pairwise_cons.mp hlater).1 e he)).symm
      simp [hentries, hbefore, hafter]

/-- Adding to the list that a key has adds just that to all lists taken
together. -/
theorem flatMap_upsertEntry (g : κ → ν → α) (k : κ) (added : List ν) (es : List (κ × List ν)) :
    ((upsertEntry k (fun present => present.getD [] ++ added) es).flatMap
      fun e => e.2.map (g e.1)).Perm
        ((es.flatMap fun e => e.2.map (g e.1)) ++ added.map (g k)) := by
  induction es with
  | nil => simp [upsertEntry]
  | cons head rest ih =>
      rw [upsertEntry]
      split
      next =>
        simp only [Option.getD_none, List.nil_append, List.flatMap_cons]
        exact List.perm_append_comm
      next hsame =>
        obtain rfl : k = head.1 := Std.LawfulEqOrd.eq_of_compare hsame
        simp only [Option.getD_some, List.flatMap_cons, List.map_append, List.append_assoc]
        exact List.perm_append_comm.append_left _
      next =>
        simp only [List.flatMap_cons, List.append_assoc]
        exact ih.append_left _

theorem find?_upsertEntry_ne (hne : j ≠ k) (es : List (κ × ν)) :
    (upsertEntry k f es).find? (fun e => compare e.1 j == .eq) =
      es.find? fun e => compare e.1 j == .eq := by
  have hk : (compare k j == .eq) = false := by simpa using fun h : k = j => hne h.symm
  induction es with
  | nil => simp [upsertEntry, hk]
  | cons head rest ih =>
      obtain ⟨k', v⟩ := head
      cases hcompare : compare k k' with
      | lt => simp [upsertEntry, hcompare, hk]
      | eq =>
          obtain rfl : k = k' := Std.LawfulEqOrd.eq_of_compare hcompare
          simp [upsertEntry, hk]
      | gt =>
          rw [upsertEntry, hcompare]
          simp only [List.find?_cons, ih]

end Lookup

/-- A new key is listed with its value, beside what was listed. -/
theorem upsertEntry_perm {k : κ} {f : Option ν → ν} {es : List (κ × ν)}
    (h : ∀ e ∈ es, compare k e.1 ≠ .eq) :
    (upsertEntry k f es).Perm ((k, f none) :: es) := by
  induction es with
  | nil => exact .refl _
  | cons head rest ih =>
      obtain ⟨hhead, hrest⟩ := List.forall_mem_cons.mp h
      rw [upsertEntry]
      split
      next => exact .refl _
      next heq => exact absurd heq hhead
      next => exact ((ih hrest).cons head).trans (.swap _ head rest)

/-- A key is listed once, however often it is entered. -/
theorem keys_upsertEntry_subperm (k : κ) (f : Option ν → ν) (es : List (κ × ν)) :
    ((upsertEntry k f es).map Prod.fst).Subperm (k :: es.map Prod.fst) := by
  induction es with
  | nil => exact .refl _
  | cons head rest ih =>
      rw [upsertEntry]
      split
      next => exact .refl _
      next => exact (List.sublist_cons_self k _).subperm
      next => exact ((List.subperm_cons _).mpr ih).trans (List.Perm.swap k _ _).subperm

variable [Std.TransOrd κ]

theorem upsertEntry_greatest {k : κ} {f : Option ν → ν} {es : List (κ × ν)}
    (h : ∀ e ∈ es, compare e.1 k = .lt) : upsertEntry k f es = es ++ [(k, f none)] := by
  induction es with
  | nil => rfl
  | cons head rest ih =>
      have hhead : compare k head.1 = .gt := Std.OrientedCmp.gt_of_lt (h head (by simp))
      have hrest : ∀ e ∈ rest, compare e.1 k = .lt := fun e he => h e (by simp [he])
      rw [upsertEntry, hhead]
      simp [ih hrest]

theorem insert_greatest {m : SortedMap κ ν} {k : κ} {v : ν}
    (h : ∀ e ∈ m.entries, compare e.1 k = .lt) : (m.insert k v).entries = m.entries ++ [(k, v)] :=
  upsertEntry_greatest h

/-- Entering things by ascending keys lists them. -/
theorem foldl_insert_ascending (key : α → κ) (value : α → ν) (m : SortedMap κ ν) (xs : List α)
    (hxs : xs.Pairwise fun x y => compare (key x) (key y) = .lt)
    (hm : ∀ e ∈ m.entries, ∀ x ∈ xs, compare e.1 (key x) = .lt) :
    (xs.foldl (fun m x => m.insert (key x) (value x)) m).entries =
      m.entries ++ xs.map fun x => (key x, value x) := by
  induction xs generalizing m with
  | nil => simp
  | cons x rest ih =>
      obtain ⟨hhead, hrest⟩ := List.pairwise_cons.mp hxs
      have hinsert : (m.insert (key x) (value x)).entries = m.entries ++ [(key x, value x)] :=
        insert_greatest fun e he => hm e he x (by simp)
      have hlater : ∀ e ∈ (m.insert (key x) (value x)).entries, ∀ y ∈ rest,
          compare e.1 (key y) = .lt := by
        intro e he y hy
        rw [hinsert, List.mem_append, List.mem_singleton] at he
        rcases he with he | rfl
        · exact hm e he y (by simp [hy])
        · exact hhead y hy
      rw [List.foldl_cons, ih _ hrest hlater, hinsert]
      simp

theorem keys_foldl_insert_subperm (m : SortedMap κ ν) (es : List (κ × ν)) :
    (es.foldl (fun m e => m.insert e.1 e.2) m).keys.Subperm (m.keys ++ es.map Prod.fst) := by
  induction es generalizing m with
  | nil =>
      rw [List.map_nil, List.append_nil]
      exact .refl m.keys
  | cons e rest ih =>
      have hinsert : (m.insert e.1 e.2).keys.Subperm (e.1 :: m.keys) :=
        keys_upsertEntry_subperm e.1 _ m.entries
      rw [List.foldl_cons]
      refine (ih _).trans (((List.subperm_append_right _).mpr hinsert).trans ?_)
      exact List.perm_middle.symm.subperm

theorem keys_ofList_subperm (es : List (κ × ν)) :
    (ofList es).keys.Subperm (es.map Prod.fst) := keys_foldl_insert_subperm empty es

section Order

variable {es : List (κ × ν)}

/-- Entering things with keys of their own lists them all. -/
theorem foldl_insert_perm (m : SortedMap κ ν)
    (hes : es.Pairwise fun d e => compare d.1 e.1 ≠ .eq)
    (hm : ∀ d ∈ m.entries, ∀ e ∈ es, compare e.1 d.1 ≠ .eq) :
    (es.foldl (fun m e => m.insert e.1 e.2) m).entries.Perm (m.entries ++ es) := by
  induction es generalizing m with
  | nil => simp
  | cons e rest ih =>
      obtain ⟨hhead, hrest⟩ := List.pairwise_cons.mp hes
      have hinsert : (m.insert e.1 e.2).entries.Perm (e :: m.entries) :=
        upsertEntry_perm fun d hd => hm d hd e (by simp)
      have hlater : ∀ d ∈ (m.insert e.1 e.2).entries, ∀ x ∈ rest, compare x.1 d.1 ≠ .eq := by
        intro d hd x hx
        rcases List.mem_cons.mp (hinsert.mem_iff.mp hd) with rfl | hd
        · exact fun heq => hhead x hx (Std.OrientedCmp.eq_symm heq)
        · exact hm d hd x (by simp [hx])
      rw [List.foldl_cons]
      exact (ih _ hrest hlater).trans ((hinsert.append_right rest).trans List.perm_middle.symm)

/-- A map is put together again from its entries in any order. -/
theorem ofList_of_perm {m : SortedMap κ ν} (h : es.Perm m.entries) : ofList es = m := by
  have hunequal : ∀ {d e : κ × ν}, compare d.1 e.1 ≠ .eq → compare e.1 d.1 ≠ .eq :=
    fun hne heq => hne (Std.OrientedCmp.eq_symm heq)
  have hdistinct : es.Pairwise fun d e => compare d.1 e.1 ≠ .eq :=
    (h.pairwise_iff hunequal).mpr (m.ascending.imp fun hlt => by simp [hlt])
  have hlisted : (ofList es).entries.Perm m.entries :=
    (foldl_insert_perm empty hdistinct (by simp [empty])).trans (by simpa [empty] using h)
  refine ext_entries
    (hlisted.eq_of_pairwise (fun d e _ _ hde hed => ?_) (ofList es).ascending m.ascending)
  rw [Std.OrientedCmp.gt_of_lt hde] at hed
  cases hed

theorem ofList_entries (m : SortedMap κ ν) : ofList m.entries = m := ofList_of_perm (.refl _)

end Order

variable {m : SortedMap κ ν}

/-- There are two entries as soon as there are two keys. -/
theorem two_le_size : 2 ≤ m.size ↔ ∃ j ∈ m.keys, ∃ k ∈ m.keys, j ≠ k := by
  have hascending := m.ascending
  rw [size, keys]
  match hentries : m.entries with
  | [] => simp
  | [e] => simp
  | d :: e :: rest =>
      rw [hentries] at hascending
      have hlt : compare d.1 e.1 = .lt := (List.pairwise_cons.mp hascending).1 e (by simp)
      have hne : d.1 ≠ e.1 := by
        intro heq
        have hself : compare e.1 e.1 = .eq := Std.ReflCmp.compare_self
        rw [heq, hself] at hlt
        cases hlt
      exact iff_of_true (by simp) ⟨d.1, by simp, e.1, by simp, hne⟩

/-- The last entry has the greatest key. -/
theorem getLast?_greatest {e : κ × ν} (h : m.entries.getLast? = some e) :
    ∀ j ∈ m.keys, (compare j e.1).isLE = true := by
  obtain ⟨initial, hentries⟩ := List.getLast?_eq_some_iff.mp h
  have hascending := m.ascending
  rw [hentries] at hascending
  intro j hj
  rw [keys, hentries, List.map_append, List.mem_append, List.mem_map] at hj
  rcases hj with ⟨d, hd, rfl⟩ | hj
  · have hlt : compare d.1 e.1 = .lt :=
      (List.pairwise_append.mp hascending).2.2 d hd e (by simp)
    rw [hlt]
    rfl
  · obtain rfl : j = e.1 := by simpa using hj
    exact Std.ReflCmp.isLE_rfl

section Floor

variable {k : κ} {e : κ × ν}

/-- The floor of `k` is an entry at or below `k`, and no entry in between has a
greater key. -/
theorem floor?_greatest (h : m.floor? k = some e) :
    e ∈ m.entries ∧ (compare e.1 k).isLE = true ∧
      ∀ x ∈ m.entries, (compare x.1 k).isLE = true → (compare x.1 e.1).isLE = true := by
  let filed : SortedMap κ ν :=
    ⟨m.entries.filter fun x => (compare x.1 k).isLE, m.ascending.filter _⟩
  have hmem : e ∈ filed.entries := List.mem_of_getLast? h
  obtain ⟨he, hek⟩ := List.mem_filter.mp hmem
  refine ⟨he, hek, fun x hx hxk => ?_⟩
  have hkey : x.1 ∈ filed.keys := List.mem_map_of_mem (List.mem_filter.mpr ⟨hx, hxk⟩)
  exact getLast?_greatest (m := filed) h x.1 hkey

end Floor

section Change

variable [Std.LawfulEqOrd κ] {j k : κ} {f : Option ν → ν}

theorem mem_upsertEntry_self {es : List (κ × ν)}
    (h : es.Pairwise fun a b => compare a.1 b.1 = .lt) :
    (k, f ((es.find? fun e => compare e.1 k == .eq).map Prod.snd)) ∈ upsertEntry k f es := by
  induction es with
  | nil => simp [upsertEntry]
  | cons head rest ih =>
      obtain ⟨k', v⟩ := head
      obtain ⟨hhead, hrest⟩ := List.pairwise_cons.mp h
      cases hcompare : compare k k' with
      | lt =>
          -- All keys are above `k` then, so it has no entry yet.
          have habsent : ((k', v) :: rest).find? (fun e => compare e.1 k == .eq) = none := by
            apply List.find?_eq_none.mpr
            intro e he
            have hgt : compare e.1 k = .gt := by
              apply Std.OrientedCmp.gt_of_lt
              rcases List.mem_cons.mp he with rfl | he
              · exact hcompare
              · exact Std.TransCmp.lt_trans hcompare (hhead e he)
            simp [hgt]
          rw [habsent]
          simp [upsertEntry, hcompare]
      | eq =>
          obtain rfl : k = k' := Std.LawfulEqOrd.eq_of_compare hcompare
          simp [upsertEntry]
      | gt =>
          have hother : compare k' k = .lt := Std.OrientedCmp.lt_of_gt hcompare
          simpa [upsertEntry, hcompare, hother] using Or.inr (ih hrest)

/-- A change is found at its key. -/
theorem find?_upsert_self : (m.upsert k f).find? k = some (f (m.find? k)) :=
  find?_eq_some.mpr (mem_upsertEntry_self m.ascending)

/-- Nothing changes at any other key. -/
theorem find?_upsert_ne (hne : j ≠ k) : (m.upsert k f).find? j = m.find? j := by
  rw [find?, find?, upsert, find?_upsertEntry_ne hne]

end Change

end RangeKeeper.SortedMap
