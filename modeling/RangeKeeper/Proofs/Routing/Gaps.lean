import RangeKeeper.Routing.View
import RangeKeeper.Proofs.Routing.Sweep

/-!
The gaps of a table and its intervals tile the key space. Laid out from left to
right every tile begins where the one before it ends, and no two gaps follow
each other. What is said about gaps is read off the tiling, one tile at a time.
-/

namespace RangeKeeper

/-- The intervals and the gaps, each from left to right, tile the key space from
the cursor on. An absent cursor stands before every key. -/
inductive Tiles : Option Key → List Interval → List Interval → Prop where
  | rest (cursor : Option Key) : Tiles cursor [] [⟨cursor, none⟩]
  | last (b : Interval) : b.upper = none → Tiles b.lower [b] []
  | entry (b : Interval) {e : Key} {bs gaps : List Interval} :
      b.isValid = true → b.upper = some e → Tiles (some e) bs gaps → Tiles b.lower (b :: bs) gaps
  | gap {cursor : Option Key} (b : Interval) {bs gaps : List Interval} :
      compareLowers cursor b.lower = .lt → Tiles b.lower (b :: bs) gaps →
      Tiles cursor (b :: bs) (⟨cursor, b.lower⟩ :: gaps)

theorem gapsFrom_touching (b : Interval) (rest : List Interval) :
    gapsFrom b.lower (b :: rest) =
      match b.upper with
      | none => []
      | some e => gapsFrom (some e) rest := by
  rw [gapsFrom, compareLowers_eq_eq.mpr rfl]
  cases b.upper <;> rfl

theorem gapsFrom_short {cursor : Option Key} {b : Interval} {rest : List Interval}
    (h : compareLowers cursor b.lower = .lt) :
    gapsFrom cursor (b :: rest) = ⟨cursor, b.lower⟩ :: gapsFrom b.lower (b :: rest) := by
  rw [gapsFrom_touching, gapsFrom, h]
  cases b.upper <;> rfl

/-- Intervals from left to right and the gaps found between them are a
tiling. -/
theorem tiles_gapsFrom {cursor : Option Key} {bs : List Interval}
    (hvalid : ∀ b ∈ bs, b.isValid = true) (hbs : bs.Pairwise Interval.LeftOf)
    (hcursor : ∀ b ∈ bs, ∀ c, cursor = some c → ∃ s, b.lower = some s ∧ c ≤ s) :
    Tiles cursor bs (gapsFrom cursor bs) := by
  induction bs generalizing cursor with
  | nil => exact .rest cursor
  | cons b rest ih =>
      obtain ⟨hhead, hrest⟩ := List.pairwise_cons.mp hbs
      have hb : b.isValid = true := hvalid b (by simp)
      have hvalid : ∀ x ∈ rest, x.isValid = true := fun x hx => hvalid x (by simp [hx])
      have htouching : Tiles b.lower (b :: rest) (gapsFrom b.lower (b :: rest)) := by
        rw [gapsFrom_touching]
        cases hupper : b.upper with
        | none =>
            have hlast : rest = [] := by
              rw [List.eq_nil_iff_forall_not_mem]
              intro x hx
              obtain ⟨e, s, he, -⟩ := hhead x hx
              simp [hupper] at he
            subst hlast
            exact .last b hupper
        | some e =>
            refine .entry b hb hupper (ih hvalid hrest ?_)
            rintro x hx c ⟨⟩
            obtain ⟨e', s, he, hs, hle⟩ := hhead x hx
            rw [hupper] at he
            cases he
            exact ⟨s, hs, hle⟩
      cases hcmp : compareLowers cursor b.lower with
      | lt =>
          rw [gapsFrom_short hcmp]
          exact .gap b hcmp htouching
      | eq =>
          rw [compareLowers_eq_eq.mp hcmp]
          exact htouching
      | gt =>
          cases cursor with
          | none => cases hlower : b.lower <;> simp [hlower, compareLowers] at hcmp
          | some c =>
              obtain ⟨s, hs, hle⟩ := hcursor b (by simp) c rfl
              rw [hs, compareLowers, Key.order_eq_gt] at hcmp
              exact absurd hle (Std.not_le.mpr hcmp)

/-- `a` ends strictly before the lower end of `b`. -/
def Interval.ShortOf (a b : Interval) : Prop :=
  ∃ e s, a.upper = some e ∧ b.lower = some s ∧ e < s

/-- The key does not stand before the cursor. -/
def reaches (cursor : Option Key) (k : Key) : Bool := cursor.all fun c => decide (c ≤ k)

theorem containsKey_of_open {b : Interval} (k : Key) (hb : b.upper = none) :
    b.containsKey k = reaches b.lower k := by
  simp [Interval.containsKey, reaches, hb]

/-- A tile holds the keys that reach its lower end and not its upper one. -/
theorem count_tile {b : Interval} {e : Key} (k : Key) (hb : b.isValid = true)
    (he : b.upper = some e) :
    (if b.containsKey k then 1 else 0) + (if reaches (some e) k then 1 else 0) =
      if reaches b.lower k then 1 else 0 := by
  have hcontains : b.containsKey k = (reaches b.lower k && !reaches (some e) k) := by
    have hbelow : decide (k < e) = !decide (e ≤ k) := by
      rw [← decide_not]
      exact decide_eq_decide.mpr Std.not_le.symm
    simp [Interval.containsKey, reaches, he, hbelow]
  have hmono : reaches (some e) k = true → reaches b.lower k = true := by
    intro hk
    cases hlower : b.lower with
    | none => rfl
    | some s =>
        have hroom := Interval.lower_lt_upper hb hlower he
        simp only [reaches, Option.all_some, decide_eq_true_eq] at hk ⊢
        exact Std.le_trans (Std.le_of_lt hroom) hk
  rw [hcontains]
  cases hk : reaches (some e) k <;> simp_all

theorem gap_of_lowers_lt {cursor lower : Option Key} (h : compareLowers cursor lower = .lt) :
    (⟨cursor, lower⟩ : Interval).isValid = true ∧ ∃ s, lower = some s := by
  cases cursor <;> cases lower <;> simp_all [compareLowers, Interval.isValid, Key.order_eq_lt]

namespace Tiles

variable {cursor : Option Key} {bs gaps : List Interval}

theorem count (h : Tiles cursor bs gaps) (k : Key) :
    bs.countP (·.containsKey k) + gaps.countP (·.containsKey k) =
      if reaches cursor k then 1 else 0 := by
  induction h with
  | rest cursor => simp [List.countP_singleton, containsKey_of_open]
  | last b hupper => simp [List.countP_singleton, containsKey_of_open k hupper]
  | entry b hb hupper _ ih =>
      have htile := count_tile k hb hupper
      rw [List.countP_cons]
      omega
  | @gap cursor b bs gaps hcmp _ ih =>
      obtain ⟨hroom, s, hs⟩ := gap_of_lowers_lt hcmp
      have htile := count_tile k hroom hs
      rw [hs] at ih
      rw [List.countP_cons (l := gaps)]
      simp only at htile
      omega

/-- No tile stands before the cursor. -/
theorem lower_of_mem {c : Key} (h : Tiles (some c) bs gaps) {t : Interval} (ht : t ∈ bs ++ gaps) :
    ∃ s, t.lower = some s ∧ c ≤ s := by
  generalize hcursor : some c = cursor at h
  induction h generalizing c with
  | rest cursor =>
      subst hcursor
      simp only [List.nil_append, List.mem_singleton] at ht
      subst ht
      exact ⟨c, rfl, List.le_refl c⟩
  | last b _ =>
      simp only [List.append_nil, List.mem_singleton] at ht
      subst ht
      exact ⟨c, hcursor.symm, List.le_refl c⟩
  | @entry b e bs gaps hb hupper _ ih =>
      have hroom := Interval.lower_lt_upper hb hcursor.symm hupper
      rcases List.mem_cons.mp ht with rfl | ht
      · exact ⟨c, hcursor.symm, List.le_refl c⟩
      · obtain ⟨s, hs, hle⟩ := ih ht rfl
        exact ⟨s, hs, Std.le_trans (Std.le_of_lt hroom) hle⟩
  | @gap cursor b bs gaps hcmp _ ih =>
      subst hcursor
      obtain ⟨hroom, s, hs⟩ := gap_of_lowers_lt hcmp
      have hlt := Interval.lower_lt_upper hroom rfl hs
      have hsplit : t = ⟨some c, b.lower⟩ ∨ t ∈ b :: bs ++ gaps := by
        simp only [List.mem_append, List.mem_cons] at ht ⊢
        grind
      rcases hsplit with rfl | ht
      · exact ⟨c, rfl, List.le_refl c⟩
      · obtain ⟨s', hs', hle⟩ := ih ht hs.symm
        exact ⟨s', hs', Std.le_trans (Std.le_of_lt hlt) hle⟩

theorem gaps_valid (h : Tiles cursor bs gaps) : ∀ g ∈ gaps, g.isValid = true := by
  induction h with
  | rest cursor => cases cursor <;> simp [Interval.isValid]
  | last => simp
  | entry _ _ _ _ ih => exact ih
  | gap b hcmp _ ih => exact List.forall_mem_cons.mpr ⟨(gap_of_lowers_lt hcmp).1, ih⟩

/-- A gap and an interval are apart, whichever stands first. -/
theorem gaps_apart (h : Tiles cursor bs gaps) :
    ∀ g ∈ gaps, ∀ b ∈ bs, g.LeftOf b ∨ b.LeftOf g := by
  induction h with
  | rest cursor => simp
  | last b _ => simp
  | entry b _ hupper hrest ih =>
      intro g hg x hx
      rcases List.mem_cons.mp hx with rfl | hx
      · obtain ⟨s, hs, hle⟩ := hrest.lower_of_mem (List.mem_append_right _ hg)
        exact .inr ⟨_, s, hupper, hs, hle⟩
      · exact ih g hg x hx
  | @gap cursor b bs gaps hcmp hrest ih =>
      obtain ⟨_, s, hs⟩ := gap_of_lowers_lt hcmp
      rw [hs] at hrest
      intro g hg x hx
      rcases List.mem_cons.mp hg with rfl | hg
      · obtain ⟨s', hs', hle⟩ := hrest.lower_of_mem (List.mem_append_left _ hx)
        exact .inl ⟨s, s', hs, hs', hle⟩
      · exact ih g hg x hx

/-- Where an interval begins at the cursor, no gap does. -/
theorem cursor_lt_gap {b : Interval} {s : Key} (h : Tiles b.lower (b :: bs) gaps)
    (hs : b.lower = some s) : ∀ g ∈ gaps, ∃ s', g.lower = some s' ∧ s < s' := by
  generalize hcursor : b.lower = cursor at h
  intro g hg
  cases h with
  | last => cases hg
  | entry _ hb hupper hrest =>
      have hroom := Interval.lower_lt_upper hb hs hupper
      obtain ⟨s', hs', hle⟩ := hrest.lower_of_mem (List.mem_append_right _ hg)
      exact ⟨s', hs', Std.lt_of_lt_of_le hroom hle⟩
  | gap _ hcmp _ =>
      rw [hcursor, compareLowers_eq_eq.mpr rfl] at hcmp
      cases hcmp

theorem gaps_shortOf (h : Tiles cursor bs gaps) : gaps.Pairwise Interval.ShortOf := by
  induction h with
  | rest cursor => simp
  | last b _ => simp
  | entry _ _ _ _ ih => exact ih
  | gap b hcmp hrest ih =>
      obtain ⟨_, s, hs⟩ := gap_of_lowers_lt hcmp
      refine List.pairwise_cons.mpr ⟨?_, ih⟩
      intro g hg
      obtain ⟨s', hs', hlt⟩ := hrest.cursor_lt_gap hs g hg
      exact ⟨s, s', hs, hs', hlt⟩

/-- A gap ends where an interval begins, and begins where one ends unless it
begins at the cursor. -/
theorem gap_bounds (h : Tiles cursor bs gaps) : ∀ g ∈ gaps,
    (g.lower = cursor ∨ ∃ b ∈ bs, b.upper = g.lower) ∧
    (g.upper = none ∨ ∃ b ∈ bs, b.lower = g.upper) := by
  induction h with
  | rest cursor => simp
  | last b _ => simp
  | entry b _ hupper _ ih =>
      intro g hg
      obtain ⟨hlower, hend⟩ := ih g hg
      refine ⟨.inr ?_, ?_⟩
      · rcases hlower with hlower | ⟨x, hx, hlower⟩
        · exact ⟨b, by simp, hupper.trans hlower.symm⟩
        · exact ⟨x, by simp [hx], hlower⟩
      · rcases hend with hend | ⟨x, hx, hend⟩
        · exact .inl hend
        · exact .inr ⟨x, by simp [hx], hend⟩
  | gap b hcmp hrest ih =>
      obtain ⟨_, s, hs⟩ := gap_of_lowers_lt hcmp
      intro g hg
      rcases List.mem_cons.mp hg with rfl | hg
      · exact ⟨.inl rfl, .inr ⟨b, by simp, rfl⟩⟩
      · obtain ⟨s', hs', hlt⟩ := hrest.cursor_lt_gap hs g hg
        obtain ⟨hlower, hend⟩ := ih g hg
        refine ⟨hlower.imp_left fun hsame => ?_, hend⟩
        rw [hs, hs'] at hsame
        cases hsame
        exact absurd hlt (List.lt_irrefl s)

end Tiles

section Widening

variable {a g : Interval} {bs : List Interval}

/-- An interval around a gap that spares what ends where the gap begins begins
there itself. -/
theorem lower_fixed (hg : g.isValid = true) (haround : a.contains g = true)
    (hvalid : ∀ b ∈ bs, b.isValid = true) (hapart : ∀ b ∈ bs, a.overlaps b = false)
    (hbegin : g.lower = none ∨ ∃ b ∈ bs, b.upper = g.lower) : a.lower = g.lower := by
  obtain ⟨hlower, hupper⟩ := Interval.contains_iff.mp haround
  have ha : a.isValid = true := Interval.valid_of_contains hg haround
  cases hs : g.lower with
  | none =>
      rw [Option.eq_none_iff_forall_ne_some]
      intro s has
      obtain ⟨s', hs', _⟩ := hlower s has
      simp [hs] at hs'
  | some k =>
      obtain hnone | ⟨b, hb, hmeet⟩ := hbegin
      · simp [hs] at hnone
      · rcases Interval.leftOf_or_leftOf ha (hvalid b hb) (hapart b hb) with hleft | hright
        · obtain ⟨e, s, he, hbs, hle⟩ := hleft
          obtain ⟨e', he', hge⟩ := hupper e he
          have hroom : s < k := Interval.lower_lt_upper (hvalid b hb) hbs (hmeet.trans hs)
          have hspan : k < e' := Interval.lower_lt_upper hg hs he'
          exact absurd (Std.le_trans hge hle) (Std.not_le.mpr (Std.lt_trans hroom hspan))
        · obtain ⟨e, s, he, has, hle⟩ := hright
          obtain ⟨s', hs', hge⟩ := hlower s has
          rw [hmeet, hs] at he
          rw [hs] at hs'
          cases he
          cases hs'
          rw [has]
          exact congrArg some (List.le_antisymm hge hle)

/-- An interval around a gap that spares what begins where the gap ends ends
there itself. -/
theorem upper_fixed (hg : g.isValid = true) (haround : a.contains g = true)
    (hvalid : ∀ b ∈ bs, b.isValid = true) (hapart : ∀ b ∈ bs, a.overlaps b = false)
    (hend : g.upper = none ∨ ∃ b ∈ bs, b.lower = g.upper) : a.upper = g.upper := by
  obtain ⟨hlower, hupper⟩ := Interval.contains_iff.mp haround
  have ha : a.isValid = true := Interval.valid_of_contains hg haround
  cases he : g.upper with
  | none =>
      rw [Option.eq_none_iff_forall_ne_some]
      intro e hae
      obtain ⟨e', he', _⟩ := hupper e hae
      simp [he] at he'
  | some k =>
      obtain hnone | ⟨b, hb, hmeet⟩ := hend
      · simp [he] at hnone
      · rcases Interval.leftOf_or_leftOf ha (hvalid b hb) (hapart b hb) with hleft | hright
        · obtain ⟨e, s, hae, hs, hle⟩ := hleft
          obtain ⟨e', he', hge⟩ := hupper e hae
          rw [hmeet, he] at hs
          rw [he] at he'
          cases hs
          cases he'
          rw [hae]
          exact congrArg some (List.le_antisymm hle hge)
        · obtain ⟨e, s, hbe, has, hle⟩ := hright
          obtain ⟨s', hs', hge⟩ := hlower s has
          have hroom : k < e := Interval.lower_lt_upper (hvalid b hb) (hmeet.trans he) hbe
          have hspan : s' < k := Interval.lower_lt_upper hg hs' he
          exact absurd (Std.le_trans hle hge) (Std.not_le.mpr (Std.lt_trans hspan hroom))

end Widening

section Resolved

variable {listing : ReportsByStore}

theorem tiles_resolved (listing : ReportsByStore) :
    Tiles none (resolve listing).keys (findGaps listing) :=
  tiles_gapsFrom (fun _ => valid_of_key) (keys_leftOf listing) (by simp)

/-- A key is in one entry or in one gap. -/
theorem count_resolved (listing : ReportsByStore) (k : Key) :
    (resolve listing).keys.countP (·.containsKey k) +
      (findGaps listing).countP (·.containsKey k) = 1 := by
  rw [(tiles_resolved listing).count k]
  rfl

/-- A gap cannot be extended: whatever is around it and spares the table is the
gap itself. -/
theorem gap_maximal {g a : Interval} (hg : g ∈ findGaps listing) (haround : a.contains g = true)
    (hapart : ∀ b ∈ (resolve listing).keys, a.overlaps b = false) : a = g := by
  have hroom : g.isValid = true := (tiles_resolved listing).gaps_valid g hg
  obtain ⟨hbegin, hend⟩ := (tiles_resolved listing).gap_bounds g hg
  have hlower := lower_fixed hroom haround (fun _ => valid_of_key) hapart hbegin
  have hupper := upper_fixed hroom haround (fun _ => valid_of_key) hapart hend
  calc a = ⟨a.lower, a.upper⟩ := rfl
    _ = g := by rw [hlower, hupper]

/-- The gaps are the complement of the table. Every key is in one entry and no
gap, or in one gap and no entry, and the gaps are as few and as wide as they can
be. -/
theorem gaps_complement_table (listing : ReportsByStore) :
    (∀ k, (resolve listing).keys.countP (·.containsKey k) = 1 ∧
        (findGaps listing).countP (·.containsKey k) = 0 ∨
      (resolve listing).keys.countP (·.containsKey k) = 0 ∧
        (findGaps listing).countP (·.containsKey k) = 1) ∧
    (∀ g ∈ findGaps listing, g.isValid = true) ∧
    (findGaps listing).Pairwise Interval.ShortOf ∧
    (∀ g ∈ findGaps listing, ∀ b ∈ (resolve listing).keys,
      g.overlaps b = false ∧ b.overlaps g = false) ∧
    ∀ g ∈ findGaps listing, ∀ a : Interval, a.contains g = true →
      (∀ b ∈ (resolve listing).keys, a.overlaps b = false) → a = g := by
  have htiles := tiles_resolved listing
  refine ⟨?_, htiles.gaps_valid, htiles.gaps_shortOf, ?_, fun _ hg _ => gap_maximal hg⟩
  · intro k
    have hcount := htiles.count k
    simp only [reaches, Option.all_none, if_true] at hcount
    omega
  · intro g hg b hb
    rcases htiles.gaps_apart g hg b hb with hleft | hleft
    · exact ⟨hleft.apart, Interval.overlaps_comm b g ▸ hleft.apart⟩
    · exact ⟨Interval.overlaps_comm g b ▸ hleft.apart, hleft.apart⟩

end Resolved

end RangeKeeper
