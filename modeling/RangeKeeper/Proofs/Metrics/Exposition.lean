import Mathlib.Data.List.Induction
import RangeKeeper.Proofs.Metrics.Series

/-!
The exposition text of a counter with labels, read back. A reader takes the text
line by line and finds a series by its labels as they are written. Label values
are written as they are, so two things have to hold of them. None may contain a
line break, or its sample is spread over several lines. And none but the last
may contain a quote with a comma behind it: so the next label is announced, and
two tuples that differ by where that stands can be written alike. Under these
conditions every count that was rendered is read back.
-/

namespace RangeKeeper

/-- The lines of a text; what follows the last line break counts as one. -/
def linesOf (text : String) : List (List Char) := text.toList.splitOn '\n'

def sampleHead (name labels : String) : List Char :=
  if labels = "" then name.toList else name.toList ++ '\x7b' :: (labels.toList ++ ['\x7d'])

/-- The count on a line, if the line is that of the sample with this head. -/
def countOn? (head line : List Char) : Option Nat :=
  (line.dropPrefix? (head ++ [' '])).bind fun rest =>
    if rest.all Char.isDigit then some (Nat.ofDigitChars 10 rest 0) else none

/-- The count that a text shows for the sample with this head. The samples come
last, so a line of the help text that looks like one does not matter. -/
def readCount? (text : String) (head : List Char) : Option Nat :=
  ((linesOf text).filterMap (countOn? head)).getLast?

/-- The labels of one series, each with a comma before it. -/
def labelTail : List String → List String → List Char
  | name :: names, value :: values =>
    ',' :: (name.toList ++ '=' :: '"' :: (value.toList ++ '"' :: labelTail names values))
  | _, _ => []

/-- No quote in the text has a comma behind it. -/
def Unannounced (text : String) : Prop := ¬['"', ','] <:+: text.toList

def Unbroken (text : String) : Prop := '\n' ∉ text.toList

section Lines

variable {c : Char}

theorem eq_nil_of_last {between zs ws : List Char} (h : c :: zs = between ++ c :: ws)
    (hzs : c ∉ zs) : between = [] := by
  cases between with
  | nil => rfl
  | cons d rest =>
      rw [List.cons_append, List.cons.injEq] at h
      exact absurd (by simp [h.2]) hzs

/-- Where a character stands for the last time, a text is cut in one way
only. -/
theorem append_cons_inj_of_last {xs ys zs ws : List Char}
    (h : xs ++ c :: zs = ys ++ c :: ws) (hzs : c ∉ zs) (hws : c ∉ ws) : xs = ys ∧ zs = ws := by
  rcases List.append_eq_append_iff.mp h with ⟨between, rfl, heq⟩ | ⟨between, rfl, heq⟩
  · obtain rfl := eq_nil_of_last heq hzs
    simpa using heq
  · obtain rfl := eq_nil_of_last heq hws
    simpa using heq.symm

theorem notMem_of_mem_splitOn {line text : List Char} (h : line ∈ text.splitOn c) : c ∉ line := by
  induction text generalizing line with
  | nil =>
      rw [List.splitOn_nil, List.mem_singleton] at h
      simp [h]
  | cons d rest ih =>
      rw [List.splitOn_cons_eq_if_modifyHead] at h
      split at h
      next =>
        rcases List.mem_cons.mp h with rfl | hmem
        · simp
        · exact ih hmem
      next hother =>
        cases hlines : rest.splitOn c with
        | nil => exact absurd hlines (List.splitOn_ne_nil c rest)
        | cons first others =>
            rw [hlines, List.modifyHead_cons] at h
            rcases List.mem_cons.mp h with rfl | hmem
            · have hfirst : c ∉ first := ih (by simp [hlines])
              have hne : c ≠ d := by
                rintro rfl
                simp at hother
              simp [hne, hfirst]
            · exact ih (by simp [hlines, hmem])

/-- Texts that each end with the character are split one by one. -/
theorem splitOn_flatMap {α : Type} (f : α → List Char) (xs : List α) :
    (xs.flatMap fun x => f x ++ [c]).splitOn c = xs.flatMap (fun x => (f x).splitOn c) ++ [[]] := by
  induction xs with
  | nil => simp
  | cons x rest ih =>
      simp only [List.flatMap_cons, List.append_assoc, List.singleton_append]
      rw [List.splitOn_append_cons_self, ih]

theorem getLast?_of_forall_eq {α : Type} {xs : List α} {x : α} (hne : xs ≠ [])
    (h : ∀ y ∈ xs, y = x) : xs.getLast? = some x := by
  rw [List.getLast?_eq_some_getLast hne]
  exact congrArg some (h _ (List.getLast_mem hne))

end Lines

section Sample

variable {name labels labels' value : String} {head head' : List Char} {count : UInt64}

theorem toList_sampleLine : (sampleLine name labels value).toList =
    sampleHead name labels ++ ' ' :: value.toList ++ ['\n'] := by
  unfold sampleLine sampleHead
  split <;> simp

theorem sampleHead_inj (h : sampleHead name labels = sampleHead name labels') :
    labels = labels' := by
  unfold sampleHead at h
  split at h <;> split at h
  next hl hl' => rw [hl, hl']
  next => simp at h
  next => simp at h
  next =>
    have hlabels : labels.toList = labels'.toList := by simpa using h
    exact String.toList_inj.mp hlabels

theorem toList_count (count : UInt64) :
    (toString count).toList = Nat.toDigits 10 count.toNat := by
  have hrepr : toString count = count.toNat.repr := rfl
  rw [hrepr, Nat.toList_repr]

theorem isDigit_of_count {c : Char} (h : c ∈ (toString count).toList) : c.isDigit = true := by
  rw [toList_count] at h
  exact Nat.isDigit_of_mem_toDigits (by decide) (by decide) h

theorem notMem_count {c : Char} (hc : c.isDigit = false) : c ∉ (toString count).toList := by
  intro hmem
  rw [isDigit_of_count hmem] at hc
  cases hc

theorem countOn?_eq_some {line : List Char} {m : Nat} : countOn? head line = some m ↔
    ∃ rest, line = head ++ ' ' :: rest ∧ (∀ c ∈ rest, c.isDigit = true) ∧
      Nat.ofDigitChars 10 rest 0 = m := by
  simp [countOn?, Option.bind_eq_some_iff, List.dropPrefix?_eq_some_iff]

/-- The line of a sample shows its own count, and none for a sample with another
head. -/
theorem countOn?_sample : countOn? head (head' ++ ' ' :: (toString count).toList) =
    if head' = head then some count.toNat else none := by
  split
  next hsame =>
    rw [countOn?_eq_some]
    refine ⟨_, by rw [hsame], fun c => isDigit_of_count, ?_⟩
    rw [toList_count, Nat.ofDigitChars_ten_toDigits]
  next hother =>
    rw [Option.eq_none_iff_forall_ne_some]
    intro m hm
    obtain ⟨rest, heq, hdigits, _⟩ := countOn?_eq_some.mp hm
    have hrest : ' ' ∉ rest := fun hmem => absurd (hdigits _ hmem) (by decide)
    exact hother (append_cons_inj_of_last heq (notMem_count (by decide)) hrest).1

theorem countOn?_nil : countOn? head [] = none := by
  rw [Option.eq_none_iff_forall_ne_some]
  intro m hm
  obtain ⟨rest, heq, _⟩ := countOn?_eq_some.mp hm
  simp at heq

end Sample

section Labels

variable {names values values' : List String}

theorem comma_of_labelTail {c : Char} {rest : List Char}
    (h : labelTail names values = c :: rest) : c = ',' := by
  unfold labelTail at h
  split at h
  next => exact (List.cons.inj h).1.symm
  next => cases h

theorem toList_labels (names values : List String) :
    (",".intercalate (List.zipWith labelText names values)).toList =
      (labelTail names values).tail := by
  rw [String.toList_intercalate]
  induction names generalizing values with
  | nil => rfl
  | cons name names ih =>
      cases values with
      | nil => rfl
      | cons value values =>
          have hrest := ih values
          cases names with
          | nil => simp [labelTail, labelText]
          | cons name' names =>
              cases values with
              | nil => simp [labelTail, labelText]
              | cons value' values =>
                  rw [List.zipWith_cons_cons, List.map_cons, List.zipWith_cons_cons, List.map_cons,
                    List.intercalate_cons_cons, ← List.map_cons, ← List.zipWith_cons_cons, hrest]
                  simp [labelTail, labelText]

/-- The comma before the first label tells nothing. -/
theorem labelTail_of_tail (hlen : values.length = values'.length)
    (h : (labelTail names values).tail = (labelTail names values').tail) :
    labelTail names values = labelTail names values' := by
  cases names with
  | nil => rfl
  | cons name names =>
      cases values with
      | nil => cases List.eq_nil_of_length_eq_zero hlen.symm; rfl
      | cons value values =>
          cases values' with
          | nil => cases hlen
          | cons value' values' => exact congrArg (',' :: ·) h

/-- A value that is continued by the quote behind another one announces a
label. -/
theorem between_eq_nil {value value' : String} {between rest rest' : List Char}
    (hvalue : Unannounced value') (hlonger : value'.toList = value.toList ++ between)
    (hcomma : ∀ c later, rest = c :: later → c = ',')
    (h : '"' :: rest = between ++ '"' :: rest') : between = [] := by
  cases between with
  | nil => rfl
  | cons d more =>
      rw [List.cons_append, List.cons.injEq] at h
      obtain ⟨rfl, hrest⟩ := h
      cases more with
      | nil => exact absurd (hcomma _ _ hrest) (by decide)
      | cons e more =>
          obtain rfl := hcomma _ _ hrest
          exact absurd ⟨value.toList, more, by simp [hlonger]⟩ hvalue

/-- A value ends where a quote is followed by a comma or by nothing more. -/
theorem value_ends {value value' : String} {rest rest' : List Char}
    (hvalue : Unannounced value) (hvalue' : Unannounced value')
    (hcomma : ∀ c later, rest = c :: later → c = ',')
    (hcomma' : ∀ c later, rest' = c :: later → c = ',')
    (h : value.toList ++ '"' :: rest = value'.toList ++ '"' :: rest') :
    value = value' ∧ rest = rest' := by
  have htexts : value.toList = value'.toList := by
    rcases List.append_eq_append_iff.mp h with ⟨between, hlonger, htail⟩ | ⟨between, hlonger, htail⟩
    · have hnone := between_eq_nil hvalue' hlonger hcomma htail
      rw [hlonger, hnone, List.append_nil]
    · have hnone := between_eq_nil hvalue hlonger hcomma' htail
      rw [hlonger, hnone, List.append_nil]
  refine ⟨String.toList_inj.mp htexts, ?_⟩
  simpa [htexts] using h

/-- Label by label, the values are read off the text. The last one stands before
the last quote, whatever it is. -/
theorem labelTail_inj (hlen : values.length = names.length) (hlen' : values'.length = names.length)
    (hvalues : ∀ v ∈ values.dropLast, Unannounced v)
    (hvalues' : ∀ v ∈ values'.dropLast, Unannounced v)
    (h : labelTail names values = labelTail names values') : values = values' := by
  induction names generalizing values values' with
  | nil => rw [List.eq_nil_of_length_eq_zero hlen, List.eq_nil_of_length_eq_zero hlen']
  | cons name names ih =>
      match names, values, values' with
      | [], [value], [value'] =>
          have htext : value.toList = value'.toList := by simpa [labelTail] using h
          rw [String.toList_inj.mp htext]
      | next :: names, value :: second :: values, value' :: second' :: values' =>
          rw [List.dropLast_cons_cons, List.forall_mem_cons] at hvalues hvalues'
          have htext : value.toList ++ '"' :: labelTail (next :: names) (second :: values) =
              value'.toList ++ '"' :: labelTail (next :: names) (second' :: values') := by
            simpa only [labelTail, List.cons.injEq, List.append_cancel_left_eq, true_and] using h
          obtain ⟨hvalue, hrest⟩ := value_ends hvalues.1 hvalues'.1
            (fun _ _ => comma_of_labelTail) (fun _ _ => comma_of_labelTail) htext
          have hlater := ih (Nat.succ.inj hlen) (Nat.succ.inj hlen') hvalues.2 hvalues'.2 hrest
          rw [hvalue, hlater]

/-- A line break in the labels is one of a name or of a value. -/
theorem unbroken_labelTail (hlen : values.length = names.length) :
    '\n' ∉ labelTail names values ↔ (∀ m ∈ names, Unbroken m) ∧ ∀ v ∈ values, Unbroken v := by
  induction names generalizing values with
  | nil => simp [labelTail, List.eq_nil_of_length_eq_zero hlen]
  | cons name names ih =>
      cases values with
      | nil => cases hlen
      | cons value values =>
          have hrest : '\n' ∉ labelTail names values ↔
              (∀ m ∈ names, Unbroken m) ∧ ∀ v ∈ values, Unbroken v := ih (by simpa using hlen)
          rw [List.forall_mem_cons, List.forall_mem_cons, and_and_and_comm, ← hrest]
          simp [labelTail, Unbroken, and_assoc]

theorem unbroken_labels (hlen : values.length = names.length) :
    '\n' ∉ (labelTail names values).tail ↔
      (∀ m ∈ names, Unbroken m) ∧ ∀ v ∈ values, Unbroken v := by
  rw [← unbroken_labelTail hlen]
  cases htail : labelTail names values with
  | nil => rfl
  | cons c rest => simp [comma_of_labelTail htail]

end Labels

namespace LabeledCounter

variable {n : Nat} {c : LabeledCounter n} {v w : Vector String n}

def counting (name help : String) (labelNames : Vector String n)
    (counted : List (Vector String n)) : LabeledCounter n :=
  counted.foldl increment { name := name, help := help, labelNames := labelNames }

def sampleText (c : LabeledCounter n) (v : Vector String n) : List Char :=
  sampleHead c.name (c.labelsText v) ++ ' ' :: (toString (c.get v)).toList

theorem counting_frame (name help : String) (labelNames : Vector String n)
    (counted : List (Vector String n)) :
    (counting name help labelNames counted).name = name ∧
    (counting name help labelNames counted).help = help ∧
    (counting name help labelNames counted).labelNames = labelNames ∧
    ∀ v, v ∈ (counting name help labelNames counted).series.keys ↔ v ∈ counted := by
  induction counted using List.reverseRecOn with
  | nil => exact ⟨rfl, rfl, rfl, by simp [counting, SortedMap.keys, SortedMap.empty]⟩
  | append_singleton earlier last ih =>
      obtain ⟨hname, hhelp, hlabels, hkeys⟩ := ih
      have hcounting : counting name help labelNames (earlier ++ [last]) =
          (counting name help labelNames earlier).increment last := List.foldl_concat ..
      rw [hcounting]
      refine ⟨hname, hhelp, hlabels, fun v => ?_⟩
      rw [mem_keys_increment, hkeys, List.mem_append, List.mem_singleton]

theorem toList_render (c : LabeledCounter n) : c.render.toList =
    (familyHeader c.name c.help "counter").toList ++
      c.series.keys.flatMap fun v => c.sampleText v ++ ['\n'] := by
  have hsample : ∀ e ∈ c.series.entries,
      (sampleLine c.name (c.labelsText e.1) (toString e.2)).toList =
        c.sampleText e.1 ++ ['\n'] := by
    intro e he
    have hget : c.get e.1 = e.2 := by
      rw [get, SortedMap.find?_eq_some.mpr he, Option.getD_some]
    rw [toList_sampleLine, sampleText, hget]
  rw [render, String.toList_append, String.toList_join, SortedMap.keys, List.flatMap_map,
    List.flatMap_map]
  exact congrArg _ (List.flatMap_congr hsample)

/-- The lines of the header come first, then those of the samples. -/
theorem linesOf_render (c : LabeledCounter n) : linesOf c.render =
    (linesOf (familyHeader c.name c.help "counter")).dropLast ++
      c.series.keys.flatMap (fun v => (c.sampleText v).splitOn '\n') ++ [[]] := by
  obtain ⟨comments, hheader⟩ : ∃ comments, (familyHeader c.name c.help "counter").toList =
      comments ++ ['\n'] := ⟨_, String.toList_append⟩
  rw [linesOf, linesOf, toList_render, hheader, List.append_assoc, List.singleton_append,
    List.splitOn_append_cons_self, List.splitOn_append_cons_self, splitOn_flatMap,
    List.splitOn_nil, List.dropLast_concat, List.append_assoc]

theorem labelsText_inj (hv : ∀ x ∈ v.toList.dropLast, Unannounced x)
    (hw : ∀ x ∈ w.toList.dropLast, Unannounced x) (h : c.labelsText v = c.labelsText w) :
    v = w := by
  have hlen : ∀ x : Vector String n, x.toList.length = c.labelNames.toList.length := by simp
  have htails : (labelTail c.labelNames.toList v.toList).tail =
      (labelTail c.labelNames.toList w.toList).tail := by
    rw [← toList_labels, ← toList_labels]
    exact congrArg String.toList h
  have hlabelled := labelTail_of_tail ((hlen v).trans (hlen w).symm) htails
  exact Vector.toList_inj.mp (labelTail_inj (hlen v) (hlen w) hv hw hlabelled)

/-- As soon as there are two labels, the second can be announced in the value of
the first. -/
theorem exists_same_labels (c : LabeledCounter n) (hn : 2 ≤ n) :
    ∃ v w, v ≠ w ∧ c.labelsText v = c.labelsText w := by
  obtain ⟨first, second, others, hnames⟩ : ∃ first second others,
      c.labelNames.toList = first :: second :: others := by
    match hnames : c.labelNames.toList with
    | [] | [_] =>
        have hlen : c.labelNames.toList.length = n := Vector.length_toList
        rw [hnames] at hlen
        exact absurd hn (by simp [← hlen])
    | first :: second :: others => exact ⟨first, second, others, rfl⟩
  let announced := "\"," ++ second ++ "=\""
  let tuple (x y : String) : Vector String n :=
    ⟨(x :: y :: List.replicate (n - 2) "").toArray, by simp; omega⟩
  have htuple : ∀ x y, (tuple x y).toList = x :: y :: List.replicate (n - 2) "" := fun _ _ => rfl
  refine ⟨tuple announced "", tuple "" announced, fun heq => ?_, ?_⟩
  · have hvalue : announced = "" := by simpa [htuple] using congrArg Vector.toList heq
    have hquote : '"' ∈ announced.toList := by simp [announced]
    simp [hvalue] at hquote
  · apply String.toList_inj.mp
    rw [labelsText, labelsText, toList_labels, toList_labels, htuple, htuple, hnames]
    simp [labelTail, announced]

theorem labels_differ_iff (c : LabeledCounter n) :
    (∀ v w, v ≠ w → c.labelsText v ≠ c.labelsText w) ↔ n ≤ 1 := by
  constructor
  · intro hdiffer
    by_contra hn
    obtain ⟨v, w, hne, hsame⟩ := c.exists_same_labels (by omega)
    exact hdiffer v w hne hsame
  · intro hsingle v w hne hsame
    have hnone : ∀ x : Vector String n, x.toList.dropLast = [] := by
      intro x
      apply List.eq_nil_of_length_eq_zero
      rw [List.length_dropLast, Vector.length_toList]
      omega
    exact hne (labelsText_inj (by simp [hnone]) (by simp [hnone]) hsame)

theorem unbroken_sampleText : '\n' ∉ c.sampleText v ↔
    Unbroken c.name ∧ (∀ m ∈ c.labelNames, Unbroken m) ∧ ∀ x ∈ v, Unbroken x := by
  have hlabels : '\n' ∉ (c.labelsText v).toList ↔
      (∀ m ∈ c.labelNames, Unbroken m) ∧ ∀ x ∈ v, Unbroken x := by
    rw [labelsText, toList_labels, unbroken_labels (by simp)]
    simp
  rw [← hlabels, sampleText, sampleHead]
  have hcount : '\n' ∉ (toString (c.get v)).toList := notMem_count (by decide)
  split
  next hnone => simp [hnone, hcount, Unbroken]
  next => simp [hcount, Unbroken]

theorem onLine_iff (hv : v ∈ c.series.keys) : c.sampleText v ∈ linesOf c.render ↔
    Unbroken c.name ∧ (∀ m ∈ c.labelNames, Unbroken m) ∧ ∀ x ∈ v, Unbroken x := by
  rw [← unbroken_sampleText]
  refine ⟨notMem_of_mem_splitOn, fun hunbroken => ?_⟩
  rw [linesOf_render]
  apply List.mem_append_left
  apply List.mem_append_right
  exact List.mem_flatMap.mpr ⟨v, hv, by simp [List.splitOn_eq_singleton hunbroken]⟩

/-- Where no sample is spread over several lines, each has one line. -/
theorem linesOf_render_of_onLine
    (hlines : ∀ v ∈ c.series.keys, c.sampleText v ∈ linesOf c.render) : linesOf c.render =
    (linesOf (familyHeader c.name c.help "counter")).dropLast ++
      c.series.keys.map c.sampleText ++ [[]] := by
  have hsamples : ∀ v ∈ c.series.keys, (c.sampleText v).splitOn '\n' = [c.sampleText v] :=
    fun v hv => List.splitOn_eq_singleton (notMem_of_mem_splitOn (hlines v hv))
  rw [linesOf_render, List.flatMap_congr hsamples, ← List.map_eq_flatMap]

theorem readCount_render
    (hdiffer : ∀ v ∈ c.series.keys, ∀ w ∈ c.series.keys, v ≠ w → c.labelsText v ≠ c.labelsText w)
    (hlines : ∀ v ∈ c.series.keys, c.sampleText v ∈ linesOf c.render) (hv : v ∈ c.series.keys) :
    readCount? c.render (sampleHead c.name (c.labelsText v)) = some (c.get v).toNat := by
  have hown : countOn? (sampleHead c.name (c.labelsText v)) (c.sampleText v) =
      some (c.get v).toNat := by
    rw [sampleText, countOn?_sample, if_pos rfl]
  have hother : ∀ w ∈ c.series.keys, w ≠ v →
      countOn? (sampleHead c.name (c.labelsText v)) (c.sampleText w) = none := by
    intro w hw hne
    rw [sampleText, countOn?_sample, if_neg]
    exact fun heads => hdiffer w hw v hv hne (sampleHead_inj heads)
  -- The samples come last, so what the header shows does not matter.
  have hlast : ((c.series.keys.map c.sampleText).filterMap
      (countOn? (sampleHead c.name (c.labelsText v)))).getLast? = some (c.get v).toNat := by
    apply getLast?_of_forall_eq
    · exact List.ne_nil_of_mem (List.mem_filterMap.mpr ⟨_, List.mem_map_of_mem hv, hown⟩)
    · intro m hm
      obtain ⟨line, hline, hshown⟩ := List.mem_filterMap.mp hm
      obtain ⟨w, hw, rfl⟩ := List.mem_map.mp hline
      by_cases hsame : w = v
      · rw [hsame, hown] at hshown
        exact (Option.some.inj hshown).symm
      · rw [hother w hw hsame] at hshown
        cases hshown
  rw [readCount?, linesOf_render_of_onLine hlines, List.filterMap_append, List.filterMap_append,
    List.filterMap_cons_none countOn?_nil, List.filterMap_nil, List.append_nil,
    List.getLast?_append, hlast, Option.some_or]

/-- Label parts differ where no value but the last announces a label, and differ
always only where there is at most one. A sample stands on one line exactly when
no name and no value contains a line break. From a text of which both holds
every count is read back. -/
theorem counts_read_back (name help : String) (labelNames : Vector String n)
    (counted : List (Vector String n)) :
    let c := counting name help labelNames counted
    (∀ v w, v ≠ w → (∀ x ∈ v.toList.dropLast, Unannounced x) →
      (∀ x ∈ w.toList.dropLast, Unannounced x) → c.labelsText v ≠ c.labelsText w) ∧
    ((∀ v w, v ≠ w → c.labelsText v ≠ c.labelsText w) ↔ n ≤ 1) ∧
    (∀ v ∈ counted, c.sampleText v ∈ linesOf c.render ↔
      Unbroken name ∧ (∀ m ∈ labelNames, Unbroken m) ∧ ∀ x ∈ v, Unbroken x) ∧
    ((∀ v ∈ counted, c.sampleText v ∈ linesOf c.render) →
      linesOf c.render = (linesOf (familyHeader name help "counter")).dropLast ++
        c.series.keys.map c.sampleText ++ [[]] ∧
      ((∀ v ∈ counted, ∀ w ∈ counted, v ≠ w → c.labelsText v ≠ c.labelsText w) →
        ∀ v ∈ counted,
          readCount? c.render (sampleHead name (c.labelsText v)) = some (c.get v).toNat)) := by
  intro c
  obtain ⟨hname, hhelp, hlabelNames, hkeys⟩ := counting_frame name help labelNames counted
  simp only [← hkeys]
  refine ⟨fun v w hne hv hw heq => hne (labelsText_inj hv hw heq), c.labels_differ_iff,
    fun v hv => ?_, fun hlines => ?_⟩
  · have honLine : c.sampleText v ∈ linesOf c.render ↔
        Unbroken c.name ∧ (∀ m ∈ c.labelNames, Unbroken m) ∧ ∀ x ∈ v, Unbroken x := onLine_iff hv
    rwa [hname, hlabelNames] at honLine
  · have hsamples := linesOf_render_of_onLine hlines
    have hreads := fun hdiffer v hv => readCount_render (v := v) hdiffer hlines hv
    rw [hname, hhelp] at hsamples
    rw [hname] at hreads
    exact ⟨hsamples, hreads⟩

/-- Quotes and commas in the values do no harm as long as they do not announce a
label. -/
theorem quoted_counts_read_back :
    let counted := [#v["x\"", "y"], #v["x", "\",y"], #v["x\"", "y"]]
    let c := counting "commands_total" "Commands" #v["a", "b"] counted
    ∀ v ∈ counted,
      readCount? c.render (sampleHead "commands_total" (c.labelsText v)) =
        some (c.get v).toNat := by
  intro counted c
  obtain ⟨hdiffer, -, honLine, hread⟩ :=
    counts_read_back "commands_total" "Commands" #v["a", "b"] counted
  have hplain : ∀ v ∈ counted, ∀ x ∈ v.toList.dropLast, Unannounced x := by
    unfold Unannounced
    decide
  have hlines : ∀ v ∈ counted, c.sampleText v ∈ linesOf c.render := by
    intro v hv
    apply (honLine v hv).mpr
    unfold Unbroken
    revert v
    decide
  apply (hread hlines).2
  intro v hv w hw hne
  exact hdiffer v w hne (hplain v hv) (hplain w hw)

/-- Two tuples that differ by where a label is announced are written alike, and
a value with a line break has no line of its own. -/
theorem labels_written_alike :
    let c := counting "commands_total" "Commands" #v["a", "b"]
      [#v["x\",b=\"y", "z"], #v["x", "y\",b=\"z"], #v["1\n2", "3"]]
    (#v["x\",b=\"y", "z"] : Vector String 2) ≠ #v["x", "y\",b=\"z"] ∧
    c.labelsText #v["x\",b=\"y", "z"] = c.labelsText #v["x", "y\",b=\"z"] ∧
    c.sampleText #v["1\n2", "3"] ∉ linesOf c.render := by
  refine ⟨by decide, by decide, fun hline => ?_⟩
  exact notMem_of_mem_splitOn hline (by decide)

end LabeledCounter

end RangeKeeper
