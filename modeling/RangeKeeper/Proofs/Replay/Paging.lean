import RangeKeeper.Proofs.Log.Reading
import RangeKeeper.Proofs.Replay.InOrder

/-!
Reading a log page by page. Driver and log are put together for one read after
the other, with nothing else going on. What is queued and what the log still has
up to the commit index make one list, and no read changes it: each moves a
beginning of the rest to the queue, at least one entry of it whatever the budget
is. So the driver is done after at most as many reads as it has entries to get,
and what it has then does not depend on how they were cut into pages.
-/

namespace RangeKeeper

/-- A subscription that reads a log in memory, at a moment. -/
structure Pager where
  now : Instant
  subscription : Subscription
  log : MemoryLog

namespace Pager

/-- One read, if one is wanted: it is scheduled, the log is asked when it is
due, and the driver hears what the log says. -/
def page? (p : Pager) : Option (Except LogFault (List LogEntry) × Pager) :=
  if p.subscription.wantsFetch then do
    let scheduled := p.subscription.scheduleFetch p.now
    let fetch ← scheduled.fetch
    let asking ← scheduled.beginRead? fetch.due
    let (answer, log) := p.log.read fetch.start asking.settings.maxFetchBytes
    let after ← asking.endRead? (answer.mapError .log)
    some (answer, ⟨fetch.due, after, log⟩)
  else none

/-- Read on while a read is wanted, `fuel` times at most. -/
def pages : (fuel : Nat) → Pager → List (Except LogFault (List LogEntry)) × Pager
  | 0, p => ([], p)
  | fuel + 1, p =>
    match p.page? with
    | none => ([], p)
    | some (answer, next) =>
      let (answers, last) := pages fuel next
      (answer :: answers, last)

/-- Everything up to the commit index can be read, and nothing keeps the driver
from it. -/
structure Poised (commit : UInt64) (p : Pager) : Prop where
  reached : ∃ made, MemoryLog.History made p.log
  failing : p.log.failingReads = 0
  lagging : p.log.laggingReads = 0
  committed : p.log.committed = commit
  present : commit ≤ p.log.lastIndex
  unasked : p.subscription.fetch = none
  settled : p.subscription.pendingInstall = none
  armed : p.subscription.armed = true
  heard : p.subscription.commit = some commit
  behind : p.subscription.lastFetched ≤ commit
  within : p.log.firstIndex.toNat ≤ p.subscription.lastFetched.toNat + 1

def rest (p : Pager) (commit : UInt64) : List LogEntry :=
  entriesBetween (p.subscription.lastFetched + 1) commit p.log.entries

/-- What is queued, and behind it what there is to get. -/
def goal (p : Pager) (commit : UInt64) : List Task :=
  p.subscription.queue ++ (p.rest commit).map .entry

/-- The read succeeded, and kept to the budget unless it gave a single entry. -/
def InBudget (budget : UInt64) (answer : Except LogFault (List LogEntry)) : Prop :=
  ∃ entries, answer = .ok entries ∧ (1 < entries.length → totalSize entries ≤ budget.toNat)

open Subscription

variable {commit : UInt64} {p : Pager}

/-- Where nothing else waits for the driver, a page is made of the driver's own
moves. -/
theorem moves_of_page {answer : Except LogFault (List LogEntry)} {next : Pager}
    (hdriving : p.subscription.driving = true) (hlive : p.subscription.stopped = false)
    (hevents : p.subscription.events = []) (hsnapshots : p.subscription.snapshots = [])
    (hcommits : p.subscription.commits = []) (hpage : p.page? = some (answer, next)) :
    ∃ scheduled asking, p.subscription.move? p.now .drive = some scheduled ∧
      scheduled.move? next.now .beginRead = some asking ∧
      asking.move? next.now (.endRead (answer.mapError .log)) = some next.subscription := by
  simp only [page?, Option.ite_none_right_eq_some, Option.bind_eq_bind, Option.bind_eq_some_iff,
    Option.some.injEq, Prod.mk.injEq] at hpage
  obtain ⟨hwants, fetch, hfetch, asking, hbegin, after, hend, rfl, rfl⟩ := hpage
  have hquiet : (p.subscription.scheduleFetch p.now).driverStep? fetch.due = none := by
    simp [driverStep?, wantsFetch, scheduleFetch, hdriving, hlive, hevents, hsnapshots, hcommits]
  refine ⟨p.subscription.scheduleFetch p.now, asking, ?_, ?_, ?_⟩
  · simp [move?, driverStep?, hdriving, hlive, hwants]
  · simp [move?, hquiet, hbegin]
  · obtain ⟨-, rfl⟩ : fetch.reading = false ∧
        { p.subscription.scheduleFetch p.now with fetch := some { fetch with reading := true } } =
          asking := by
      simpa [beginRead?, hfetch] using hbegin
    have hwaits : ({ p.subscription.scheduleFetch p.now with
        fetch := some { fetch with reading := true } }).driverStep? fetch.due = none := by
      simp [driverStep?, wantsFetch, scheduleFetch, hdriving, hlive, hevents, hsnapshots, hcommits]
    simp [move?, hwaits, hend]

/-- What a wanted read does if the log answers with entries that go on right
behind the position. -/
theorem page?_eq {entries : List LogEntry} {log : MemoryLog}
    (hwants : p.subscription.wantsFetch = true)
    (hread : p.log.read (p.subscription.lastFetched + 1) p.subscription.settings.maxFetchBytes =
      (.ok entries, log))
    (hcontiguous : ContiguousFrom (p.subscription.lastFetched.toNat + 1) entries) :
    ∃ due retry metrics last,
      last.toNat = p.subscription.lastFetched.toNat + entries.length ∧
      p.page? = some (.ok entries, ⟨due, { p.subscription with
        fetch := none
        lastFetched := last
        retryFetch := retry
        metrics := metrics
        queue := p.subscription.queue ++ entries.map .entry }, log⟩) := by
  obtain ⟨htaken, hlast⟩ := accept_of_contiguous hcontiguous
  refine ⟨p.now + if p.subscription.retryFetch then
      p.subscription.settings.fetchRetryDelay.toNanos else 0, entries.isEmpty,
    p.subscription.metrics.recordFetch entries.length
      (lastIndexOf p.subscription.lastFetched entries),
    lastIndexOf p.subscription.lastFetched entries, hlast, ?_⟩
  rw [page?, if_pos hwants]
  simp [scheduleFetch, beginRead?, endRead?, hread, Except.mapError, onFetched, htaken]

theorem pages_of_none {fuel : Nat} (h : p.page? = none) : pages fuel p = ([], p) := by
  cases fuel with
  | zero => rfl
  | succ fuel => simp only [pages, h]

theorem pages_of_some {fuel : Nat} {answer : Except LogFault (List LogEntry)} {next : Pager}
    (h : p.page? = some (answer, next)) :
    pages (fuel + 1) p = (answer :: (pages fuel next).1, (pages fuel next).2) := by
  simp only [pages, h]

namespace Poised

theorem wants (h : Poised commit p) (hlt : p.subscription.lastFetched < commit) :
    p.subscription.wantsFetch = true := by
  simp [wantsFetch, h.unasked, h.settled, h.armed, h.heard, hlt]

theorem done (h : Poised commit p) (hlast : p.subscription.lastFetched = commit) :
    p.page? = none := by
  apply if_neg
  simp [wantsFetch, h.heard, hlast]

theorem lastReadable (h : Poised commit p) : p.log.lastReadable = commit := by
  apply UInt64.toNat.inj
  rw [MemoryLog.toNat_lastReadable, h.committed]
  exact Nat.min_eq_left (UInt64.le_iff_toNat_le.mp h.present)

/-- Reading goes on at an index that the log still keeps. -/
theorem next_index (h : Poised commit p) :
    (p.subscription.lastFetched + 1).toNat = p.subscription.lastFetched.toNat + 1 ∧
      p.log.firstIndex ≤ p.subscription.lastFetched + 1 := by
  obtain ⟨made, hreached⟩ := h.reached
  have hsucc := hreached.kept.toNat_succ (UInt64.le_trans h.behind h.present)
  refine ⟨hsucc, ?_⟩
  rw [UInt64.le_iff_toNat_le, hsucc]
  exact h.within

theorem map_index_rest (h : Poised commit p) :
    (p.rest commit).map (·.index.toNat) = List.range' (p.subscription.lastFetched.toNat + 1)
      (commit.toNat - p.subscription.lastFetched.toNat) := by
  obtain ⟨made, hreached⟩ := h.reached
  obtain ⟨hsucc, hfirst⟩ := h.next_index
  rw [rest, hreached.kept.between_entries hfirst,
    hreached.kept.map_index_between hfirst h.present, hsucc, Nat.add_sub_add_right]

/-- The log answers with the first entries of the rest, one at least. -/
theorem answered (h : Poised commit p) (hlt : p.subscription.lastFetched < commit) :
    ∃ last entries, p.subscription.lastFetched < last ∧ last ≤ commit ∧
      p.log.retrieve (p.subscription.lastFetched + 1) p.subscription.settings.maxFetchBytes =
        .ok entries ∧
      ContiguousFrom (p.subscription.lastFetched.toNat + 1) entries ∧
      last.toNat = p.subscription.lastFetched.toNat + entries.length ∧
      p.rest commit = entries ++ entriesBetween (last + 1) commit p.log.entries ∧
      (1 < entries.length →
        totalSize entries ≤ p.subscription.settings.maxFetchBytes.toNat) := by
  obtain ⟨made, hreached⟩ := h.reached
  have hkept := hreached.kept
  obtain ⟨hsucc, hfirst⟩ := h.next_index
  have hreadable : p.subscription.lastFetched + 1 ≤ p.log.lastReadable := by
    rw [h.lastReadable, UInt64.le_iff_toNat_le, hsucc]
    exact UInt64.lt_iff_toNat_lt.mp hlt
  obtain ⟨last, ⟨⟨hle, hafford⟩, -⟩, hforward, hanswer⟩ :=
    hkept.retrieve_affordable hfirst hreadable p.subscription.settings.maxFetchBytes
  rw [h.lastReadable] at hle
  have hnext : p.log.firstIndex ≤ last + 1 := by
    rw [UInt64.le_iff_toNat_le, hkept.toNat_succ (UInt64.le_trans hle h.present)]
    exact Nat.le_succ_of_le
      (UInt64.le_iff_toNat_le.mp (UInt64.le_trans hfirst hforward))
  have hsplit := hkept.between_append hfirst hforward hle h.present
  have hcontiguous := hkept.contiguous_between hfirst last
  have hlength := hkept.length_between hfirst last
  have hpresent := UInt64.le_iff_toNat_le.mp (UInt64.le_trans hle h.present)
  rw [UInt64.le_iff_toNat_le, hsucc] at hforward
  rw [hsucc] at hcontiguous hlength
  refine ⟨last, _, UInt64.lt_iff_toNat_lt.mpr hforward, hle, hanswer, hcontiguous, by omega, ?_, ?_⟩
  · rw [rest, hkept.between_entries hfirst, hkept.between_entries hnext, hsplit]
  · intro hmany
    rcases hafford with rfl | hafford
    · omega
    · exact hafford

/-- One read moves a beginning of the rest to the queue and leaves the driver
ready for the next. -/
theorem page (h : Poised commit p) (hlt : p.subscription.lastFetched < commit) :
    ∃ answer next, p.page? = some (answer, next) ∧ Poised commit next ∧
      p.subscription.lastFetched < next.subscription.lastFetched ∧
      next.subscription.settings = p.subscription.settings ∧
      next.goal commit = p.goal commit ∧
      InBudget p.subscription.settings.maxFetchBytes answer := by
  obtain ⟨last, entries, hforward, hle, hanswer, hcontiguous, hlast, hrest, hbudget⟩ :=
    h.answered hlt
  obtain ⟨made, hreached⟩ := h.reached
  have hread := MemoryLog.read_undisturbed (p.subscription.lastFetched + 1)
    p.subscription.settings.maxFetchBytes h.failing h.lagging
  rw [hanswer] at hread
  obtain ⟨due, retry, metrics, position, hposition, hpage⟩ :=
    page?_eq (h.wants hlt) hread hcontiguous
  obtain rfl : position = last := UInt64.toNat.inj (hposition.trans hlast.symm)
  have hafter := hreached.read (p.subscription.lastFetched + 1)
    p.subscription.settings.maxFetchBytes
  rw [hread] at hafter
  refine ⟨_, _, hpage, ?_, hforward, rfl, ?_, entries, rfl, hbudget⟩
  · exact {
      reached := ⟨made, hafter⟩
      failing := h.failing
      lagging := h.lagging
      committed := h.committed
      present := h.present
      unasked := rfl
      settled := h.settled
      armed := h.armed
      heard := h.heard
      behind := hle
      within := by
        have hmoved := Nat.le_of_lt (UInt64.lt_iff_toNat_lt.mp hforward)
        exact Nat.le_trans h.within (Nat.succ_le_succ hmoved) }
  · change (p.subscription.queue ++ entries.map _) ++ _ = p.subscription.queue ++ _
    rw [hrest, List.map_append, List.append_assoc]
    rfl

/-- Where the driver is at the commit index, what is queued is all that there
was to get. -/
theorem goal_of_done (h : Poised commit p) (hlast : p.subscription.lastFetched = commit) :
    p.goal commit = p.subscription.queue := by
  obtain ⟨made, hreached⟩ := h.reached
  have hkept := hreached.kept
  have hsucc := hkept.toNat_succ h.present
  have hlength := hkept.contiguous.length_entriesBetween (commit + 1) commit
  have hnone : p.rest commit = [] := by
    rw [rest, hlast]
    apply List.eq_nil_of_length_eq_zero
    omega
  rw [goal, hnone, List.map_nil, List.append_nil]

end Poised

/-- The reads came to an end at the commit index with all that there was to get
in the queue: no more of them than there were entries, and each within the
budget. -/
structure PagedUp (commit : UInt64) (p : Pager)
    (run : List (Except LogFault (List LogEntry)) × Pager) : Prop where
  stops : run.2.page? = none
  few : run.1.length ≤ commit.toNat - p.subscription.lastFetched.toNat
  position : run.2.subscription.lastFetched = commit
  queue : run.2.subscription.queue = p.goal commit
  budget : ∀ answer ∈ run.1, InBudget p.subscription.settings.maxFetchBytes answer

namespace Poised

theorem pagedUp_of_done (h : Poised commit p) (hlast : p.subscription.lastFetched = commit)
    (fuel : Nat) : PagedUp commit p (pages fuel p) := by
  rw [pages_of_none (h.done hlast)]
  exact ⟨h.done hlast, Nat.zero_le _, hlast, (h.goal_of_done hlast).symm, by simp⟩

theorem pagedUp (h : Poised commit p) {fuel : Nat}
    (hfuel : commit.toNat - p.subscription.lastFetched.toNat ≤ fuel) :
    PagedUp commit p (pages fuel p) := by
  induction fuel generalizing p with
  | zero =>
      have hbehind := UInt64.le_iff_toNat_le.mp h.behind
      have hlast : p.subscription.lastFetched = commit := by
        apply UInt64.toNat.inj
        omega
      exact h.pagedUp_of_done hlast 0
  | succ fuel ih =>
      by_cases hlt : p.subscription.lastFetched < commit
      · obtain ⟨answer, next, hpage, hnext, hforward, hsettings, hgoal, hbudget⟩ := h.page hlt
        have hmoved := UInt64.lt_iff_toNat_lt.mp hforward
        have hbehind := UInt64.le_iff_toNat_le.mp hnext.behind
        have hrest := ih hnext (by omega)
        have hfew := hrest.few
        rw [pages_of_some hpage]
        refine ⟨hrest.stops, ?_, hrest.position, hrest.queue.trans hgoal, ?_⟩
        · rw [List.length_cons]
          omega
        · intro other hother
          rcases List.mem_cons.mp hother with rfl | hother
          · exact hbudget
          · rw [← hsettings]
            exact hrest.budget other hother
      · have hlast := UInt64.le_antisymm h.behind (UInt64.not_lt.mp hlt)
        exact h.pagedUp_of_done hlast _

/-- Reading page by page is complete, whatever the budget. From a position whose
successor is kept, with all entries up to the commit index there, the driver
stops after at most one read for each entry in between. Behind what was queued
before, the queue then holds exactly those entries, numbered through, each once;
the budget shows only in the sizes of the answers that gave more than one
entry. -/
theorem pages_complete (h : Poised commit p) {fuel : Nat}
    (hfuel : commit.toNat - p.subscription.lastFetched.toNat ≤ fuel) :
    (pages fuel p).2.page? = none ∧
    (pages fuel p).1.length ≤ commit.toNat - p.subscription.lastFetched.toNat ∧
    (pages fuel p).2.subscription.lastFetched = commit ∧
    (pages fuel p).2.subscription.queue = p.subscription.queue ++
      (entriesBetween (p.subscription.lastFetched + 1) commit p.log.entries).map .entry ∧
    (entriesBetween (p.subscription.lastFetched + 1) commit p.log.entries).map (·.index.toNat) =
      List.range' (p.subscription.lastFetched.toNat + 1)
        (commit.toNat - p.subscription.lastFetched.toNat) ∧
    ∀ answer ∈ (pages fuel p).1, ∃ entries, answer = .ok entries ∧
      (1 < entries.length →
        totalSize entries ≤ p.subscription.settings.maxFetchBytes.toNat) := by
  have hrun := h.pagedUp hfuel
  exact ⟨hrun.stops, hrun.few, hrun.position, hrun.queue, h.map_index_rest, hrun.budget⟩

end Poised

/-- Four entries of 18, 16, 17 and 16 bytes were committed, and the first is
gone. -/
def threeLeft : MemoryLog where
  firstIndex := 2
  entries := [⟨2, 1, []⟩, ⟨3, 1, [3]⟩, ⟨4, 1, []⟩]
  committed := 4

def behindFirst (budget : UInt64) : Pager where
  now := 0
  subscription := {
    settings := { maxFetchBytes := budget }
    lastFetched := 1
    commit := some 4
    lastApplied := 1 }
  log := threeLeft

theorem behindFirst_poised (budget : UInt64) : Poised 4 (behindFirst budget) where
  reached := by
    have hadded : MemoryLog.History _ _ :=
      .call (.append []) (.call (.append [3]) (.call (.append []) (.call (.append [1, 2]) .fresh
        (by decide)) (by decide)) (by decide)) (by decide)
    exact ⟨_, .call (.commit 4) (.call (.compact 1) hadded (by decide)) trivial⟩
  failing := rfl
  lagging := rfl
  committed := rfl
  present := by
    change 4 ≤ threeLeft.lastIndex
    decide
  unasked := rfl
  settled := rfl
  armed := rfl
  heard := rfl
  behind := by
    change (1 : UInt64) ≤ 4
    decide
  within := Nat.le_refl 2

/-- A budget below the size of any entry makes three pages of one entry, and one
of 40 bytes makes two. -/
theorem pages_complete_behind_first :
    (pages 3 (behindFirst 1)).1.length = 3 ∧ (pages 3 (behindFirst 40)).1.length = 2 ∧
      (pages 3 (behindFirst 1)).2.subscription.queue =
        (pages 3 (behindFirst 40)).2.subscription.queue ∧
      (pages 3 (behindFirst 40)).2.subscription.lastFetched = 4 ∧
      ∀ answer ∈ (pages 3 (behindFirst 40)).1, ∃ entries, answer = .ok entries ∧
        (1 < entries.length → totalSize entries ≤ 40) := by
  obtain ⟨-, -, -, hsmall, -, -⟩ := (behindFirst_poised 1).pages_complete (Nat.le_refl 3)
  obtain ⟨-, -, hposition, hlarge, -, hbudget⟩ :=
    (behindFirst_poised 40).pages_complete (Nat.le_refl 3)
  exact ⟨rfl, rfl, hsmall.trans hlarge.symm, hposition, hbudget⟩

end Pager

end RangeKeeper
