import RangeKeeper.Proofs.Replay.Tasks

/-!
The account of the installs. A snapshot that the driver takes up becomes an
install, which waits in the queue and then in the hands of the worker. The
worker ends it as done or as failed and counts it as the one or the other. What
a newer snapshot, or a driver that leaves, drops from the queue never reaches
the worker; of that, only the entries are counted.
-/

namespace RangeKeeper

def installsTakenIn (past : List Occurrence) (s : Subscription) : List InstallTask :=
  gathered (Occurrence.takenOff (·.snapshots)) past s

def installsDoneIn (past : List Occurrence) : List InstallTask :=
  past.filterMap Occurrence.installDone?

def installsFailedIn (past : List Occurrence) : List InstallTask :=
  past.filterMap Occurrence.installFailed?

def installsDroppedIn (past : List Occurrence) (s : Subscription) : List InstallTask :=
  gathered Occurrence.installsDropped past s

namespace Subscription

variable {s s' : Subscription} {now : Instant} {m : Move}

/-- Every step lets an install go only by ending it or by dropping it. -/
theorem Step.install_flow (h : Step now s m s') :
    (s.installsHeld ++ Occurrence.takenOff (·.snapshots) ⟨now, s, m⟩ s').Perm
      (Occurrence.installEnded ⟨now, s, m⟩ ++ Occurrence.installsDropped ⟨now, s, m⟩ s' ++
        s'.installsHeld) := by
  have hflow := h.flow_of_kind Task.install?
  rw [tasks_installs, tasks_installs, Occurrence.queued_installs,
    Occurrence.finished_installs] at hflow
  exact hflow

end Subscription

open Subscription

namespace Run

variable {settings : ReplaySettings} {first : UInt64} {past : List Occurrence}
variable {now : Instant} {s : Subscription}

/-- The snapshots taken up in a history are those installed, those that failed,
those dropped from the queue and those that are queued or being installed. -/
theorem installs_flow (h : Run Interleaved settings first past now s) :
    (installsTakenIn past s).Perm (installsDoneIn past ++ installsFailedIn past ++
      installsDroppedIn past s ++ s.installsHeld) := by
  have hflow := h.flow installsHeld (Occurrence.takenOff (·.snapshots))
    (fun x after => x.installEnded ++ x.installsDropped after)
    (fun s hstart => by rw [start_eq hstart]; rfl) (fun _ _ _ _ hstep => Step.install_flow hstep)
  have hleft := gathered_both (fun x _ => x.installEnded) Occurrence.installsDropped past s
  have hended : (past.flatMap Occurrence.installEnded).Perm
      (installsDoneIn past ++ installsFailedIn past) := by
    rw [installsDoneIn, installsFailedIn, List.filterMap_eq_flatMap_toList,
      List.filterMap_eq_flatMap_toList]
    exact (List.flatMap_append_perm ..).symm
  rw [gathered_of_moves] at hleft
  exact hflow.trans ((hleft.trans (hended.append_right _)).append_right _)

theorem installs_counted (h : Run Interleaved settings first past now s) :
    s.metrics.snapshotsInstalled = UInt64.ofNat (installsDoneIn past).length ∧
    s.metrics.installFailures = UInt64.ofNat (installsFailedIn past).length := by
  have hdone := h.counted (·.metrics.snapshotsInstalled) (fun x _ => x.installDone?.toList)
    (fun s hstart => by rw [start_eq hstart]) (fun _ _ _ _ hstep => (Step.counts hstep).installed)
  have hfailed := h.counted (·.metrics.installFailures) (fun x _ => x.installFailed?.toList)
    (fun s hstart => by rw [start_eq hstart]) (fun _ _ _ _ hstep => (Step.counts hstep).failed)
  rw [gathered_of_moves, ← List.filterMap_eq_flatMap_toList] at hdone hfailed
  exact ⟨hdone, hfailed⟩

/-- Install accounting. At every moment the snapshots taken up so far are those
installed, those that failed or were given up, those dropped from the queue, and
those that are queued or being installed. The counters say how many were
installed and how many failed, and no counter has those that were dropped: the
numbers add up exactly while nothing was. -/
theorem installs_accounted_unless_dropped (h : Run Interleaved settings first past now s) :
    (installsTakenIn past s).Perm (installsDoneIn past ++ installsFailedIn past ++
      installsDroppedIn past s ++ s.installsHeld) ∧
    s.metrics.snapshotsInstalled = UInt64.ofNat (installsDoneIn past).length ∧
    s.metrics.installFailures = UInt64.ofNat (installsFailedIn past).length ∧
    ((installsTakenIn past s).length < UInt64.size →
      ((installsTakenIn past s).length = s.metrics.snapshotsInstalled.toNat +
          s.metrics.installFailures.toNat + s.installsHeld.length ↔
        installsDroppedIn past s = [])) := by
  have hflow := h.installs_flow
  obtain ⟨hdone, hfailed⟩ := h.installs_counted
  refine ⟨hflow, hdone, hfailed, fun hbound => ?_⟩
  have htotal : (installsTakenIn past s).length = (installsDoneIn past).length +
      (installsFailedIn past).length + (installsDroppedIn past s).length +
        s.installsHeld.length := by
    rw [hflow.length_eq]
    simp only [List.length_append]
  rw [hdone, hfailed, UInt64.toNat_ofNat_of_lt' (by omega), UInt64.toNat_ofNat_of_lt' (by omega),
    ← List.length_eq_zero_iff]
  omega

/-- Four snapshots arrive, each before the one before it is through but the
last: the first is given up while it is being installed, the second is dropped
from the queue, the third is installed. -/
def superseded : List (Instant × Move) :=
  [(0, .receive (.install ⟨⟨1, 1⟩, 1, "", 5, .normal⟩ "store1")), (0, .drive), (0, .work),
    (0, .beginInstall),
    (1, .receive (.install ⟨⟨1, 1⟩, 1, "", 6, .normal⟩ "store2")), (1, .drive),
    (1, .receive (.install ⟨⟨1, 1⟩, 1, "", 7, .normal⟩ "store3")), (1, .drive),
    (1, .work), (1, .work), (1, .beginInstall),
    (2, .endInstall (.ok ⟨⟨1, 1⟩, 1, "", 7, .normal⟩)), (2, .drive), (2, .drive),
    (3, .receive (.install ⟨⟨1, 1⟩, 1, "", 8, .normal⟩ "store1")), (3, .drive)]

theorem installs_accounted_unless_dropped_superseded :
    ∃ past now s, Run Interleaved {} 0 past now s ∧
      (installsTakenIn past s).map (·.ticket) = [0, 1, 2, 3] ∧
      (installsDoneIn past).map (·.ticket) = [2] ∧
      (installsFailedIn past).map (·.ticket) = [0] ∧
      (installsDroppedIn past s).map (·.ticket) = [1] ∧
      s.installsHeld.map (·.ticket) = [3] ∧
      (installsTakenIn past s).length ≠ s.metrics.snapshotsInstalled.toNat +
        s.metrics.installFailures.toNat + s.installsHeld.length := by
  obtain ⟨fresh, past, s, hstart, hplay, htaken, hdone, hfailed, hdropped, hheld⟩ :
      ∃ fresh past s, Subscription.start {} 0 = .ok fresh ∧
        play? [] fresh superseded = some (past, s) ∧
        (installsTakenIn past s).map (·.ticket) = [0, 1, 2, 3] ∧
        (installsDoneIn past).map (·.ticket) = [2] ∧
        (installsFailedIn past).map (·.ticket) = [0] ∧
        (installsDroppedIn past s).map (·.ticket) = [1] ∧
        s.installsHeld.map (·.ticket) = [3] :=
    ⟨_, _, _, rfl, rfl, rfl, rfl, rfl, rfl, rfl⟩
  obtain ⟨now, hrun⟩ := run_of_play (.start hstart) (by decide) hplay
  have hcount : (installsTakenIn past s).length = 4 := by
    simpa using congrArg List.length htaken
  refine ⟨past, now, s, hrun.interleaved, htaken, hdone, hfailed, hdropped, hheld, fun hsum => ?_⟩
  have hlaw := (installs_accounted_unless_dropped hrun.interleaved).2.2.2 (by rw [hcount]; decide)
  rw [hlaw.mp hsum] at hdropped
  cases hdropped

def twoAtOnce : List (Instant × Move) :=
  [(0, .receive (.install ⟨⟨1, 1⟩, 1, "", 5, .normal⟩ "store1")),
    (0, .receive (.install ⟨⟨1, 1⟩, 1, "", 9, .normal⟩ "store2")),
    (0, .drive), (0, .drive), (0, .work), (0, .beginInstall),
    (0, .endInstall (.ok ⟨⟨1, 1⟩, 1, "", 9, .normal⟩)), (0, .drive)]

/-- The first of two snapshots is cancelled before the worker sees it, and
counted nowhere. -/
theorem superseded_install_uncounted :
    ¬∀ (settings : ReplaySettings) (first : UInt64) (past : List Occurrence) (now : Instant)
      (s : Subscription), Run SingleThreaded settings first past now s →
        (installsTakenIn past s).length = s.metrics.snapshotsInstalled.toNat +
          s.metrics.installFailures.toNat + s.installsHeld.length := by
  intro hclaim
  obtain ⟨fresh, past, s, hstart, hplay, htaken, hinstalled, hfailures, hheld⟩ :
      ∃ fresh past s, Subscription.start {} 0 = .ok fresh ∧
        play? [] fresh twoAtOnce = some (past, s) ∧ (installsTakenIn past s).length = 2 ∧
        s.metrics.snapshotsInstalled = 1 ∧ s.metrics.installFailures = 0 ∧
        s.installsHeld = [] :=
    ⟨_, _, _, rfl, rfl, rfl, rfl, rfl, rfl⟩
  obtain ⟨now, hrun⟩ := run_of_play (.start hstart) (by decide) hplay
  have hsum := hclaim _ _ _ _ _ hrun
  rw [htaken, hinstalled, hfailures, hheld] at hsum
  exact absurd hsum (by decide)

end Run

end RangeKeeper
