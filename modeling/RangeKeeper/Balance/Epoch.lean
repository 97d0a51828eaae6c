import RangeKeeper.Balance.Balancer

/-!
Removal of what a repeated creation of the same ranges left behind. Ranges
created twice exist in two epochs side by side; the oldest is kept, and the
leaders of the newest are asked to quit one by one.
-/

namespace RangeKeeper

/-- Reports of the ranges of one epoch, by store. -/
abbrev EpochGroup := SortedMap StoreId StoreReport

/-- Enter one range of a store into a group. The statistics are those of the
store's first report that has a range in the group. -/
def EpochGroup.add (group : EpochGroup) (report : StoreReport) (range : RangeReport) :
    EpochGroup :=
  group.upsert report.store fun present =>
    let entered := present.getD { report with ranges := [] }
    { entered with ranges := entered.ranges ++ [range] }

def organizeByEpoch (reports : List StoreReport) : SortedMap UInt64 EpochGroup :=
  reports.foldl
    (fun groups report =>
      report.ranges.foldl
        (fun groups range =>
          groups.upsert range.id.epoch fun present =>
            EpochGroup.add (present.getD .empty) report range)
        groups)
    .empty

namespace EpochBalancer

/-- Ask `store` to quit the first range that it leads in the newest of at least
two epochs. -/
def propose (store : StoreId) (reports : List StoreReport) : Option Command :=
  let groups := organizeByEpoch reports
  if groups.size < 2 then none
  else do
    let (_, newest) ← groups.entries.getLast?
    let own ← newest.find? store
    let range ← own.leaderRanges.head?
    return .changeConfig (.quit store range)

end EpochBalancer

/-- A balancer that removes the replicas of a redundant epoch from `store`. -/
def Balancer.redundantEpoch (store : StoreId) : Balancer where
  name := "redundant_epoch_removal"
  store := store
  propose := EpochBalancer.propose store

end RangeKeeper
