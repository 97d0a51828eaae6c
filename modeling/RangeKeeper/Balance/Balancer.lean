import RangeKeeper.Balance.Command

/-!
A balancer looks at the latest reports of all stores and proposes at most one
command, which acts for one store. It decides by the reports alone: two looks at
the same reports give the same proposal.
-/

namespace RangeKeeper

structure Balancer where
  name : String
  store : StoreId
  propose : List StoreReport → Option Command

def Balancer.fixed (name : String) (store : StoreId) (command : Option Command) : Balancer where
  name := name
  store := store
  propose _ := command

end RangeKeeper
