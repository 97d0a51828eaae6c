import RangeKeeper.Balance.Balancer
import RangeKeeper.Metrics.Balance
import RangeKeeper.Settings
import RangeKeeper.Text.Quoted

/-!
The controller keeps the latest reports and an ordered list of balancers. Each
round asks them in turn, and the first proposal is the command of the round; it
is counted by balancer and kind.
-/

namespace RangeKeeper

structure Controller where
  settings : ControlSettings
  balancers : List Balancer
  reports : List StoreReport := []
  metrics : BalanceMetrics := {}

namespace Controller

def create (settings : ControlSettings) (balancers : List Balancer) :
    Except SettingsFault Controller :=
  settings.validate.map fun _ => { settings := settings, balancers := balancers }

def update (c : Controller) (reports : List StoreReport) : Controller :=
  { c with reports := reports }

/-- The first proposal among the balancers, with the name of its balancer. -/
def proposal? (c : Controller) : Option (String × Command) :=
  c.balancers.findSome? fun b => (b.propose c.reports).map fun command => (b.name, command)

def evaluate (c : Controller) : Option Command × Controller :=
  let metrics := { c.metrics with evaluations := c.metrics.evaluations + 1 }
  match c.proposal? with
  | none => (none, { c with metrics := metrics })
  | some (name, command) =>
    (some command, { c with metrics := metrics.recordCommand name command.kind })

def recordRejection (c : Controller) : Controller :=
  { c with metrics := { c.metrics with rejections := c.metrics.rejections + 1 } }

def describe (c : Controller) : String :=
  "BalanceController \x7b config: BalanceControllerConfig \x7b interval: " ++
    c.settings.interval.render ++ ", retry_delay: " ++ c.settings.retryDelay.render ++
    " \x7d, balancers: [" ++ ", ".intercalate (c.balancers.map fun b => quote b.name) ++ "] \x7d"

end Controller

end RangeKeeper
