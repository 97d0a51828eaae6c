import RangeKeeper.Metrics.Series

/-!
What the balance controller counts: its rounds, the commands that came of them
by balancer and kind, and the commands that the sink refused.
-/

namespace RangeKeeper

structure BalanceMetrics where
  evaluations : UInt64 := 0
  commands : LabeledCounter 2 :=
    { name := "balance_commands_total"
      help := "Balance commands produced"
      labelNames := #v["balancer", "kind"] }
  rejections : UInt64 := 0

namespace BalanceMetrics

def recordCommand (m : BalanceMetrics) (balancer kind : String) : BalanceMetrics :=
  { m with commands := m.commands.increment #v[balancer, kind] }

def render (m : BalanceMetrics) : String :=
  Counter.render ⟨"balance_evaluations_total", "Balance evaluation rounds", m.evaluations⟩ "" ++
    m.commands.render ++
    Counter.render
      ⟨"balance_sink_rejections_total", "Balance commands refused by the sink", m.rejections⟩ ""

end BalanceMetrics

end RangeKeeper
