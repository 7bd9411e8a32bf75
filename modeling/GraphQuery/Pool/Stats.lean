import GraphQuery.Decimal.Fixed

/-!
# Statistics of a pool

The counters of a pool and the sizes of its lists at one moment, and the
report in which they are shown.  The success rate is a double: the succeeded
executions divided by all finished ones, or zero if none has finished.  There
is neither a rate nor a report when there are more finished executions than 64
bits can count.
-/

namespace GraphQuery

/-- The counters and sizes of a pool at one moment. -/
structure PoolStats where
  submitted : Nat
  succeeded : Nat
  failed : Nat
  replayed : Nat
  queued : Nat
  inFlight : Nat
  retryBacklog : Nat
  deriving DecidableEq

namespace PoolStats

/-- The statistics of a pool that was not used. -/
def zero : PoolStats := ⟨0, 0, 0, 0, 0, 0, 0⟩

/-- The number of finished executions, if 64 bits can hold it. -/
def finished? (s : PoolStats) : Option UInt64 :=
  if s.succeeded + s.failed < UInt64.size then some (.ofNat (s.succeeded + s.failed)) else none

/-- The share of finished executions that succeeded, if those can be counted. -/
def successRate? (s : PoolStats) : Option Float :=
  s.finished?.map fun finished =>
    if finished = 0 then 0 else s.succeeded.toUInt64.toFloat / finished.toFloat

/-- The success rate with six places. -/
def rateText? (s : PoolStats) : Option String :=
  s.successRate?.map (Decimal.fixed 6)

/-- The lines of a report with the given success rate, each a label with its value. -/
def lines (s : PoolStats) (rate : Float) : List (String × String) :=
  [("Submitted:      ", toString s.submitted),
    ("Succeeded:      ", toString s.succeeded),
    ("Failed:         ", toString s.failed),
    ("Replayed:       ", toString s.replayed),
    ("Success Rate:   ", Decimal.fixed 2 (rate * 100) ++ "%"),
    ("Queued:         ", toString s.queued),
    ("In Flight:      ", toString s.inFlight),
    ("Retry Backlog:  ", toString s.retryBacklog)]

/-- The statistics as lines of text, if the finished executions can be counted. -/
def report? (s : PoolStats) : Option String :=
  s.successRate?.map fun rate =>
    "\n".intercalate ("=== Mutation Pipeline ===" :: (s.lines rate).map fun l => l.1 ++ l.2)

end PoolStats

end GraphQuery
