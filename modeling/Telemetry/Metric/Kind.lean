/-
  The two kinds of metric and their type tags.
-/

namespace Telemetry

/-- The two kinds of metric. -/
inductive Kind where
  /-- A reading that replaces the previous one. -/
  | gauge
  /-- A running total that adds deltas. -/
  | counter
  deriving DecidableEq, Repr, Inhabited

namespace Kind

/-- The type tag. -/
def name : Kind → String
  | gauge => "gauge"
  | counter => "counter"

end Kind

end Telemetry
