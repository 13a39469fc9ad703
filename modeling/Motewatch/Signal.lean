import Motewatch.Instant

/-!
# Signals to the simulation

What a monitor asks of the simulation that it watches. Operations return the signals that they give,
in order.

## Main definitions

* `Signal` — a request to the simulation.
-/

namespace Motewatch

/-- A request to the simulation. -/
inductive Signal
  /-- Run at this multiple of real time. -/
  | speed (x : Float)
  /-- Send this message back after a delay. -/
  | message (delay : Instant) (text : String)
  /-- The test has passed. -/
  | passed
  deriving DecidableEq

end Motewatch
