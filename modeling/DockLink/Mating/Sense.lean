import DockLink.Mating.Orientation

/-!
# Orientation sensing

A sense pin is read twice, once pulled up and once pulled down. A pin that follows both pulls
floats; otherwise the mating side drives it. The levels of two pins tell the orientation.
-/

namespace DockLink

/-- The level of a sense pin. -/
inductive PinState where
  | float
  | high
  | low
deriving DecidableEq, Repr

/-- The display name. -/
def PinState.name : PinState → String
  | .float => "Float"
  | .high => "High"
  | .low => "Low"

/-- The level of a pin, from its readings under pull-up and under pull-down. -/
def PinState.ofReadings : (pulledUp pulledDown : Bool) → PinState
  | false, _ => .low
  | true, true => .high
  | true, false => .float

/-- The orientation that two pins show. The first pin decides if it is driven, and two floating pins
mean that there is no mating side. -/
def Orientation.sense : PinState → PinState → Option Orientation
  | .high, _ => some .north
  | .low, _ => some .west
  | .float, .high => some .south
  | .float, .low => some .east
  | .float, .float => none

end DockLink
