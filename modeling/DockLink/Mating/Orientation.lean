/-!
# Orientation of the mating side

Two connectors can mate in four orientations. Each has a code of two bits, and the codes give the
order.
-/

namespace DockLink

/-- How the mating side is turned. -/
inductive Orientation where
  | north
  | south
  | east
  | west
deriving DecidableEq, Repr

namespace Orientation

/-- The orientations by ascending code. -/
def all : List Orientation := [north, south, east, west]

def code : Orientation → UInt8
  | north => 0
  | south => 1
  | east => 2
  | west => 3

/-- The display name. -/
def name : Orientation → String
  | north => "North"
  | south => "South"
  | east => "East"
  | west => "West"

/-- The orientation of a code's two lower bits. -/
def ofLowBits (code : UInt8) : Orientation :=
  if code &&& 3 = 0 then north
  else if code &&& 3 = 1 then south
  else if code &&& 3 = 2 then east
  else west

/-- The orientation of a code, none if the code has more than two bits. -/
def ofCode? (code : UInt8) : Option Orientation :=
  if code ≤ west.code then some (ofLowBits code) else none

instance : Ord Orientation := ⟨fun a b => compare a.code b.code⟩

end Orientation

end DockLink
