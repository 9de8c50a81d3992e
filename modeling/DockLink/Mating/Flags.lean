import DockLink.Mating.Orientation

/-!
# Status and interrupt words

Sixteen flag bits each. The status word reports the slider, the power lines and the mating side: bit
8 is set while there is one, and bits 9 and 10 then hold its orientation.
-/

namespace DockLink

/-- What the bits of a flag word stand for. -/
inductive FlagKind where
  | status
  | interrupt
deriving DecidableEq, Repr

/-- A word of flag bits. -/
structure Flags (kind : FlagKind) where
  bits : UInt16
deriving DecidableEq, Repr

abbrev StatusFlags := Flags .status

abbrev InterruptFlags := Flags .interrupt

namespace Flags

variable {kind : FlagKind}

def none : Flags kind := ⟨0⟩

instance : Inhabited (Flags kind) := ⟨none⟩

instance : OrOp (Flags kind) := ⟨fun a b => ⟨a.bits ||| b.bits⟩⟩

instance : AndOp (Flags kind) := ⟨fun a b => ⟨a.bits &&& b.bits⟩⟩

def isEmpty (f : Flags kind) : Bool := f.bits = 0

/-- Whether every bit of `g` is set. -/
def contains (f g : Flags kind) : Bool := f.bits &&& g.bits = g.bits

def insert (f g : Flags kind) : Flags kind := ⟨f.bits ||| g.bits⟩

def remove (f g : Flags kind) : Flags kind := ⟨f.bits &&& ~~~g.bits⟩

/-- Sets or clears the bits of `g`. -/
def assign (f g : Flags kind) (value : Bool) : Flags kind :=
  if value then f.insert g else f.remove g

/-- Takes the bits that `mask` selects from `g`. -/
def maskedUpdate (f g mask : Flags kind) : Flags kind :=
  ⟨(f.bits &&& ~~~mask.bits) ||| (g.bits &&& mask.bits)⟩

end Flags

namespace StatusFlags

/-- The slider is out. -/
def positionExpanded : StatusFlags := ⟨1⟩

def internalConnected : StatusFlags := ⟨2⟩

def externalConnected : StatusFlags := ⟨4⟩

/-- There is a mating side. -/
def matingSide : StatusFlags := ⟨0x100⟩

def orientationShift : UInt16 := 9

/-- The two orientation bits. -/
def orientationField : StatusFlags := ⟨3 <<< orientationShift⟩

end StatusFlags

/-- Where the slider is. -/
inductive SliderPosition where
  | retracted
  | extended
deriving DecidableEq, Repr

/-- The display name. -/
def SliderPosition.name : SliderPosition → String
  | .retracted => "Retracted"
  | .extended => "Extended"

namespace Flags

def position (f : StatusFlags) : SliderPosition :=
  if f.contains StatusFlags.positionExpanded then .extended else .retracted

/-- The orientation of the mating side, if there is one. -/
def orientation (f : StatusFlags) : Option Orientation :=
  if f.contains StatusFlags.matingSide then
    some (.ofLowBits
      ((f.bits &&& StatusFlags.orientationField.bits) >>> StatusFlags.orientationShift).toUInt8)
  else Option.none

/-- Reports a mating side and its orientation, or that there is none. -/
def withOrientation (f : StatusFlags) : Option Orientation → StatusFlags
  | some o =>
    (f.remove StatusFlags.orientationField).insert
      ⟨o.code.toUInt16 <<< StatusFlags.orientationShift⟩ |>.insert StatusFlags.matingSide
  | Option.none => (f.remove StatusFlags.orientationField).remove StatusFlags.matingSide

end Flags

namespace InterruptFlags

/-- The connection changed. -/
def connect : InterruptFlags := ⟨1⟩

/-- A blob waits for the controller. -/
def newBlob : InterruptFlags := ⟨2⟩

def all : InterruptFlags := connect ||| newBlob

end InterruptFlags

end DockLink
