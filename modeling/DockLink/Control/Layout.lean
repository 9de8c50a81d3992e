import DockLink.Bytes.Field
import DockLink.Mating.Connector
import DockLink.Transfer.Event

/-!
# Layout of arguments and responses

What goes to and from the controller, as bytes. Each structure has a fixed length, its fields follow
one another without gaps, and the lower byte of a field comes first. It is written into a buffer
field by field, and `toBytes` is what is there afterwards.
-/

namespace DockLink

structure Version where
  variant : UInt16
  revision : UInt16
deriving DecidableEq, Repr

namespace Version

def byteLength : Nat := 4

def current : Version := { variant := 1, revision := 1 }

def toBytes (v : Version) : Bytes := Bytes.ofWord16 v.variant ++ Bytes.ofWord16 v.revision

def ofBytes (b : Bytes) : Except Fault Version := do
  return { variant := ← b.get16 0, revision := ← b.get16 2 }

/-- Writes a version into a buffer, from `offset` on. -/
def encode (v : Version) (buffer : Bytes) (offset : Nat) : Except Fault Bytes := do
  let buffer ← buffer.put16 offset v.variant
  buffer.put16 (offset + 2) v.revision

end Version

/-- Status bits that the controller writes, selected by a mask. -/
structure StatusRequest where
  flags : StatusFlags
  mask : StatusFlags
deriving DecidableEq, Repr

namespace StatusRequest

def byteLength : Nat := 4

def toBytes (r : StatusRequest) : Bytes := Bytes.ofWord16 r.flags.bits ++ Bytes.ofWord16 r.mask.bits

def ofBytes (b : Bytes) : Except Fault StatusRequest := do
  return { flags := ⟨← b.get16 0⟩, mask := ⟨← b.get16 2⟩ }

/-- Writes a request into a buffer, from `offset` on. -/
def encode (r : StatusRequest) (buffer : Bytes) (offset : Nat) : Except Fault Bytes := do
  let buffer ← buffer.put16 offset r.flags.bits
  buffer.put16 (offset + 2) r.mask.bits

/-- Where the slider is to go, if the request is about it. -/
def expand (r : StatusRequest) : Option Bool :=
  if r.mask.contains StatusFlags.positionExpanded then
    some (r.flags.contains StatusFlags.positionExpanded)
  else none

end StatusRequest

/-- Readings of the power lines, with eight fractional bits. -/
structure Measurements where
  internalVoltage : Int16 := 0
  internalCurrent : Int16 := 0
  externalVoltage : Int16 := 0
  externalCurrent : Int16 := 0
  /-- The distance to the mating side, zero if it is unknown. -/
  distance : UInt16 := 0
deriving DecidableEq

structure StatusResponse where
  flags : StatusFlags
  /-- The packets that wait to be sent. -/
  pendingSend : UInt8
  /-- The packets that wait for the controller. -/
  pendingReceive : UInt8
  measurements : Measurements
deriving DecidableEq

namespace StatusResponse

def byteLength : Nat := 14

/-- The largest count that is reported: 255 stands for an invalid one. -/
def maxCount : Nat := 254

/-- A count that is cut off at the largest one reported. -/
def clampCount (n : Nat) : UInt8 := UInt8.ofNat (min n maxCount)

/-- Puts the connection into the flags that are known locally. -/
def ofStatus (known : StatusFlags) (connector : ConnectorStatus) (pendingSend pendingReceive : Nat)
    (measurements : Measurements) : StatusResponse :=
  { flags := known.withOrientation connector.flags.orientation
    pendingSend := clampCount pendingSend
    pendingReceive := clampCount pendingReceive
    measurements }

def toBytes (r : StatusResponse) : Bytes :=
  Bytes.ofWord16 r.flags.bits ++ [r.pendingSend, r.pendingReceive]
    ++ Bytes.ofWord16 r.measurements.internalVoltage.toUInt16
    ++ Bytes.ofWord16 r.measurements.internalCurrent.toUInt16
    ++ Bytes.ofWord16 r.measurements.externalVoltage.toUInt16
    ++ Bytes.ofWord16 r.measurements.externalCurrent.toUInt16
    ++ Bytes.ofWord16 r.measurements.distance

def ofBytes (b : Bytes) : Except Fault StatusResponse := do
  let flags ← b.get16 0
  let pendingSend ← b.get8 2
  let pendingReceive ← b.get8 3
  let internalVoltage ← b.getInt16 4
  let internalCurrent ← b.getInt16 6
  let externalVoltage ← b.getInt16 8
  let externalCurrent ← b.getInt16 10
  let distance ← b.get16 12
  return {
    flags := ⟨flags⟩, pendingSend, pendingReceive
    measurements :=
      { internalVoltage, internalCurrent, externalVoltage, externalCurrent, distance } }

/-- Writes a response into a buffer, from `offset` on. -/
def encode (r : StatusResponse) (buffer : Bytes) (offset : Nat) : Except Fault Bytes := do
  let buffer ← buffer.put16 offset r.flags.bits
  let buffer ← buffer.put8 (offset + 2) r.pendingSend
  let buffer ← buffer.put8 (offset + 3) r.pendingReceive
  let buffer ← buffer.putInt16 (offset + 4) r.measurements.internalVoltage
  let buffer ← buffer.putInt16 (offset + 6) r.measurements.internalCurrent
  let buffer ← buffer.putInt16 (offset + 8) r.measurements.externalVoltage
  let buffer ← buffer.putInt16 (offset + 10) r.measurements.externalCurrent
  buffer.put16 (offset + 12) r.measurements.distance

end StatusResponse

/-- The interrupts that the controller asks for. -/
structure InterruptRequest where
  mask : InterruptFlags
deriving DecidableEq, Repr

namespace InterruptRequest

def byteLength : Nat := 2

def responseLength : Nat := 2

def ofBytes (b : Bytes) : Except Fault InterruptRequest := do return { mask := ⟨← b.get16 0⟩ }

/-- The response: the interrupts that are pending. -/
def responseBytes (pending : InterruptFlags) : Bytes := Bytes.ofWord16 pending.bits

end InterruptRequest

/-- What comes before a blob of `length` bytes. -/
structure Envelope where
  contentType : ContentType
  length : UInt16
deriving DecidableEq, Repr

namespace Envelope

def byteLength : Nat := 4

/-- The envelope that is sent when no blob waits. -/
def empty : Envelope := { contentType := ⟨0⟩, length := 0 }

def toBytes (e : Envelope) : Bytes := Bytes.ofWord16 e.contentType.code ++ Bytes.ofWord16 e.length

def ofBytes (b : Bytes) : Except Fault Envelope := do
  return { contentType := ⟨← b.get16 0⟩, length := ← b.get16 2 }

/-- Writes an envelope into a buffer, from `offset` on. -/
def encode (e : Envelope) (buffer : Bytes) (offset : Nat) : Except Fault Bytes := do
  let buffer ← buffer.put16 offset e.contentType.code
  buffer.put16 (offset + 2) e.length

/-- Whether `transferred` bytes are the envelope and its whole blob. -/
def isComplete (e : Envelope) (transferred : Nat) : Bool :=
  transferred = byteLength + e.length.toNat

end Envelope

end DockLink
