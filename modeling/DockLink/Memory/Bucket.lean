import DockLink.Bytes.Field

/-!
# Size classes

A size class owns equally long slots and counts the handles to each. The free slots form a list that
runs through the slots themselves: the first byte of a free slot holds the number of the next one.
Slots from `watermark` on were never handed out and are not on the list yet.

Handles are given back in passing, by operations whose answer is something else. A handle too many
is therefore noted in the size class, and the note stays.
-/

namespace DockLink

/-- The bytes of a slot and the number of handles to it. -/
structure Slot (size : Nat) where
  bytes : Vector UInt8 size
  refs : UInt8
deriving DecidableEq, Repr

namespace Slot

def fresh (size : Nat) : Slot size := { bytes := Vector.replicate size 0, refs := 0 }

/-- Overwrites the bytes from `offset` on. What lies past the end is dropped. -/
def storeFrom {size : Nat} : Vector UInt8 size → Nat → Bytes → Vector UInt8 size
  | bytes, _, [] => bytes
  | bytes, offset, b :: rest => storeFrom (bytes.setIfInBounds offset b) (offset + 1) rest

end Slot

/-- Slots of `capacity` bytes each. -/
structure Bucket where
  capacity : Nat
  slots : Array (Slot capacity)
  /-- The slot released last, `noSlot` if none is on the list. -/
  freeHead : UInt8
  watermark : UInt8
  /-- The number of slots with a handle. -/
  used : UInt8
  /-- What went wrong when a handle was given back. -/
  fault? : Option Fault := none
deriving Repr

namespace Bucket

/-- The number that ends the list of free slots. -/
def noSlot : UInt8 := 255

/-- Slot numbers stay below `noSlot`. -/
def maxSlots : Nat := noSlot.toNat

/-- A size class that never handed a slot out, all its bytes zero. -/
def fresh (capacity count : Nat) : Bucket :=
  { capacity
    slots := Array.replicate count (.fresh capacity)
    freeHead := noSlot
    watermark := 0
    used := 0 }

instance : Inhabited Bucket := ⟨fresh 0 0⟩

/-- A slot. One that does not exist reads as a fresh one. -/
def slot (b : Bucket) (s : UInt8) : Slot b.capacity := b.slots.getD s.toNat (.fresh b.capacity)

def refs (b : Bucket) (s : UInt8) : UInt8 := (b.slot s).refs

/-- The number that a free slot's first byte holds. -/
def link (b : Bucket) (s : UInt8) : UInt8 := (b.slot s).bytes[0]?.getD noSlot

/-- The number of slots without a handle. -/
def freeCount (b : Bucket) : Nat := b.slots.size - b.used.toNat

def onSlot (b : Bucket) (s : UInt8) (f : Slot b.capacity → Slot b.capacity) : Bucket :=
  { b with slots := b.slots.modify s.toNat f }

def claim (b : Bucket) (s : UInt8) : Bucket :=
  { b.onSlot s (fun slot => { slot with refs := 1 }) with used := b.used + 1 }

/-- Hands out the slot released last, else the next one that was never used. -/
def acquire (b : Bucket) : Option (UInt8 × Bucket) :=
  if b.freeHead ≠ noSlot then
    some (b.freeHead, { b.claim b.freeHead with freeHead := b.link b.freeHead })
  else if b.watermark.toNat < b.slots.size then
    some (b.watermark, { b.claim b.watermark with watermark := b.watermark + 1 })
  else none

def retain (b : Bucket) (s : UInt8) : Except Fault Bucket :=
  if b.refs s = 0 then .error .retainOfReleased
  else if b.refs s = 255 then .error .refCountOverflow
  else .ok (b.onSlot s fun slot => { slot with refs := slot.refs + 1 })

/-- Counts one handle less. A slot that has none left goes to the head of the list. -/
def release (b : Bucket) (s : UInt8) : Bucket :=
  if b.refs s = 0 then { b with fault? := some .doubleRelease }
  else if b.refs s = 1 then
    { b.onSlot s (fun slot =>
        { bytes := slot.bytes.setIfInBounds 0 b.freeHead, refs := 0 }) with
      freeHead := s, used := b.used - 1 }
  else b.onSlot s fun slot => { slot with refs := slot.refs - 1 }

def store (b : Bucket) (s : UInt8) (offset : Nat) (data : Bytes) : Bucket :=
  b.onSlot s fun slot => { slot with bytes := Slot.storeFrom slot.bytes offset data }

end Bucket

end DockLink
