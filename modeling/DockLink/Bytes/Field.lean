import DockLink.Fault

/-!
# Fields of a byte buffer

Numbers of one, two and four bytes at any offset of a buffer, the least significant byte first. A field
that does not lie within the buffer is a fault, and a write changes the bytes of its field only.
-/

namespace DockLink

abbrev Bytes := List UInt8

namespace Bytes

/-- Replaces the bytes from `offset` on by `data`. -/
def put (buffer : Bytes) (offset : Nat) (data : Bytes) : Except Fault Bytes :=
  if offset + data.length ≤ buffer.length then
    .ok (buffer.take offset ++ data ++ buffer.drop (offset + data.length))
  else .error .outOfRange

def get8 (buffer : Bytes) (offset : Nat) : Except Fault UInt8 :=
  match buffer.drop offset with
  | b :: _ => .ok b
  | _ => .error .outOfRange

/-- The two bytes of a number, the lower one first. -/
def ofWord16 (w : UInt16) : Bytes := [w.toUInt8, (w >>> 8).toUInt8]

/-- The number whose lower byte comes first. -/
def word16 (b₀ b₁ : UInt8) : UInt16 := b₀.toUInt16 ||| (b₁.toUInt16 <<< 8)

/-- The four bytes of a number, the lowest one first. -/
def ofWord32 (w : UInt32) : Bytes :=
  [w.toUInt8, (w >>> 8).toUInt8, (w >>> 16).toUInt8, (w >>> 24).toUInt8]

/-- The number whose lowest byte comes first. -/
def word32 (b₀ b₁ b₂ b₃ : UInt8) : UInt32 :=
  b₀.toUInt32 ||| (b₁.toUInt32 <<< 8) ||| (b₂.toUInt32 <<< 16) ||| (b₃.toUInt32 <<< 24)

def get16 (buffer : Bytes) (offset : Nat) : Except Fault UInt16 :=
  match buffer.drop offset with
  | b₀ :: b₁ :: _ => .ok (word16 b₀ b₁)
  | _ => .error .outOfRange

/-- A number of two bytes in two's complement. -/
def getInt16 (buffer : Bytes) (offset : Nat) : Except Fault Int16 :=
  (buffer.get16 offset).map UInt16.toInt16

def get32 (buffer : Bytes) (offset : Nat) : Except Fault UInt32 :=
  match buffer.drop offset with
  | b₀ :: b₁ :: b₂ :: b₃ :: _ => .ok (word32 b₀ b₁ b₂ b₃)
  | _ => .error .outOfRange

def put8 (buffer : Bytes) (offset : Nat) (b : UInt8) : Except Fault Bytes := buffer.put offset [b]

def put16 (buffer : Bytes) (offset : Nat) (w : UInt16) : Except Fault Bytes :=
  buffer.put offset (ofWord16 w)

def putInt16 (buffer : Bytes) (offset : Nat) (w : Int16) : Except Fault Bytes :=
  buffer.put offset (ofWord16 w.toUInt16)

def put32 (buffer : Bytes) (offset : Nat) (w : UInt32) : Except Fault Bytes :=
  buffer.put offset (ofWord32 w)

end Bytes

end DockLink
