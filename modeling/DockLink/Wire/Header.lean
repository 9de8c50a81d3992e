import DockLink.Bytes.Field

/-!
# Blob headers

A blob is a header of two bytes, a payload and a checksum of four bytes. The header holds the
payload length in its lower fifteen bits, and in the highest bit whether another blob of the same
packet follows.
-/

namespace DockLink

/-- The header of a blob, as the word on the wire. -/
structure Header where
  word : UInt16
deriving DecidableEq, Repr

namespace Header

def byteLength : Nat := 2

def crcLength : Nat := 4

/-- The bytes a blob has beyond its payload. -/
def overhead : Nat := byteLength + crcLength

def moreBit : UInt16 := 0x8000

def lengthMask : UInt16 := ~~~moreBit

/-- The longest payload a header can express. -/
def maxPayload : Nat := lengthMask.toNat

/-- The header of a payload of `length` bytes. -/
def ofLength (length : Nat) (more : Bool) : Except Fault Header :=
  if length ≤ maxPayload then
    let word := UInt16.ofNat length
    .ok ⟨if more then word ||| moreBit else word⟩
  else .error .payloadTooLong

def length (h : Header) : Nat := (h.word &&& lengthMask).toNat

/-- Whether another blob of the packet follows. -/
def more (h : Header) : Bool := h.word &&& moreBit ≠ 0

def blobLength (h : Header) : Nat := overhead + h.length

/-- The bytes that the checksum covers: header and payload. -/
def covered (h : Header) : Nat := byteLength + h.length

def ofBytes (b₀ b₁ : UInt8) : Header := ⟨Bytes.word16 b₀ b₁⟩

def toBytes (h : Header) : Bytes := Bytes.ofWord16 h.word

end Header

end DockLink
