import DockLink.Memory.Packet
import DockLink.Wire.Blob

/-!
# Packets cut into blobs

Every blob of a packet but the last one is full and announces another. A packet without bytes still
makes one blob, an empty one.
-/

namespace DockLink

/-- How far a packet of `length` bytes is cut into blobs of at most `maxPayload` bytes. -/
structure Segments where
  length : Nat
  offset : Nat := 0
  maxPayload : Nat
  finished : Bool := false
deriving DecidableEq, Repr

namespace Segments

/-- The size of a buffer for every blob of the packet. -/
def maxBlobLength (s : Segments) : Nat := Header.overhead + min s.length s.maxPayload

def payloadLength (s : Segments) : Nat := min (s.length - s.offset) s.maxPayload

/-- Whether another blob follows the next one. -/
def more (s : Segments) : Bool := s.offset + s.payloadLength < s.length

def tail (s : Segments) : Segments :=
  { s with offset := s.offset + s.payloadLength, finished := !s.more }

def blob (s : Segments) (pool : Pool) (packet : Packet) : Except Fault (Nat × Bytes) := do
  let header ← Header.ofLength s.payloadLength s.more
  let payload := packet.copy pool s.offset s.payloadLength
  if payload.length = s.payloadLength then Blob.ofPayload header payload else throw .outOfRange

/-- Writes the next blob into a buffer. The answer holds its length, and is none if the last blob
was cut off. -/
def next (s : Segments) (pool : Pool) (packet : Packet) (buffer : Block) :
    Except Fault (Option (Nat × Segments) × Pool) := do
  if pool.refCount buffer ≠ 1 then throw .sharedBlock
  if s.finished then return (none, pool)
  let (length, bytes) ← s.blob pool packet
  let pool ← pool.write buffer 0 bytes
  return (some (length, s.tail), pool)

end Segments

end DockLink
