import DockLink.Bytes.Field

/-!
# CRC-32/MPEG-2

The checksum of a blob: the polynomial 04C11DB7, an initial value of all ones, the most significant
bit of each byte first, and no exclusive or at the end. Bytes may be fed in parts.
-/

namespace DockLink

/-- The remainder of a byte sequence. -/
abbrev Crc := UInt32

namespace Crc

def polynomial : UInt32 := 0x04C11DB7

def initial : Crc := 0xFFFFFFFF

/-- Moves one bit out at the top, and takes the polynomial off if it was set. -/
def shift (c : Crc) : Crc :=
  if c &&& 0x80000000 = 0 then c <<< 1 else (c <<< 1) ^^^ polynomial

def shifts : Nat → Crc → Crc
  | 0, c => c
  | n + 1, c => shifts n (shift c)

def feed (c : Crc) (b : UInt8) : Crc := shifts 8 (c ^^^ (b.toUInt32 <<< 24))

def feedAll (c : Crc) (bytes : Bytes) : Crc := bytes.foldl feed c

def ofBytes (bytes : Bytes) : Crc := initial.feedAll bytes

end Crc

end DockLink
