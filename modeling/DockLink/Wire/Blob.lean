import DockLink.Bytes.Crc
import DockLink.Wire.Header

/-!
# Blobs and their checksums

The checksum of a blob covers its header and payload and follows them. `stamp` writes it, and
`verify` tells whether a buffer holds the one its header and payload call for.
-/

namespace DockLink.Blob

/-- Writes the checksum behind header and payload. The answer holds the length of the blob too. -/
def stamp (buffer : Bytes) (h : Header) : Except Fault (Nat × Bytes) :=
  if h.covered ≤ buffer.length then
    (buffer.put32 h.covered (Crc.ofBytes (buffer.take h.covered))).map
      fun blob => (h.covered + Header.crcLength, blob)
  else .error .outOfRange

/-- Compares the checksum of a whole blob with the one it carries. -/
def verify (buffer : Bytes) (h : Header) : Except Fault Bool :=
  if h.covered ≤ buffer.length then
    (buffer.get32 h.covered).map fun carried => Crc.ofBytes (buffer.take h.covered) == carried
  else .error .outOfRange

def ofPayload (h : Header) (payload : Bytes) : Except Fault (Nat × Bytes) :=
  stamp (h.toBytes ++ payload ++ List.replicate Header.crcLength 0) h

end DockLink.Blob
