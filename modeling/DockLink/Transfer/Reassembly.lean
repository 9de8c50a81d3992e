import DockLink.Transfer.Event
import DockLink.Wire.Blob

/-!
# Packets put together from blobs

The receiver reads headers and blobs from the incoming bytes, which may be cut anywhere. A blob is
received into a block of its own, and its payload becomes a chunk of the packet. After a fault the
partial packet is dropped and the input ignored until the transaction ends. A transaction may end
between two blobs of a packet, but not within one.
-/

namespace DockLink

/-- What the receive path is in the middle of, as the application sees it. -/
inductive RxState where
  | expectHeader
  /-- The number of bytes that the current blob still lacks. -/
  | expectPayload (remaining : Nat)
  | discard
deriving DecidableEq, Repr

namespace Reassembly

/-- What the receiver has of the current blob. -/
inductive Phase where
  /-- The bytes of the header so far. -/
  | header (received : Bytes)
  /-- The block of the blob, filled up to `filled`. -/
  | payload (block : Block) (header : Header) (filled : Nat)
  /-- Ignores input until the transaction ends. -/
  | discard
deriving DecidableEq, Repr

def Phase.idle : Phase := .header []

inductive Output where
  | blob
  | packet (packet : Packet)
  | fault (error : LinkError)
deriving DecidableEq, Repr

end Reassembly

open Reassembly

/-- The receive path, with the limits for a blob's payload and for a packet. -/
structure Receiver where
  maxPayload : Nat
  maxLength : Nat
  phase : Phase := .idle
  /-- The packet under reassembly, if some of its blobs are there. -/
  packet : Option Packet := none
deriving DecidableEq, Repr

namespace Receiver

/-- The receiver with its memory and the outputs of a step. -/
abbrev Result := Except Fault (Receiver × Pool × List Output)

def state (r : Receiver) : RxState :=
  match r.phase with
  | .header _ => .expectHeader
  | .payload _ header filled => .expectPayload (header.blobLength - filled)
  | .discard => .discard

def releasePacket (r : Receiver) (pool : Pool) : Pool :=
  (r.packet.map fun p => p.release pool).getD pool

def releaseBlob (r : Receiver) (pool : Pool) : Pool :=
  match r.phase with
  | .payload block _ _ => pool.release block
  | _ => pool

def reset (r : Receiver) (pool : Pool) : Receiver × Pool :=
  ({ r with phase := .idle, packet := none }, r.releasePacket (r.releaseBlob pool))

/-- Drops the partial packet and ignores the rest of the transaction. -/
def fail (r : Receiver) (pool : Pool) (error : LinkError) : Receiver × Pool × List Output :=
  ({ r with phase := .discard, packet := none }, r.releasePacket pool, [.fault error])

def startBlob (r : Receiver) (pool : Pool) (header : Header) : Result :=
  if header.length > r.maxPayload ∨ (header.more ∧ header.length = 0) then
    .ok (r.fail pool .lengthOutOfRange)
  else
    match pool.allocate header.blobLength with
    | .error _ => .ok (r.fail pool .outOfMemory)
    | .ok (block, pool) => do
      let pool ← pool.write block 0 header.toBytes
      return ({ r with phase := .payload block header Header.byteLength }, pool, [])

/-- Adds the payload of a good blob to the packet, and delivers the packet if it was the last blob.
-/
def acceptBlob (r : Receiver) (pool : Pool) (block : Block) (header : Header) : Result := do
  let packet := r.packet.getD .empty
  if packet.length + header.length > r.maxLength then
    let (r, pool, outputs) := { r with packet := some packet }.fail pool .lengthOutOfRange
    return (r, pool.release block, outputs)
  let chunk ← Chunk.of pool block Header.byteLength header.covered
  match packet.push pool chunk with
  | .error chunk =>
    return { r with packet := some packet }.fail (pool.release chunk.block) .lengthOutOfRange
  | .ok (packet, pool) =>
    if header.more then return ({ r with phase := .idle, packet := some packet }, pool, [.blob])
    else return ({ r with phase := .idle, packet := none }, pool, [.blob, .packet packet])

def finishBlob (r : Receiver) (pool : Pool) (block : Block) (header : Header) : Result := do
  if ← Blob.verify (pool.read block 0 header.blobLength) header then
    r.acceptBlob pool block header
  else
    let (r, pool, outputs) := r.fail pool .crcMismatch
    return (r, pool.release block, outputs)

def takeHeader (r : Receiver) (pool : Pool) (received : Bytes) : Result :=
  match received with
  | [b₀, b₁] => r.startBlob pool (.ofBytes b₀ b₁)
  | _ => .ok ({ r with phase := .header received }, pool, [])

def takePayload (r : Receiver) (pool : Pool) (block : Block) (header : Header) (filled : Nat)
    (data : Bytes) : Result := do
  let pool ← pool.write block filled data
  let filled := filled + data.length
  if filled = header.blobLength then r.finishBlob pool block header
  else return ({ r with phase := .payload block header filled }, pool, [])

/-- The number of bytes that the receiver can use before it has to look again. -/
def wanted (r : Receiver) (data : Bytes) : Nat :=
  match r.phase with
  | .discard => data.length
  | .header received => Header.byteLength - received.length
  | .payload _ header filled => header.blobLength - filled

/-- Takes a run of bytes, at most as many as are wanted. -/
def take (r : Receiver) (pool : Pool) (run : Bytes) : Result :=
  match r.phase with
  | .discard => .ok (r, pool, [])
  | .header received => r.takeHeader pool (received ++ run)
  | .payload block header filled => r.takePayload pool block header filled run

/-- Passes outputs on, first to last. -/
def deliverAll {σ : Type} (deliver : σ → Pool → Output → Except Fault (σ × Pool)) :
    σ → Pool → List Output → Except Fault (σ × Pool)
  | s, pool, [] => .ok (s, pool)
  | s, pool, output :: rest => do
    let (s, pool) ← deliver s pool output
    deliverAll deliver s pool rest

/-- Takes bytes run by run, at most `n` runs of them. What a run puts out is passed on before the
next run is taken. -/
def pushRuns {σ : Type} (deliver : σ → Pool → Output → Except Fault (σ × Pool)) :
    Nat → Receiver → Pool → σ → Bytes → Except Fault (Receiver × Pool × σ)
  | 0, r, pool, s, _ => .ok (r, pool, s)
  | n + 1, r, pool, s, data =>
    if data.isEmpty then .ok (r, pool, s)
    else do
      let count := r.wanted data
      let (r, pool, outputs) ← r.take pool (data.take count)
      let (s, pool) ← deliverAll deliver s pool outputs
      pushRuns deliver n r pool s (data.drop count)

/-- Takes bytes, and passes on what they put out. A run has at least one byte, so there are no more
runs than bytes. -/
def push {σ : Type} (r : Receiver) (pool : Pool)
    (deliver : σ → Pool → Output → Except Fault (σ × Pool)) (s : σ) (data : Bytes) :
    Except Fault (Receiver × Pool × σ) :=
  pushRuns deliver data.length r pool s data

/-- Whether the input stops within a blob. -/
def isCut (r : Receiver) : Bool :=
  match r.phase with
  | .header received => !received.isEmpty
  | .payload _ _ _ => true
  | .discard => false

/-- Ends a transaction. If that cuts a blob, its packet is dropped and the answer holds the error.
-/
def transactionEnd (r : Receiver) (pool : Pool) : Option LinkError × Receiver × Pool :=
  if r.isCut then
    let (r, pool) := r.reset pool
    (some .channelAborted, r, pool)
  else (none, { r with phase := .idle }, pool)

end Receiver

end DockLink
