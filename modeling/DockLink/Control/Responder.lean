import DockLink.BoundedQueue
import DockLink.Wire.Channel
import DockLink.Control.Decoder

/-!
# Responders

A responder decodes the controller's transactions into a bounded queue of requests, and writes the
responses. A response that is not through when its transaction ends is cancelled.
-/

namespace DockLink

/-- A responder with a queue of at most `depth` requests. -/
structure Responder (depth : Nat) where
  pool : Pool
  decoder : Decoder
  requests : BoundedQueue Received depth := BoundedQueue.empty
  /-- The responses that the channel has not given back. -/
  responses : Nat := 0
  /-- The number of requests that met a full queue, in thirty-two bits. -/
  droppedRequests : UInt32 := 0
  /-- The orders since they were last taken, newest first. -/
  orders : List Order := []

namespace Responder

/-- How a response went. -/
inductive Answer where
  | sent
  | refused (error : AllocError)
  | faulted (fault : Fault)
deriving DecidableEq, Repr

variable {depth : Nat}

def maxEnvelopeLength : Nat := 65535

/-- A responder for blobs of at most `blobLimit` bytes. An envelope must be able to announce them,
and the pool to hold them behind their envelope. -/
def ofPool (pool : Pool) (blobLimit : Nat) : Except Fault (Responder depth) :=
  let answerLength := Envelope.byteLength + blobLimit
  if answerLength > maxSize then .error .sizeOverflow
  else if answerLength > pool.maxBlockSize then .error .blobExceedsPool
  else if blobLimit > maxEnvelopeLength then .error .limitExceedsEnvelope
  else .ok { pool, decoder := { blobLimit } }

def order (r : Responder depth) (o : Order) : Responder depth :=
  { r with orders := o :: r.orders }

/-- The orders since they were last taken, oldest first. -/
def takeOrders (r : Responder depth) : List Order × Responder depth :=
  (r.orders.reverse, { r with orders := [] })

/-- Queues a result, or drops it and gives its packet back. -/
def post (r : Responder depth) (result : Received) : Responder depth :=
  match r.requests.push result with
  | .ok requests => { r with requests }
  | .error result =>
    { r with droppedRequests := r.droppedRequests + 1, pool := result.release r.pool }

/-- Takes the next result out of the queue. Its packet goes to the caller. -/
def popRequest? (r : Responder depth) : Option (Received × Responder depth) :=
  r.requests.pop?.map fun (result, requests) => (result, { r with requests })

def enable (r : Responder depth) : Responder depth := r.order .enable

/-- Closes the channel. A command that this cuts is not reported. -/
def disable (r : Responder depth) : Responder depth :=
  let r := ((r.order .abortRx).order .abortTx).order .disable
  let (_, decoder, pool) := r.decoder.transactionEnd r.pool
  { r with decoder, pool }

def received (r : Responder depth) (data : Bytes) : Except Fault (Responder depth) := do
  let (decoder, pool, result) ← r.decoder.push r.pool data
  let r := { r with decoder, pool }
  return result.elim r r.post

def transactionEnd (r : Responder depth) : Responder depth :=
  let r := if r.responses > 0 then r.order .abortTx else r
  let (error, decoder, pool) := r.decoder.transactionEnd r.pool
  let r := { r with decoder, pool }
  error.elim r fun e => r.post (.error e)

/-- The channel gives the block of its oldest write back. -/
def writeComplete (r : Responder depth) (block : Block) : Responder depth :=
  { r with responses := r.responses - 1, pool := r.pool.release block }

/-- Fills a block and puts it on the channel. -/
def write (r : Responder depth) (block : Block) (length : Nat) : Responder depth :=
  { r with responses := r.responses + 1 }.order (.write { block, offset := 0, length })

/-- Writes a response of `length` bytes, which `fill` makes of the old bytes of a block. -/
def respond (r : Responder depth) (length : Nat) (fill : Bytes → Except Fault Bytes) :
    Responder depth × Answer :=
  match r.pool.allocate length with
  | .error e => (r, .refused e)
  | .ok (block, pool) =>
    match fill (pool.read block 0 length) >>= pool.write block 0 with
    | .ok pool => ({ r with pool }.write block length, .sent)
    | .error fault => ({ r with pool := pool.release block }, .faulted fault)

/-- Writes bytes that are known beforehand. -/
def respondBytes (r : Responder depth) (bytes : Bytes) : Responder depth × Answer :=
  r.respond bytes.length fun old => old.put 0 bytes

/-- The bytes of an envelope and its blob, over the old bytes of a block. -/
def fillBlob (pool : Pool) (envelope : Envelope) (packet : Packet) (old : Bytes) :
    Except Fault Bytes := do
  let filled ← old.put 0 envelope.toBytes
  let (_, blob) := packet.copyTo pool 0 (filled.drop Envelope.byteLength)
  return filled.take Envelope.byteLength ++ blob

/-- Answers with the next blob, or with an empty envelope if none waits. -/
def respondBlob (r : Responder depth) :
    Option (ContentType × Packet) → Responder depth × Answer
  | some (contentType, packet) =>
    if packet.length > r.decoder.blobLimit then (r, .refused .tooLarge)
    else
      let envelope : Envelope := { contentType, length := UInt16.ofNat packet.length }
      r.respond (Envelope.byteLength + envelope.length.toNat) (fillBlob r.pool envelope packet)
  | none => r.respondBytes Envelope.empty.toBytes

end Responder

end DockLink
