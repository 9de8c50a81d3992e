import DockLink.Wire.Channel
import DockLink.Transfer.Segments
import DockLink.Transfer.Reassembly

/-!
# Framers

A framer sends packets as blobs over a byte channel, and puts the packets of the incoming blobs
together. Packets wait in a bounded queue; one at a time is on the channel, blob after blob through
one block. While the framer is closed nothing is accepted or received, and closing it fails every
packet that is not through yet. What it tells the channel is kept as a list of orders until it is
taken.
-/

namespace DockLink

namespace Framer

structure Config where
  /-- The largest payload of a blob. -/
  maxPayload : Nat := 512
  /-- The largest packet, without its content type. -/
  maxPacket : Nat := 2048
  /-- Whether a packet begins with its content type on the wire. -/
  tagged : Bool := false
deriving DecidableEq, Repr

namespace Config

def contentTypeLength : Nat := 2

/-- The bytes in front of a packet on the wire. -/
def tagLength (c : Config) : Nat := if c.tagged then contentTypeLength else 0

/-- The largest packet on the wire. -/
def maxStream (c : Config) : Nat := c.maxPacket + c.tagLength

/-- The demands on a configuration: a blob must be expressible and fit the pool, the largest packet
must have a size, and its blobs must fit the chunks of a packet. -/
def check (c : Config) (pool : Pool) : Except Fault Unit :=
  if c.maxPayload = 0 ∨ c.maxPayload > Header.maxPayload then .error .payloadLimitOutOfRange
  else if pool.maxBlockSize < Header.overhead + c.maxPayload then .error .blobExceedsPool
  else if c.maxStream > maxSize then .error .sizeOverflow
  else if ceilDiv c.maxStream c.maxPayload > Packet.maxChunks then .error .tooManyBlobs
  else .ok ()

end Config

/-- A packet that was accepted for sending. -/
structure Outgoing where
  ticket : Ticket
  packet : Packet
deriving DecidableEq, Repr

inductive Transmission where
  | idle
  /-- A blob of `expected` bytes, and what of its packet is left. -/
  | sending (outgoing : Outgoing) (segments : Segments) (expected : Nat)
  /-- A blob whose packet was given up. The channel still owes its block. -/
  | cancelled
deriving DecidableEq, Repr

end Framer

open Framer

/-- A packet link over a byte channel, with queues of at most `queueDepth` packets and `eventDepth`
events. -/
structure Framer (queueDepth eventDepth : Nat) where
  config : Framer.Config
  pool : Pool
  enabled : Bool := false
  nextTicket : Ticket := ⟨0⟩
  queue : BoundedQueue Outgoing queueDepth := BoundedQueue.empty
  transmission : Transmission := .idle
  receiver : Receiver
  reporter : Reporter eventDepth := {}
  /-- The orders since they were last taken, newest first. -/
  orders : List Order := []

namespace Framer

variable {queueDepth eventDepth : Nat}

def ofConfig (config : Config) (pool : Pool) : Except Fault (Framer queueDepth eventDepth) :=
  (config.check pool).map fun _ =>
    { config, pool, receiver := { maxPayload := config.maxPayload, maxLength := config.maxStream } }

/-- The number of packets that are queued or on the channel. -/
def pending (f : Framer queueDepth eventDepth) : Nat :=
  f.queue.length + match f.transmission with
    | .sending _ _ _ => 1
    | _ => 0

def rxState (f : Framer queueDepth eventDepth) : RxState := f.receiver.state

def statistics (f : Framer queueDepth eventDepth) : Statistics := f.reporter.statistics

def order (f : Framer queueDepth eventDepth) (o : Order) : Framer queueDepth eventDepth :=
  { f with orders := o :: f.orders }

/-- The orders since they were last taken, oldest first. -/
def takeOrders (f : Framer queueDepth eventDepth) : List Order × Framer queueDepth eventDepth :=
  (f.orders.reverse, { f with orders := [] })

def count (f : Framer queueDepth eventDepth) (g : Statistics → Statistics) :
    Framer queueDepth eventDepth :=
  { f with reporter := f.reporter.count g }

def releaseBlock (f : Framer queueDepth eventDepth) (block : Block) :
    Framer queueDepth eventDepth :=
  { f with pool := f.pool.release block }

def releasePacket (f : Framer queueDepth eventDepth) (packet : Packet) :
    Framer queueDepth eventDepth :=
  { f with pool := packet.release f.pool }

def emit (f : Framer queueDepth eventDepth) (event : LinkEvent) : Framer queueDepth eventDepth :=
  let (reporter, pool) := f.reporter.emit f.pool event
  { f with reporter, pool }

/-- Gives up a packet: reports the failure and gives the packet back. -/
def giveUp (f : Framer queueDepth eventDepth) (outgoing : Outgoing) (error : LinkError) :
    Framer queueDepth eventDepth :=
  let (reporter, pool) := f.reporter.sendFailed f.pool outgoing.ticket error
  { f with reporter, pool }.releasePacket outgoing.packet

/-- Forgets the events that were reported so far. -/
def forgetRecord (f : Framer queueDepth eventDepth) : Framer queueDepth eventDepth :=
  { f with reporter := { f.reporter with record := [] } }

/-- Takes the next event out of the queue. Its packet goes to the caller. -/
def popEvent? (f : Framer queueDepth eventDepth) :
    Option (LinkEvent × Framer queueDepth eventDepth) :=
  f.reporter.events.pop?.map fun (event, events) =>
    (event, { f with reporter := { f.reporter with events } })

/-! ## Sending -/

/-- Puts the first blob of a packet on the channel, if there is a block for it. -/
def start (f : Framer queueDepth eventDepth) (outgoing : Outgoing) :
    Except Fault (Framer queueDepth eventDepth) :=
  let segments : Segments :=
    { length := outgoing.packet.length, maxPayload := f.config.maxPayload }
  match f.pool.allocate segments.maxBlobLength with
  | .error _ =>
    .ok ((f.count fun s => { s with allocationFailures := s.allocationFailures + 1 }).giveUp
      outgoing .outOfMemory)
  | .ok (block, pool) => do
    match ← segments.next pool outgoing.packet block with
    | (some (length, segments), pool) =>
      return { f with pool, transmission := .sending outgoing segments length }.order
        (.write { block, offset := 0, length })
    | (none, _) => throw .outOfRange

/-- Starts queued packets until one is on the channel, at most `n` of them. -/
def startUpTo : Nat → Framer queueDepth eventDepth → Except Fault (Framer queueDepth eventDepth)
  | 0, f => .ok f
  | n + 1, f =>
    match f.transmission, f.queue.pop? with
    | .idle, some (outgoing, queue) => do startUpTo n (← { f with queue }.start outgoing)
    | _, _ => .ok f

def startNext (f : Framer queueDepth eventDepth) : Except Fault (Framer queueDepth eventDepth) :=
  startUpTo f.queue.length f

/-- Puts the content type in front of a packet. The answer is the error with which a packet is
rejected, or the packet on the wire. -/
def tag (config : Config) (pool : Pool) (contentType : ContentType) (packet : Packet) :
    Except Fault (Except SendError Packet × Pool) :=
  if config.tagLength = 0 then .ok (.ok packet, pool)
  else
    match pool.allocate config.tagLength with
    | .error _ => .ok (.error .outOfMemory, pool)
    | .ok (block, pool) => do
      let pool ← pool.write block 0 (Bytes.ofWord16 contentType.code)
      let chunk ← Chunk.of pool block 0 config.tagLength
      match packet.pushFront pool chunk with
      | .error chunk => return (.error .tooLong, pool.release chunk.block)
      | .ok (packet, pool) => return (.ok packet, pool)

/-- Gives a packet back without the content type that it carries. -/
def turnBack (f : Framer queueDepth eventDepth) (error : SendError) (packet : Packet) :
    Except Fault (Except (SendError × Packet) Ticket × Framer queueDepth eventDepth) := do
  let (packet, pool) ← packet.advance f.pool f.config.tagLength
  return (.error (error, packet), { f with pool })

/-- Queues a packet that carries its content type. The framer may have been closed since the packet
got it. -/
def enqueue (f : Framer queueDepth eventDepth) (packet : Packet) :
    Except Fault (Except (SendError × Packet) Ticket × Framer queueDepth eventDepth) :=
  let ticket := f.nextTicket
  if !f.enabled then f.turnBack .disconnected packet
  else
    match f.queue.push { ticket, packet } with
    | .error outgoing => f.turnBack .queueFull outgoing.packet
    | .ok queue => do
      let f ← { f with queue, nextTicket := ⟨ticket.number + 1⟩ }.startNext
      return (.ok ticket, f)

/-- Accepts a packet for sending, or gives it back with the reason. An accepted packet has exactly
one outcome, reported under its ticket. -/
def send (f : Framer queueDepth eventDepth) (contentType : ContentType) (packet : Packet) :
    Except Fault (Except (SendError × Packet) Ticket × Framer queueDepth eventDepth) := do
  if packet.length > f.config.maxPacket then return (.error (.tooLong, packet), f)
  if !f.enabled then return (.error (.disconnected, packet), f)
  match ← tag f.config f.pool contentType packet with
  | (.error e, pool) => return (.error (e, packet), { f with pool })
  | (.ok tagged, pool) => enqueue { f with pool } tagged

/-- Takes a block back that was lent to the channel, and starts the next packet. -/
def takeBack (f : Framer queueDepth eventDepth) (block : Block) :
    Framer queueDepth eventDepth × Option Fault :=
  let f := f.releaseBlock block
  match f.startNext with
  | .ok f => (f, none)
  | .error fault => (f, some fault)

/-- Goes on with a packet when one of its blobs is through: puts the next one on the channel, or
reports the packet as sent. -/
def proceed (f : Framer queueDepth eventDepth) (outgoing : Outgoing) (segments : Segments)
    (block : Block) : Framer queueDepth eventDepth × Option Fault :=
  let f := f.count fun s => { s with blobsSent := s.blobsSent + 1 }
  match segments.next f.pool outgoing.packet block with
  | .error fault => ((f.releasePacket outgoing.packet).releaseBlock block, some fault)
  | .ok (some (length, segments), pool) =>
    ({ f with pool, transmission := .sending outgoing segments length }.order
      (.write { block, offset := 0, length }), none)
  | .ok (none, pool) =>
    let f := { f with pool }.count fun s => { s with packetsSent := s.packetsSent + 1 }
    ((f.emit (.sent outgoing.ticket)).releasePacket outgoing.packet).takeBack block

/-- The channel gives the block of its oldest write back. -/
def writeComplete (f : Framer queueDepth eventDepth) (block : Block) (result : WriteResult) :
    Framer queueDepth eventDepth × Option Fault :=
  let idle := { f with transmission := .idle }
  match f.transmission with
  | .sending outgoing segments expected =>
    if result = .written expected then idle.proceed outgoing segments block
    else
      let idle := idle.count fun s => { s with aborts := s.aborts + 1 }
      (idle.giveUp outgoing .channelAborted).takeBack block
  | _ => idle.takeBack block

/-! ## Receiving -/

/-- Takes the content type off a packet. The answer is none if the packet is too short for one. -/
def untag (config : Config) (pool : Pool) (packet : Packet) :
    Except Fault (Option (ContentType × Packet) × Pool) :=
  if !config.tagged then .ok (some ({}, packet), pool)
  else if packet.length < Config.contentTypeLength then .ok (none, packet.release pool)
  else do
    let code ← (packet.copy pool 0 Config.contentTypeLength).get16 0
    let (packet, pool) ← packet.advance pool Config.contentTypeLength
    return (some (⟨code⟩, packet), pool)

def deliver (config : Config) (reporter : Reporter eventDepth) (pool : Pool) :
    Reassembly.Output → Except Fault (Reporter eventDepth × Pool)
  | .blob =>
    let reporter := reporter.count fun s => { s with blobsReceived := s.blobsReceived + 1 }
    .ok ({ reporter with faults := 0 }, pool)
  | .fault error => .ok (reporter.receiveFailed pool error)
  | .packet packet => do
    match ← untag config pool packet with
    | (none, pool) => return reporter.receiveFailed pool .lengthOutOfRange
    | (some (contentType, packet), pool) =>
      return (reporter.count fun s => { s with packetsReceived := s.packetsReceived + 1 }).emit pool
        (.received contentType packet)

def received (f : Framer queueDepth eventDepth) (data : Bytes) :
    Except Fault (Framer queueDepth eventDepth) :=
  if f.enabled then do
    let (receiver, pool, reporter) ← f.receiver.push f.pool (deliver f.config) f.reporter data
    return { f with receiver, pool, reporter }
  else .ok f

def transactionEnd (f : Framer queueDepth eventDepth) : Framer queueDepth eventDepth :=
  let (error, receiver, pool) := f.receiver.transactionEnd f.pool
  match error with
  | some error =>
    if f.enabled then
      let (reporter, pool) := f.reporter.receiveFailed pool error
      { f with receiver, pool, reporter }
    else { f with receiver, pool }
  | none => { f with receiver, pool }

/-! ## Opening and closing -/

/-- Drops what was received in part. -/
def resetReceiver (f : Framer queueDepth eventDepth) : Framer queueDepth eventDepth :=
  let (receiver, pool) := f.receiver.reset f.pool
  { f with receiver, pool }

def enable (f : Framer queueDepth eventDepth) : Framer queueDepth eventDepth :=
  if f.enabled then f
  else
    let f := f.resetReceiver
    { f with reporter := { f.reporter with faults := 0 }, enabled := true }.order .enable

def cancel (f : Framer queueDepth eventDepth) : Framer queueDepth eventDepth :=
  match f.transmission with
  | .sending outgoing _ _ => { f with transmission := .cancelled }.giveUp outgoing .disconnected
  | _ => f

/-- Gives up queued packets, at most `n` of them. -/
def flushUpTo : Nat → Framer queueDepth eventDepth → Framer queueDepth eventDepth
  | 0, f => f
  | n + 1, f =>
    match f.queue.pop? with
    | none => f
    | some (outgoing, queue) => flushUpTo n ({ f with queue }.giveUp outgoing .disconnected)

def flush (f : Framer queueDepth eventDepth) : Framer queueDepth eventDepth :=
  flushUpTo f.queue.length f

def disable (f : Framer queueDepth eventDepth) : Framer queueDepth eventDepth :=
  if f.enabled then
    let f := (({ f with enabled := false }.order .abortRx).order .abortTx).order .disable
    f.resetReceiver.cancel.flush
  else f

end Framer

end DockLink
