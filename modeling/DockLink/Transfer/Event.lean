import DockLink.BoundedQueue
import DockLink.Memory.Packet

/-!
# Events of a packet link

A packet link reports each packet it receives, the outcome of each packet it accepted for sending,
and each receive fault. The events go into a bounded queue, and counters keep account of them. An
event that meets a full queue is dropped, its packet given back.
-/

namespace DockLink

/-- What the application says a packet holds. -/
structure ContentType where
  code : UInt16 := 0
deriving DecidableEq, Repr, Inhabited

/-- The number under which a packet was accepted for sending. -/
structure Ticket where
  number : UInt16
deriving DecidableEq, Repr

inductive LinkError where
  | outOfMemory
  | crcMismatch
  | lengthOutOfRange
  /-- The channel cut a blob, or did not write all of it. -/
  | channelAborted
  | disconnected
deriving DecidableEq, Repr

def LinkError.name : LinkError → String
  | .outOfMemory => "OutOfMemory"
  | .crcMismatch => "CrcMismatch"
  | .lengthOutOfRange => "LengthOutOfRange"
  | .channelAborted => "ChannelAborted"
  | .disconnected => "Disconnected"

/-- Why a packet was not accepted for sending. -/
inductive SendError where
  | disconnected
  | tooLong
  | queueFull
  | outOfMemory
deriving DecidableEq, Repr

def SendError.name : SendError → String
  | .disconnected => "Disconnected"
  | .tooLong => "TooLong"
  | .queueFull => "QueueFull"
  | .outOfMemory => "OutOfMemory"

inductive LinkEvent where
  | received (contentType : ContentType) (packet : Packet)
  | sent (ticket : Ticket)
  | sendFailed (ticket : Ticket) (error : LinkError)
  /-- `consecutive` counts the receive faults since the last good blob. -/
  | receiveFailed (error : LinkError) (consecutive : UInt8)
deriving DecidableEq, Repr

/-- Counters of thirty-two bits. -/
structure Statistics where
  blobsSent : UInt32 := 0
  blobsReceived : UInt32 := 0
  packetsSent : UInt32 := 0
  packetsReceived : UInt32 := 0
  sendFailures : UInt32 := 0
  crcErrors : UInt32 := 0
  lengthErrors : UInt32 := 0
  allocationFailures : UInt32 := 0
  aborts : UInt32 := 0
  droppedEvents : UInt32 := 0
deriving DecidableEq, Repr

def Statistics.countReceiveFault (s : Statistics) : LinkError → Statistics
  | .crcMismatch => { s with crcErrors := s.crcErrors + 1 }
  | .lengthOutOfRange => { s with lengthErrors := s.lengthErrors + 1 }
  | .outOfMemory => { s with allocationFailures := s.allocationFailures + 1 }
  | .channelAborted => { s with aborts := s.aborts + 1 }
  | .disconnected => { s with aborts := s.aborts + 1 }

/-- One more, unless the counter is full. -/
def saturatingSucc (n : UInt8) : UInt8 := if n = 255 then n else n + 1

/-- The way of events to the application, with a queue of at most `depth` events. -/
structure Reporter (depth : Nat) where
  events : BoundedQueue LinkEvent depth := BoundedQueue.empty
  statistics : Statistics := {}
  /-- The receive faults since the last good blob or since the link was opened, at most 255. -/
  faults : UInt8 := 0
  /-- Every event since the record was last taken, newest first, the dropped ones included. -/
  record : List LinkEvent := []

namespace Reporter

variable {depth : Nat}

def count (r : Reporter depth) (f : Statistics → Statistics) : Reporter depth :=
  { r with statistics := f r.statistics }

def emit (r : Reporter depth) (pool : Pool) (event : LinkEvent) : Reporter depth × Pool :=
  let r := { r with record := event :: r.record }
  match r.events.push event with
  | .ok events => ({ r with events }, pool)
  | .error _ =>
    (r.count fun s => { s with droppedEvents := s.droppedEvents + 1 },
      match event with
      | .received _ packet => packet.release pool
      | _ => pool)

def sendFailed (r : Reporter depth) (pool : Pool) (ticket : Ticket) (error : LinkError) :
    Reporter depth × Pool :=
  (r.count fun s => { s with sendFailures := s.sendFailures + 1 }).emit pool
    (.sendFailed ticket error)

def receiveFailed (r : Reporter depth) (pool : Pool) (error : LinkError) : Reporter depth × Pool :=
  let faults := saturatingSucc r.faults
  { r.count (·.countReceiveFault error) with faults }.emit pool (.receiveFailed error faults)

end Reporter

end DockLink
