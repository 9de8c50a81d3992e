import DockLink.Control.Command
import DockLink.Control.Layout

/-!
# Decoding commands

A transaction carries one command: its code, its arguments, and for `sendBlob` an envelope and a
blob. The bytes may be cut anywhere. Each transaction has at most one result, and what comes after
it is ignored until the transaction ends.
-/

namespace DockLink

inductive Request where
  | version
  | status (request : StatusRequest)
  | interrupt (request : InterruptRequest)
  | receiveBlob
  | sendBlob (contentType : ContentType) (packet : Packet)
deriving DecidableEq, Repr

def Request.command : Request → Command
  | .version => .version
  | .status _ => .status
  | .interrupt _ => .interrupt
  | .receiveBlob => .receiveBlob
  | .sendBlob _ _ => .sendBlob

/-- Why a transaction is no request. -/
inductive CommandError where
  /-- No command has this code. -/
  | unknown (code : UInt8)
  /-- The transaction ended within the command. -/
  | truncated (command : Command)
  /-- The envelope announces more than the limit. -/
  | blobTooLong
  | outOfMemory
deriving DecidableEq, Repr

/-- The result of a transaction. -/
abbrev Received := Except CommandError Request

def Received.release (pool : Pool) : Received → Pool
  | .ok (.sendBlob _ packet) => packet.release pool
  | _ => pool

namespace Decoder

/-- How far a transaction is decoded. -/
inductive Phase where
  | code
  /-- The arguments of a command so far. -/
  | arguments (command : Command) (received : Bytes)
  /-- The envelope so far. -/
  | envelope (received : Bytes)
  /-- The block of a blob. `transferred` counts the envelope too. -/
  | payload (envelope : Envelope) (block : Block) (transferred : Nat)
  /-- The result is there, and the rest is ignored. -/
  | done
deriving DecidableEq, Repr

end Decoder

/-- A decoder of transactions with blobs of at most `blobLimit` bytes. -/
structure Decoder where
  blobLimit : Nat
  phase : Decoder.Phase := .code
deriving DecidableEq, Repr

namespace Decoder

/-- The decoder with its memory and the result of a step, if it has one. -/
abbrev Outcome := Except Fault (Decoder × Pool × Option Received)

def finish (d : Decoder) (pool : Pool) (result : Received) : Decoder × Pool × Option Received :=
  ({ d with phase := .done }, pool, some result)

def takeCode (d : Decoder) (pool : Pool) (code : UInt8) : Decoder × Pool × Option Received :=
  match Command.ofCode? code with
  | none => d.finish pool (.error (.unknown code))
  | some .version => d.finish pool (.ok .version)
  | some .receiveBlob => d.finish pool (.ok .receiveBlob)
  | some .sendBlob => ({ d with phase := .envelope [] }, pool, none)
  | some command => ({ d with phase := .arguments command [] }, pool, none)

def requestOf (command : Command) (arguments : Bytes) : Except Fault Request :=
  match command with
  | .status => (StatusRequest.ofBytes arguments).map .status
  | .interrupt => (InterruptRequest.ofBytes arguments).map .interrupt
  | _ => .error .outOfRange

def takeArguments (d : Decoder) (pool : Pool) (command : Command) (received : Bytes) : Outcome :=
  if received.length = command.argumentLength then do
    let request ← requestOf command received
    return d.finish pool (.ok request)
  else .ok ({ d with phase := .arguments command received }, pool, none)

def startPayload (d : Decoder) (pool : Pool) (envelope : Envelope) :
    Decoder × Pool × Option Received :=
  if envelope.length.toNat > d.blobLimit then d.finish pool (.error .blobTooLong)
  else if envelope.length = 0 then d.finish pool (.ok (.sendBlob envelope.contentType .empty))
  else
    match pool.allocate envelope.length.toNat with
    | .error _ => d.finish pool (.error .outOfMemory)
    | .ok (block, pool) =>
      ({ d with phase := .payload envelope block Envelope.byteLength }, pool, none)

def takeEnvelope (d : Decoder) (pool : Pool) (received : Bytes) : Outcome :=
  if received.length = Envelope.byteLength then do
    let envelope ← Envelope.ofBytes received
    return d.startPayload pool envelope
  else .ok ({ d with phase := .envelope received }, pool, none)

def takePayload (d : Decoder) (pool : Pool) (envelope : Envelope) (block : Block)
    (transferred : Nat) (data : Bytes) : Outcome := do
  let pool ← pool.write block (transferred - Envelope.byteLength) data
  let transferred := transferred + data.length
  if envelope.isComplete transferred then
    let chunk ← Chunk.of pool block 0 envelope.length.toNat
    let (packet, pool) := Packet.ofChunk pool chunk
    return d.finish pool (.ok (.sendBlob envelope.contentType packet))
  else return ({ d with phase := .payload envelope block transferred }, pool, none)

/-- The number of bytes that the decoder can use before it has to look again. -/
def wanted (d : Decoder) : Nat :=
  match d.phase with
  | .code => 1
  | .arguments command received => command.argumentLength - received.length
  | .envelope received => Envelope.byteLength - received.length
  | .payload envelope _ transferred => Envelope.byteLength + envelope.length.toNat - transferred
  | .done => 0

/-- Takes a run of bytes, at most as many as are wanted. -/
def take (d : Decoder) (pool : Pool) (run : Bytes) : Outcome :=
  match d.phase, run with
  | .code, b :: _ => .ok (d.takeCode pool b)
  | .arguments command received, run => d.takeArguments pool command (received ++ run)
  | .envelope received, run => d.takeEnvelope pool (received ++ run)
  | .payload envelope block transferred, run => d.takePayload pool envelope block transferred run
  | _, _ => .ok (d, pool, none)

/-- Takes bytes run by run, at most `n` runs of them, until there is a result. -/
def pushRuns : Nat → Decoder → Pool → Bytes → Outcome
  | 0, d, pool, _ => .ok (d, pool, none)
  | n + 1, d, pool, data =>
    if data.isEmpty ∨ d.phase = .done then .ok (d, pool, none)
    else do
      match ← d.take pool (data.take d.wanted) with
      | (d, pool, some result) => return (d, pool, some result)
      | (d', pool, none) => pushRuns n d' pool (data.drop d.wanted)

/-- Takes bytes. A run has at least one byte, so there are no more runs than bytes. -/
def push (d : Decoder) (pool : Pool) (data : Bytes) : Outcome := pushRuns data.length d pool data

/-- The command that the input stops within. -/
def cut? (d : Decoder) : Option Command :=
  match d.phase with
  | .code => none
  | .arguments command _ => some command
  | .envelope _ => some .sendBlob
  | .payload _ _ _ => some .sendBlob
  | .done => none

def releaseBlob (d : Decoder) (pool : Pool) : Pool :=
  match d.phase with
  | .payload _ block _ => pool.release block
  | _ => pool

/-- Ends a transaction. If that cuts a command, the answer holds the error. -/
def transactionEnd (d : Decoder) (pool : Pool) : Option CommandError × Decoder × Pool :=
  (d.cut?.map .truncated, { d with phase := .code }, d.releaseBlob pool)

end Decoder

end DockLink
