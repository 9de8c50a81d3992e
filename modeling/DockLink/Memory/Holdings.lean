import DockLink.Memory.Packet

/-!
# Handles of an application

An application holds blocks and packets of a pool under numbers, in the order in which it asked for
them. A number is used up by each request, also by one that fails.
-/

namespace DockLink

inductive Holding where
  | nothing
  | block (block : Block)
  | packet (packet : Packet)
deriving DecidableEq, Repr

/-- Why an operation on holdings did nothing, or not what was asked. -/
inductive Refusal where
  /-- Nothing of the required kind is held under the number. -/
  | noHandle
  | alloc (error : AllocError)
  | fault (fault : Fault)
deriving DecidableEq, Repr

/-- A pool and what an application holds of it. -/
structure Holdings where
  pool : Pool
  table : Array Holding := #[]
deriving Repr

/-- The bytes `start` up to `stop` of the block under a number, through its own handle or through
another one. -/
structure ChunkRequest where
  block : Nat
  start : Nat
  stop : Nat
  clone : Bool
deriving DecidableEq, Repr

namespace Holdings

def get (h : Holdings) (id : Nat) : Holding := h.table.getD id .nothing

def set (h : Holdings) (id : Nat) (x : Holding) : Holdings :=
  { h with table := h.table.setIfInBounds id x }

def block? (h : Holdings) (id : Nat) : Except Refusal Block :=
  match h.get id with
  | .block b => .ok b
  | _ => .error .noHandle

def packet? (h : Holdings) (id : Nat) : Except Refusal Packet :=
  match h.get id with
  | .packet p => .ok p
  | _ => .error .noHandle

/-- Takes the next number for what a request got. -/
def record (h : Holdings) (x : Holding) : Nat × Holdings :=
  (h.table.size, { h with table := h.table.push x })

/-- Takes the next number for a request that got nothing. -/
def recordNothing (h : Holdings) : Holdings := (h.record .nothing).2

def allocate (h : Holdings) (size : Nat) : Except Refusal (Nat × Block) × Holdings :=
  match h.pool.allocate size with
  | .error e => (.error (.alloc e), h.recordNothing)
  | .ok (block, pool) =>
    let (id, h) := { h with pool }.record (.block block)
    (.ok (id, block), h)

/-- Asks for a second handle to a block, or for a second packet over the same bytes. -/
def duplicate (h : Holdings) (id : Nat) : Except Refusal Nat × Holdings :=
  match h.get id with
  | .nothing => (.error .noHandle, h.recordNothing)
  | .block b =>
    match h.pool.retain b with
    | .error fault => (.error (.fault fault), h.recordNothing)
    | .ok pool =>
      let (id, h) := { h with pool }.record (.block b)
      (.ok id, h)
  | .packet p =>
    match p.duplicate h.pool with
    | (.error fault, pool) => (.error (.fault fault), { h with pool }.recordNothing)
    | (.ok p, pool) =>
      let (id, h) := { h with pool }.record (.packet p)
      (.ok id, h)

/-- Gives back what is held under a number, if anything is. -/
def drop (h : Holdings) (id : Nat) : Holdings :=
  match h.get id with
  | .nothing => h
  | .block b => { h with pool := h.pool.release b }.set id .nothing
  | .packet p => { h with pool := p.release h.pool }.set id .nothing

def write (h : Holdings) (id offset : Nat) (data : Bytes) : Except Refusal Holdings := do
  let b ← h.block? id
  match h.pool.write b offset data with
  | .error fault => throw (.fault fault)
  | .ok pool => return { h with pool }

/-- Makes a chunk. A block's own handle leaves the table for it, and is given back if the range is a
bad one. -/
def chunk (h : Holdings) (request : ChunkRequest) : Except Refusal Chunk × Holdings :=
  match h.block? request.block with
  | .error e => (.error e, h)
  | .ok b =>
    let handle :=
      if request.clone then (h.pool.retain b).map fun pool => { h with pool }
      else .ok (h.set request.block .nothing)
    match handle with
    | .error fault => (.error (.fault fault), h)
    | .ok h =>
      match Chunk.of h.pool b request.start request.stop with
      | .error fault => (.error (.fault fault), { h with pool := h.pool.release b })
      | .ok c => (.ok c, h)

def releaseChunk (h : Holdings) (c : Chunk) : Holdings := { h with pool := h.pool.release c.block }

def newPacket (h : Holdings) : Nat × Holdings := h.record (.packet .empty)

def packetOfChunk (h : Holdings) (request : ChunkRequest) : Except Refusal Nat × Holdings :=
  match h.chunk request with
  | (.error e, h) => (.error e, h.recordNothing)
  | (.ok c, h) =>
    let (packet, pool) := Packet.ofChunk h.pool c
    let (id, h) := { h with pool }.record (.packet packet)
    (.ok id, h)

def packetOfBytes (h : Holdings) (data : Bytes) : Except Refusal Nat × Holdings :=
  match Packet.ofBytes h.pool data with
  | .error fault => (.error (.fault fault), h.recordNothing)
  | .ok (.error e, pool) => (.error (.alloc e), { h with pool }.recordNothing)
  | .ok (.ok packet, pool) =>
    let (id, h) := { h with pool }.record (.packet packet)
    (.ok id, h)

/-- Adds a chunk to a packet, by `add`. A chunk without room is given back, and the answer holds its
bytes. -/
def addChunk (add : Pool → Packet → Chunk → Except Chunk (Packet × Pool)) (h : Holdings)
    (id : Nat) (request : ChunkRequest) : Except Refusal (Option Bytes) × Holdings :=
  match h.packet? id with
  | .error e => (.error e, h)
  | .ok packet =>
    match h.chunk request with
    | (.error e, h) => (.error e, h)
    | (.ok c, h) =>
      match add h.pool packet c with
      | .ok (packet, pool) => (.ok none, { h with pool }.set id (.packet packet))
      | .error c => (.ok (some (c.bytes h.pool)), h.releaseChunk c)

def push (h : Holdings) (id : Nat) (request : ChunkRequest) :
    Except Refusal (Option Bytes) × Holdings :=
  h.addChunk Packet.push id request

def pushFront (h : Holdings) (id : Nat) (request : ChunkRequest) :
    Except Refusal (Option Bytes) × Holdings :=
  h.addChunk Packet.pushFront id request

def advance (h : Holdings) (id count : Nat) : Except Refusal Holdings := do
  let packet ← h.packet? id
  match packet.advance h.pool count with
  | .error fault => throw (.fault fault)
  | .ok (packet, pool) => return { h with pool }.set id (.packet packet)

end Holdings

end DockLink
