import DockLink.Memory.Pool

/-!
# Packets

A packet is a chain of byte ranges of pool blocks. It can grow at both ends and lose bytes at its
front without copying any, and it owns one handle per chunk.
-/

namespace DockLink

def ceilDiv (a b : Nat) : Nat := (a + b - 1) / b

/-- The bytes of a block from `start` up to `stop`, `stop` not included. -/
structure Chunk where
  block : Block
  start : Nat
  stop : Nat
deriving DecidableEq, Repr

namespace Chunk

/-- A range that lies within its block. -/
def of (pool : Pool) (block : Block) (start stop : Nat) : Except Fault Chunk :=
  if start ≤ stop ∧ stop ≤ pool.capacity block then .ok ⟨block, start, stop⟩
  else .error .rangeExceedsBlock

def length (c : Chunk) : Nat := c.stop - c.start

def bytes (pool : Pool) (c : Chunk) : Bytes := pool.read c.block c.start c.stop

/-- The part of a chunk after its first `skip` bytes, at most `room` bytes of it. -/
def part (pool : Pool) (c : Chunk) (skip room : Nat) : Bytes :=
  pool.read c.block (c.start + skip) (min c.stop (c.start + skip + room))

end Chunk

/-- A chain of chunks, with the number of their bytes. -/
structure Packet where
  chunks : List Chunk := []
  length : Nat := 0
deriving DecidableEq, Repr, Inhabited

namespace Packet

def maxChunks : Nat := 8

def empty : Packet := {}

def isEmpty (p : Packet) : Bool := p.length = 0

def chunkBytes (pool : Pool) (p : Packet) : List Bytes := p.chunks.map (Chunk.bytes pool)

def content (pool : Pool) (p : Packet) : Bytes := (p.chunkBytes pool).flatten

/-- Gives the handles of a packet back, first chunk first. -/
def release (pool : Pool) (p : Packet) : Pool := pool.releaseAll (p.chunks.map Chunk.block)

/-- Adds a chunk at an end that `place` names. The handle of an empty chunk is given back at once. A
packet with no room for the chunk leaves it to the caller. -/
def add (place : Chunk → List Chunk → List Chunk) (pool : Pool) (p : Packet) (c : Chunk) :
    Except Chunk (Packet × Pool) :=
  if c.length = 0 then .ok (p, pool.release c.block)
  else if p.chunks.length < maxChunks then
    .ok ({ chunks := place c p.chunks, length := p.length + c.length }, pool)
  else .error c

def push (pool : Pool) (p : Packet) (c : Chunk) : Except Chunk (Packet × Pool) :=
  add (fun c chunks => chunks ++ [c]) pool p c

def pushFront (pool : Pool) (p : Packet) (c : Chunk) : Except Chunk (Packet × Pool) :=
  add (fun c chunks => c :: chunks) pool p c

def ofChunk (pool : Pool) (c : Chunk) : Packet × Pool :=
  if c.length = 0 then (empty, pool.release c.block)
  else ({ chunks := [c], length := c.length }, pool)

/-- Cuts `data` into pieces of `size` bytes, the last one perhaps shorter. -/
def pieces (size : Nat) (data : Bytes) : List Bytes :=
  (List.range (ceilDiv data.length size)).map fun i => (data.drop (i * size)).take size

/-- Copies each piece into a block of its own and adds it to `p`. If a block is missing, the handles
taken so far are given back. -/
def appendPieces :
    Pool → Packet → List Bytes → Except Fault (Except AllocError Packet × Pool)
  | pool, p, [] => .ok (.ok p, pool)
  | pool, p, piece :: rest =>
    match pool.allocate piece.length with
    | .error e => .ok (.error e, p.release pool)
    | .ok (block, pool) => do
      let pool ← pool.write block 0 piece
      let chunk ← Chunk.of pool block 0 piece.length
      match p.push pool chunk with
      | .error _ => .error .outOfRange
      | .ok (p, pool) => appendPieces pool p rest

/-- Copies `data` into blocks, more than one if the largest block is too small for it. -/
def ofBytes (pool : Pool) (data : Bytes) : Except Fault (Except AllocError Packet × Pool) :=
  if ceilDiv data.length pool.maxBlockSize > maxChunks then .ok (.error .tooLarge, pool)
  else appendPieces pool empty (pieces pool.maxBlockSize data)

/-- Retains the blocks of `rest`, after those of `done` were. If a counter is full, the handles
taken so far are given back, first chunk first. -/
def retainChunks : Pool → (done rest : List Chunk) → Option Fault × Pool
  | pool, _, [] => (none, pool)
  | pool, done, c :: rest =>
    match pool.retain c.block with
    | .ok pool => retainChunks pool (done ++ [c]) rest
    | .error fault => (some fault, pool.releaseAll (done.map Chunk.block))

/-- A second packet over the same bytes. -/
def duplicate (pool : Pool) (p : Packet) : Except Fault Packet × Pool :=
  match retainChunks pool [] p.chunks with
  | (none, pool) => (.ok p, pool)
  | (some fault, pool) => (.error fault, pool)

/-- Drops the first `count` bytes of a chain, and the handles of the chunks that are used up. -/
def dropBytes : Pool → List Chunk → Nat → Except Fault (List Chunk × Pool)
  | pool, chunks, 0 => .ok (chunks, pool)
  | _, [], _ + 1 => .error .outOfRange
  | pool, c :: rest, count =>
    if c.length ≤ count then dropBytes (pool.release c.block) rest (count - c.length)
    else .ok ({ c with start := c.start + count } :: rest, pool)

def advance (pool : Pool) (p : Packet) (count : Nat) : Except Fault (Packet × Pool) :=
  if count ≤ p.length then
    (dropBytes pool p.chunks count).map fun (chunks, pool) =>
      ({ chunks, length := p.length - count }, pool)
  else .error .advancePastEnd

/-- Up to `room` bytes of a chain, after its first `skip` bytes. -/
def copyFrom (pool : Pool) : List Chunk → (skip room : Nat) → Bytes
  | [], _, _ => []
  | c :: rest, skip, room =>
    if room = 0 then []
    else if c.length ≤ skip then copyFrom pool rest (skip - c.length) room
    else
      let part := c.part pool skip room
      part ++ copyFrom pool rest 0 (room - part.length)

/-- Up to `room` bytes of a packet from `offset` on. -/
def copy (pool : Pool) (p : Packet) (offset room : Nat) : Bytes :=
  copyFrom pool p.chunks offset room

/-- Copies the bytes from `offset` on over the start of `target`, as many as there are and as fit.
The answer holds their number too. -/
def copyTo (pool : Pool) (p : Packet) (offset : Nat) (target : Bytes) : Nat × Bytes :=
  let copied := p.copy pool offset target.length
  (copied.length, copied ++ target.drop copied.length)

/-- Compares chunks one after another with the bytes of `data`. -/
def sameBytes (pool : Pool) : List Chunk → Bytes → Except Fault Bool
  | [], _ => .ok true
  | c :: rest, data =>
    if data.length < c.length then .error .outOfRange
    else if c.bytes pool = data.take c.length then sameBytes pool rest (data.drop c.length)
    else .ok false

/-- Tells whether the bytes of a packet are `data`. -/
def hasContent (pool : Pool) (p : Packet) (data : Bytes) : Except Fault Bool :=
  if p.length ≠ data.length then .ok false else sameBytes pool p.chunks data

def describe (p : Packet) : String :=
  "Packet \x7b len: " ++ toString p.length ++ ", chunks: " ++ toString p.chunks.length ++ " \x7d"

end Packet

end DockLink
