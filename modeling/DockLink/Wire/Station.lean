import DockLink.Wire.Channel

/-!
# Stations

A station is one side of a link at work: an endpoint, the channel that it gives orders to, and the
application that holds packets and blocks. The channel completes its writes in order, each with its
own block. Where an operation below completes a write in another way, it says so.
-/

namespace DockLink

/-- What a station needs of its endpoint. -/
class Endpoint (σ : Type) where
  pool : σ → Pool
  withPool : σ → Pool → σ
  /-- The orders since they were last taken, oldest first. -/
  takeOrders : σ → List Order × σ
  received : σ → Bytes → Except Fault σ
  transactionEnd : σ → σ
  /-- A fault may leave the endpoint changed. -/
  writeComplete : σ → Block → WriteResult → σ × Option Fault

/-- An endpoint with its channel and its application. -/
structure Station (σ : Type) where
  endpoint : σ
  channel : Channel := {}
  /-- The packets that the application keeps, oldest first. -/
  kept : List Packet := []
  /-- The blocks that the application holds, newest first. -/
  held : List Block := []
  /-- The bytes of every write since the record was last taken, newest first. -/
  issued : List Bytes := []

namespace Station

variable {σ : Type} [Endpoint σ]

def pool (s : Station σ) : Pool := Endpoint.pool s.endpoint

def withPool (s : Station σ) (pool : Pool) : Station σ :=
  { s with endpoint := Endpoint.withPool s.endpoint pool }

def bytesOf? (pool : Pool) : Order → Option Bytes
  | .write w => some (w.bytes pool)
  | _ => none

/-- Passes the orders of the endpoint on to the channel. -/
def settle (s : Station σ) : Station σ :=
  let (orders, endpoint) := Endpoint.takeOrders s.endpoint
  { s with
    endpoint
    channel := s.channel.obeyAll orders
    issued := (orders.filterMap (bytesOf? (Endpoint.pool endpoint))).reverse ++ s.issued }

def act (s : Station σ) (f : σ → σ) : Station σ := { s with endpoint := f s.endpoint }.settle

/-- Takes the record of the writes. -/
def takeIssued (s : Station σ) : List Bytes × Station σ :=
  (s.issued.reverse, { s with issued := [] })

def receive (s : Station σ) (data : Bytes) : Except Fault (Station σ) :=
  (Endpoint.received s.endpoint data).map fun endpoint => { s with endpoint }.settle

def transactionEnd (s : Station σ) : Station σ := s.act Endpoint.transactionEnd

/-- Reports the outcome of a write and gives a block back. -/
def report (s : Station σ) (block : Block) (result : WriteResult) : Station σ × Option Fault :=
  let (endpoint, fault) := Endpoint.writeComplete s.endpoint block result
  ({ s with endpoint }.settle, fault)

/-- The oldest write that is not completed. -/
def takeWrite? (s : Station σ) : Option (Write × Station σ) :=
  match s.channel.outstanding with
  | [] => none
  | w :: rest => some (w, { s with channel := { s.channel with outstanding := rest } })

/-- Completes the oldest write. The answer is none if there is none. -/
def complete (s : Station σ) (outcome : Write → WriteResult) :
    Option (Station σ × Option Fault) :=
  s.takeWrite?.map fun (w, s) => s.report w.block (outcome w)

/-- Reports a completion with a block that the channel does not own. -/
def completeForeign (s : Station σ) (size : Nat) (result : WriteResult) :
    Except AllocError (Station σ × Option Fault) :=
  (s.pool.allocate size).map fun (block, pool) => (s.withPool pool).report block result

/-- Reports the bytes of the oldest write as received, and completes it in full. -/
def echo (s : Station σ) : Except Fault (Option (Station σ × Option Fault)) :=
  match s.takeWrite? with
  | none => .ok none
  | some (w, s) => do
    let s ← s.receive (w.bytes s.pool)
    return some (s.report w.block (.written w.length))

/-! ## The application -/

/-- Allocates up to `n` blocks, stopping at the first error. The blocks come first to last. -/
def hold (s : Station σ) (size : Nat) : Nat → Station σ × List Block × Option AllocError
  | 0 => (s, [], none)
  | n + 1 =>
    match s.pool.allocate size with
    | .error e => (s, [], some e)
    | .ok (block, pool) =>
      let s := s.withPool pool
      let (s, blocks, e) := { s with held := block :: s.held }.hold size n
      (s, block :: blocks, e)

/-- Gives up to `n` held blocks back, the newest first. -/
def unhold (s : Station σ) (n : Nat) : Station σ :=
  { s.withPool (s.pool.releaseAll (s.held.take n)) with held := s.held.drop n }

def keep (s : Station σ) (packet : Packet) : Station σ := { s with kept := s.kept ++ [packet] }

def discard (s : Station σ) (packet : Packet) : Station σ := s.withPool (packet.release s.pool)

/-- The oldest kept packet. -/
def takeKept? (s : Station σ) : Option (Packet × Station σ) :=
  match s.kept with
  | [] => none
  | packet :: rest => some (packet, { s with kept := rest })

/-- Gives the kept packets back, the oldest first. -/
def dropKept (s : Station σ) : Station σ :=
  { s.withPool (s.kept.foldl (fun pool packet => packet.release pool) s.pool) with kept := [] }

/-- Copies bytes into a packet of the largest blocks. -/
def pack (s : Station σ) (data : Bytes) : Except Fault (Except AllocError Packet × Station σ) :=
  (Packet.ofBytes s.pool data).map fun (packet, pool) => (packet, s.withPool pool)

/-- Copies each of the pieces into a block of its own, the empty ones too. -/
def packPieces (s : Station σ) (data : List Bytes) :
    Except Fault (Except AllocError Packet × Station σ) :=
  (Packet.appendPieces s.pool .empty data).map fun (packet, pool) => (packet, s.withPool pool)

end Station

end DockLink
