import DockLink.Memory.Packet

/-!
# Byte channels

A byte channel is operated by orders. A write lends the channel a block, and the channel owes it
back together with the outcome, for each write once and in the order of the writes.
-/

namespace DockLink

/-- Bytes of a block that are lent to the channel. -/
structure Write where
  block : Block
  offset : Nat
  length : Nat
deriving DecidableEq, Repr

inductive WriteResult where
  /-- The number of bytes that went out. -/
  | written (count : Nat)
  | aborted
deriving DecidableEq, Repr

/-- What a channel is told to do. -/
inductive Order where
  | enable
  | disable
  /-- Cancels the reception in progress. -/
  | abortRx
  /-- Cancels the transmission in progress. -/
  | abortTx
  | write (w : Write)
deriving DecidableEq, Repr

/-- The state of a channel, as far as its orders tell. -/
structure Channel where
  enabled : Bool := false
  rxAborts : Nat := 0
  txAborts : Nat := 0
  /-- The writes that are not completed, oldest first. -/
  outstanding : List Write := []
deriving DecidableEq, Repr

namespace Channel

def obey (c : Channel) : Order → Channel
  | .enable => { c with enabled := true }
  | .disable => { c with enabled := false }
  | .abortRx => { c with rxAborts := c.rxAborts + 1 }
  | .abortTx => { c with txAborts := c.txAborts + 1 }
  | .write w => { c with outstanding := c.outstanding ++ [w] }

def obeyAll (c : Channel) (orders : List Order) : Channel := orders.foldl obey c

end Channel

def Write.bytes (pool : Pool) (w : Write) : Bytes :=
  pool.read w.block w.offset (w.offset + w.length)

end DockLink
