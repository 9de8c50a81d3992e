import DockLink.Memory.Bucket

/-!
# Block pools

A pool serves requests for memory from size classes of ascending capacity. A request gets a slot of
the smallest class that is large enough and has one left. A block is a handle to a slot: its bytes
can be read through any handle, and written through the only one.
-/

namespace DockLink

/-- The largest size: sizes are words of sixty-four bits. -/
def maxSize : Nat := 0xFFFFFFFFFFFFFFFF

/-- A handle to a slot of a size class. -/
structure Block where
  sizeClass : Nat
  slot : UInt8
deriving DecidableEq, Repr, Inhabited

/-- Why a request got no block. -/
inductive AllocError where
  /-- Every class that is large enough is used up. -/
  | outOfMemory
  /-- No class is large enough. -/
  | tooLarge
deriving DecidableEq, Repr

def AllocError.name : AllocError → String
  | .outOfMemory => "OutOfMemory"
  | .tooLarge => "TooLarge"

structure Pool where
  classes : Array Bucket
deriving Repr, Inhabited

namespace Pool

/-- A pool of unused size classes, each given by its capacity and its number of slots. -/
def ofClasses (classes : List (Nat × Nat)) : Except Fault Pool :=
  if classes.isEmpty then .error .noSizeClass
  else if (classes.map Prod.fst).Pairwise (· < ·) then
    .ok ⟨(classes.map fun (capacity, count) => Bucket.fresh capacity count).toArray⟩
  else .error .classesNotAscending

/-- A size class. One that does not exist reads as one without bytes. -/
def bucket (p : Pool) (i : Nat) : Bucket := p.classes.getD i default

def onBucket (p : Pool) (i : Nat) (f : Bucket → Bucket) : Pool :=
  { p with classes := p.classes.modify i f }

def maxBlockSize (p : Pool) : Nat := (p.classes.back?.map Bucket.capacity).getD 0

def freeCounts (p : Pool) : List Nat := p.classes.toList.map Bucket.freeCount

def freeBlocks (p : Pool) : Nat := p.freeCounts.foldl (· + ·) 0

def totalBlocks (p : Pool) : Nat := p.classes.foldl (fun n b => n + b.slots.size) 0

/-- The first class that noted a fault tells it. -/
def fault? (p : Pool) : Option Fault := p.classes.toList.findSome? Bucket.fault?

/-- Meets the fault that was noted. -/
def check (p : Pool) : Except Fault Unit :=
  match p.fault? with
  | some fault => .error fault
  | none => .ok ()

/-- Takes a slot of class `i`, if it is large enough and has one left. -/
def allocateIn (p : Pool) (size i : Nat) : Option (Block × Pool) :=
  if size ≤ (p.bucket i).capacity then
    (p.bucket i).acquire.map fun (s, b) =>
      (⟨i, s⟩, { p with classes := p.classes.setIfInBounds i b })
  else none

/-- Takes a slot of the first class that is large enough and has one left. -/
def allocate (p : Pool) (size : Nat) : Except AllocError (Block × Pool) :=
  if p.classes.any fun b => size ≤ b.capacity then
    match (List.range p.classes.size).findSome? (p.allocateIn size) with
    | some result => .ok result
    | none => .error .outOfMemory
  else .error .tooLarge

def retain (p : Pool) (b : Block) : Except Fault Pool :=
  ((p.bucket b.sizeClass).retain b.slot).map fun bucket =>
    { p with classes := p.classes.setIfInBounds b.sizeClass bucket }

def release (p : Pool) (b : Block) : Pool :=
  p.onBucket b.sizeClass fun bucket => bucket.release b.slot

def releaseAll (p : Pool) (blocks : List Block) : Pool := blocks.foldl release p

def capacity (p : Pool) (b : Block) : Nat := (p.bucket b.sizeClass).capacity

def refCount (p : Pool) (b : Block) : UInt8 := (p.bucket b.sizeClass).refs b.slot

def bytes (p : Pool) (b : Block) : Bytes := ((p.bucket b.sizeClass).slot b.slot).bytes.toList

/-- The bytes of a block from `start` up to `stop`, `stop` not included. -/
def read (p : Pool) (b : Block) (start stop : Nat) : Bytes :=
  (((p.bucket b.sizeClass).slot b.slot).bytes.toArray.extract start stop).toList

/-- Overwrites the bytes of a block from `offset` on, if the handle is the only one. -/
def write (p : Pool) (b : Block) (offset : Nat) (data : Bytes) : Except Fault Pool :=
  if p.refCount b ≠ 1 then .error .sharedBlock
  else if offset + data.length ≤ p.capacity b then
    .ok (p.onBucket b.sizeClass fun bucket => bucket.store b.slot offset data)
  else .error .outOfRange

def describe (p : Pool) (b : Block) : String :=
  "Block \x7b capacity: " ++ toString (p.capacity b) ++ ", slot: " ++ toString b.slot.toNat
    ++ " \x7d"

end Pool

end DockLink
