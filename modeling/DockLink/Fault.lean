/-!
# Violated preconditions

An operation of this library either answers or meets a caller's mistake. The mistakes are listed
here. Those a caller can make at the public interface carry a text, and those that only arise inside
an operation (an index past the end, a block written while it is shared) carry none.
-/

namespace DockLink

/-- A violated precondition: an operation that meets one has no answer. -/
inductive Fault where
  /-- A blob header cannot express the payload length. -/
  | payloadTooLong
  /-- A pool without any size class. -/
  | noSizeClass
  /-- Size classes whose capacities do not strictly ascend. -/
  | classesNotAscending
  /-- More handles to one block than its counter can count. -/
  | refCountOverflow
  /-- A further handle to a block that has none. -/
  | retainOfReleased
  /-- A handle given back to a block that has none. -/
  | doubleRelease
  /-- A byte range that does not lie within its block. -/
  | rangeExceedsBlock
  /-- More bytes taken from a packet than it has. -/
  | advancePastEnd
  /-- A blob payload limit that is zero or more than a header can express. -/
  | payloadLimitOutOfRange
  /-- A pool without a size class for the largest blob. -/
  | blobExceedsPool
  /-- A packet limit that needs more blobs than a packet may have chunks. -/
  | tooManyBlobs
  /-- A blob limit beyond the sixteen bits of an envelope. -/
  | limitExceedsEnvelope
  /-- A sum of sizes that sixty-four bits cannot express. -/
  | sizeOverflow
  /-- A write to a block that has other handles. -/
  | sharedBlock
  /-- An index or a range outside its buffer. -/
  | outOfRange
deriving DecidableEq, Repr

/-- The text of a fault, for those that have one. -/
def Fault.message? : Fault → Option String
  | .payloadTooLong => some "blob payload too long"
  | .noSizeClass => some "pool requires at least one size class"
  | .classesNotAscending => some "pool size classes must be ordered by ascending capacity"
  | .refCountOverflow => some "block reference count overflow"
  | .retainOfReleased => some "retain of a released block"
  | .doubleRelease => some "double release of a block"
  | .rangeExceedsBlock => some "chunk range exceeds the block"
  | .advancePastEnd => some "advance past the packet end"
  | .payloadLimitOutOfRange => some "blob payload limit out of range"
  | .blobExceedsPool => some "pool cannot hold a full blob"
  | .tooManyBlobs => some "packet limit needs too many blobs"
  | .limitExceedsEnvelope => some "blob limit exceeds the envelope"
  | .sizeOverflow => none
  | .sharedBlock => none
  | .outOfRange => none

/-! ## Operations that answer -/

/-- What comes of two steps that do not fault. -/
theorem exists_of_bind_eq_ok {ε α β : Type} {x : Except ε α} {g : α → Except ε β} {b : β}
    (h : x >>= g = .ok b) : ∃ a, x = .ok a ∧ g a = .ok b := by
  cases x with
  | error e => cases h
  | ok a => exact ⟨a, rfl, h⟩

theorem exists_of_map_eq_ok {ε α β : Type} {x : Except ε α} {g : α → β} {b : β}
    (h : x.map g = .ok b) : ∃ a, x = .ok a ∧ g a = b := by
  cases x with
  | error e => cases h
  | ok a => exact ⟨a, rfl, Except.ok.inj h⟩

theorem eq_ok_of_toOption {ε α : Type} {x : Except ε α} {a : α} (h : x.toOption = some a) :
    x = .ok a := by
  cases x with
  | error e => cases h
  | ok b =>
      cases h
      rfl

end DockLink
