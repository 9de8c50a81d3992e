import DockLink.Proofs.Transfer.Board
import DockLink.Proofs.Transfer.Cutting

/-!
# What a framer comes to

An outline is a framer without its memory: packets are the bytes they put on the wire, the receiver
is the decoder's state, and the reporter is its board. A step of the outline says with plain data
what the step of the framer does. Whether a block can be had is not a matter of the outline: where
the framer allocates, the outline is told how many packets were given up for want of memory.
-/

namespace DockLink

/-- A packet that waits or is on its way, as the bytes it makes on the wire. -/
structure Parcel where
  ticket : Ticket
  stream : Bytes
deriving DecidableEq

/-- What is on the channel. -/
inductive Flight where
  | idle
  /-- A blob of `expected` bytes, and the blobs that are to follow it. -/
  | sending (parcel : Parcel) (left : List Bytes) (expected : Nat)
  | cancelled
deriving DecidableEq

/-- A framer without its memory. -/
structure Outline where
  config : Framer.Config
  enabled : Bool
  nextTicket : Ticket
  /-- The queued packets, oldest first. -/
  waiting : List Parcel
  flight : Flight
  reading : Decoder.State
  board : Board
  /-- The blobs of the writes that the channel was not told of yet, oldest first. -/
  writes : List Bytes
deriving DecidableEq

namespace Outline

/-- A framer that was just made. -/
def fresh (config : Framer.Config) (eventDepth : Nat) : Outline :=
  { config, enabled := false, nextTicket := ⟨0⟩, waiting := [], flight := .idle
    reading := .expect {} [], board := { depth := eventDepth }, writes := [] }

def limits (o : Outline) : Decoder.Limits :=
  { maxPayload := o.config.maxPayload, maxLength := o.config.maxStream }

def count (o : Outline) (f : Statistics → Statistics) : Outline :=
  { o with board := o.board.count f }

/-- Reports that a packet was not sent. -/
def giveUp (o : Outline) (p : Parcel) (error : LinkError) : Outline :=
  { o with board := o.board.sendFailed p.ticket error }

/-- A packet that finds no memory for its blobs. -/
def miss (o : Outline) (p : Parcel) : Outline :=
  (o.count fun s => { s with allocationFailures := s.allocationFailures + 1 }).giveUp p .outOfMemory

/-- Puts a blob on the channel. -/
def put (o : Outline) (p : Parcel) (blob : Bytes) (left : List Bytes) : Outline :=
  { o with flight := .sending p left blob.length, writes := o.writes ++ [blob] }

/-- Puts the first blob of a packet on the channel. -/
def start (o : Outline) (p : Parcel) : Outline :=
  match Blob.cut o.config.maxPayload p.stream with
  | [] => o
  | blob :: left => o.put p blob left

/-- Starts the next packet, if the channel is free. The first `misses` packets find no memory. -/
def fill : Nat → Outline → Outline
  | 0, o =>
    match o.flight, o.waiting with
    | .idle, p :: rest => { o with waiting := rest }.start p
    | _, _ => o
  | misses + 1, o =>
    match o.flight, o.waiting with
    | .idle, p :: rest => fill misses ({ o with waiting := rest }.miss p)
    | _, _ => o

/-- Accepts a packet for sending. -/
def accept (o : Outline) (stream : Bytes) : Outline :=
  { o with
    waiting := o.waiting ++ [{ ticket := o.nextTicket, stream }]
    nextTicket := ⟨o.nextTicket.number + 1⟩ }

/-- Goes on with a packet when one of its blobs is through. -/
def proceed (misses : Nat) (o : Outline) (p : Parcel) : List Bytes → Outline
  | blob :: left => (o.count fun s => { s with blobsSent := s.blobsSent + 1 }).put p blob left
  | [] =>
    fill misses { o with
      board := ((o.board.count fun s => { s with blobsSent := s.blobsSent + 1 }).count fun s =>
        { s with packetsSent := s.packetsSent + 1 }).emit (.sent p.ticket) }

/-- The outcome of the write on the channel. -/
def complete (misses : Nat) (o : Outline) (result : WriteResult) : Outline :=
  match o.flight with
  | .sending p left expected =>
    if result = .written expected then proceed misses { o with flight := .idle } p left
    else
      fill misses (({ o with flight := .idle }.count fun s =>
        { s with aborts := s.aborts + 1 }).giveUp p .channelAborted)
  | _ => fill misses { o with flight := .idle }

/-- Takes what the receive path puts out. -/
def absorb (o : Outline) (seen : List Decoder.Seen) (reading : Decoder.State) : Outline :=
  { o with reading, board := seen.foldl (Board.absorb o.config) o.board }

def transactionEnd (o : Outline) : Outline :=
  match o.reading.finish with
  | ([], p) => { o with reading := .expect p [] }
  | (_, p) =>
    if o.enabled then
      { o with reading := .expect p [], board := o.board.receiveFailed .channelAborted }
    else { o with reading := .expect p [] }

def enable (o : Outline) : Outline :=
  if o.enabled then o
  else { o with reading := .expect {} [], board := { o.board with faults := 0 }, enabled := true }

/-- Gives up the packet on the channel, which still owes its block. -/
def cancel (o : Outline) : Outline :=
  match o.flight with
  | .sending p _ _ => { o with flight := .cancelled }.giveUp p .disconnected
  | _ => o

/-- Gives up every queued packet. -/
def flush (o : Outline) : Outline :=
  o.waiting.foldl (fun o p => o.giveUp p .disconnected) { o with waiting := [] }

def disable (o : Outline) : Outline :=
  if o.enabled then { o with enabled := false, reading := .expect {} [] }.cancel.flush else o

/-! ## Starting packets -/

variable {o : Outline} {p : Parcel} {rest : List Parcel}

theorem fill_of_busy (h : o.flight ≠ .idle) (misses : Nat) : o.fill misses = o := by
  cases misses with
  | zero => simp only [fill]; split <;> simp_all
  | succ n => simp only [fill]; split <;> simp_all

theorem fill_of_empty (h : o.waiting = []) (misses : Nat) : o.fill misses = o := by
  cases misses with
  | zero => simp only [fill]; split <;> simp_all
  | succ n => simp only [fill]; split <;> simp_all

theorem fill_zero_cons (hidle : o.flight = .idle) (hwaiting : o.waiting = p :: rest) :
    o.fill 0 = { o with waiting := rest }.start p := by
  simp only [fill, hidle, hwaiting]

theorem fill_succ_cons (hidle : o.flight = .idle) (hwaiting : o.waiting = p :: rest) (misses : Nat) :
    o.fill (misses + 1) = fill misses ({ o with waiting := rest }.miss p) := by
  simp only [fill, hidle, hwaiting]

/-! ## Completions -/

/-- The outcome of the write on the channel, before the next packet is started. -/
def land (o : Outline) (result : WriteResult) : Outline :=
  match o.flight with
  | .sending p left expected =>
    if result = .written expected then
      match left with
      | blob :: left =>
        ({ o with flight := .idle }.count fun s => { s with blobsSent := s.blobsSent + 1 }).put p blob left
      | [] =>
        { o with
          flight := .idle
          board := ((o.board.count fun s => { s with blobsSent := s.blobsSent + 1 }).count fun s =>
            { s with packetsSent := s.packetsSent + 1 }).emit (.sent p.ticket) }
    else
      ({ o with flight := .idle }.count fun s => { s with aborts := s.aborts + 1 }).giveUp p
        .channelAborted
  | _ => { o with flight := .idle }

/-- The channel wrote all of the blob. -/
def Wrote (o : Outline) (result : WriteResult) : Prop :=
  ∀ p left expected, o.flight = .sending p left expected → result = .written expected

theorem complete_eq_fill (misses : Nat) (o : Outline) (result : WriteResult) :
    o.complete misses result = (o.land result).fill misses := by
  cases hflight : o.flight with
  | idle => simp only [complete, land, hflight]
  | cancelled => simp only [complete, land, hflight]
  | sending p left expected =>
      by_cases hresult : result = .written expected
      · simp only [complete, land, hflight, if_pos hresult]
        cases left with
        | nil => rfl
        | cons blob left =>
            have hbusy : (({ o with flight := .idle }.count fun s =>
                { s with blobsSent := s.blobsSent + 1 }).put p blob left).flight ≠ .idle :=
              fun h => by cases h
            exact (fill_of_busy hbusy misses).symm
      · simp only [complete, land, hflight, if_neg hresult]

/-! ## Steps that do not write -/

theorem writes_enable (o : Outline) : o.enable.writes = o.writes := by
  unfold enable
  split
  · rfl
  · rfl

theorem writes_transactionEnd (o : Outline) : o.transactionEnd.writes = o.writes := by
  unfold transactionEnd
  split
  · rfl
  · split
    · rfl
    · rfl

theorem writes_cancel (o : Outline) : o.cancel.writes = o.writes := by
  unfold cancel
  split
  · rfl
  · rfl

theorem writes_flush (o : Outline) : o.flush.writes = o.writes := by
  suffices h : ∀ (ps : List Parcel) (o : Outline),
      (ps.foldl (fun o p => o.giveUp p .disconnected) o).writes = o.writes from h _ _
  intro ps
  induction ps with
  | nil => exact fun _ => rfl
  | cons p rest ih => exact fun o => ih (o.giveUp p .disconnected)

theorem writes_disable (o : Outline) : o.disable.writes = o.writes := by
  unfold disable
  split
  · rw [writes_flush, writes_cancel]
  · rfl

end Outline

end DockLink
