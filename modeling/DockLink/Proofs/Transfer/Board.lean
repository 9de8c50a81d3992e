import DockLink.Transfer.Framer
import DockLink.Proofs.Transfer.Pushing

/-!
# What a reporter comes to

A board is a reporter without its memory: the queued events as the application reads them, the
counters, and the record of all events. What the reporter does to the queue of packets and to the
pool amounts to what the board does to plain data.
-/

namespace DockLink

open Reassembly

/-- An event as the application reads it. -/
inductive Report where
  | received (contentType : ContentType) (content : Bytes)
  | sent (ticket : Ticket)
  | sendFailed (ticket : Ticket) (error : LinkError)
  | receiveFailed (error : LinkError) (consecutive : UInt8)
deriving DecidableEq

namespace LinkEvent

def report (pool : Pool) : LinkEvent → Report
  | .received contentType packet => .received contentType (packet.content pool)
  | .sent ticket => .sent ticket
  | .sendFailed ticket error => .sendFailed ticket error
  | .receiveFailed error consecutive => .receiveFailed error consecutive

def handles : LinkEvent → Multiset Block
  | .received _ packet => packet.handles
  | _ => 0

def Valid (pool : Pool) : LinkEvent → Prop
  | .received _ packet => packet.Valid pool
  | _ => True

/-- Gives the packet of an event back. -/
def discard (pool : Pool) : LinkEvent → Pool
  | .received _ packet => packet.release pool
  | _ => pool

/-- The event without its packet. -/
def bare : LinkEvent → LinkEvent
  | .received contentType _ => .received contentType .empty
  | event => event

end LinkEvent

/-- The event without the content of its packet. -/
def Report.bare : Report → LinkEvent
  | .received contentType _ => .received contentType .empty
  | .sent ticket => .sent ticket
  | .sendFailed ticket error => .sendFailed ticket error
  | .receiveFailed error consecutive => .receiveFailed error consecutive

/-- A reporter without its memory. -/
structure Board where
  depth : Nat
  /-- The events that wait for the application, oldest first. -/
  ring : List Report := []
  statistics : Statistics := {}
  faults : UInt8 := 0
  /-- Every event, newest first, the dropped ones included. -/
  record : List LinkEvent := []
deriving DecidableEq

namespace Board

def count (b : Board) (f : Statistics → Statistics) : Board := { b with statistics := f b.statistics }

/-- An event that finds no room is counted as dropped. -/
def emit (b : Board) (report : Report) : Board :=
  if b.ring.length < b.depth then
    { b with record := report.bare :: b.record, ring := b.ring ++ [report] }
  else
    { b with record := report.bare :: b.record }.count fun s =>
      { s with droppedEvents := s.droppedEvents + 1 }

def sendFailed (b : Board) (ticket : Ticket) (error : LinkError) : Board :=
  (b.count fun s => { s with sendFailures := s.sendFailures + 1 }).emit (.sendFailed ticket error)

def receiveFailed (b : Board) (error : LinkError) : Board :=
  { b.count (·.countReceiveFault error) with faults := saturatingSucc b.faults }.emit
    (.receiveFailed error (saturatingSucc b.faults))

/-- The content type at the front of a packet on the wire, and the content behind it. -/
def readTag : Bytes → Option (ContentType × Bytes)
  | b₀ :: b₁ :: rest => some (⟨Bytes.word16 b₀ b₁⟩, rest)
  | _ => none

/-- The content type and the content of a packet on the wire. -/
def unpack (config : Framer.Config) (content : Bytes) : Option (ContentType × Bytes) :=
  if config.tagged then readTag content else some ({}, content)

/-- Takes what the receive path puts out. -/
def absorb (config : Framer.Config) (b : Board) : Decoder.Seen → Board
  | .blob => { b.count fun s => { s with blobsReceived := s.blobsReceived + 1 } with faults := 0 }
  | .fault error => b.receiveFailed error
  | .packet content =>
    match unpack config content with
    | none => b.receiveFailed .lengthOutOfRange
    | some (contentType, content) =>
      (b.count fun s => { s with packetsReceived := s.packetsReceived + 1 }).emit
        (.received contentType content)

end Board

variable {pool q : Pool} {others : Multiset Block} {depth : Nat}

namespace LinkEvent

theorem Valid.keeps {event : LinkEvent} (h : event.Valid pool) (hk : pool.Keeps q others) :
    event.Valid q := by
  cases event with
  | received contentType packet => exact Packet.Valid.keeps h hk
  | sent ticket => trivial
  | sendFailed ticket error => trivial
  | receiveFailed error consecutive => trivial

theorem report_keeps {event : LinkEvent} (hk : pool.Keeps q others)
    (hevent : ∀ b ∈ event.handles, b ∈ others) : event.report q = event.report pool := by
  cases event with
  | received contentType packet =>
      exact congrArg (Report.received contentType) (Packet.content_keeps hk hevent)
  | sent ticket => rfl
  | sendFailed ticket error => rfl
  | receiveFailed error consecutive => rfl

@[simp]
theorem bare_report (event : LinkEvent) : (event.report pool).bare = event.bare := by
  cases event with
  | received contentType packet => rfl
  | sent ticket => rfl
  | sendFailed ticket error => rfl
  | receiveFailed error consecutive => rfl

end LinkEvent

namespace Reporter

variable {r : Reporter depth}

/-- The handles of the packets in the queue. -/
def handles (r : Reporter depth) : Multiset Block := (r.events.toList.map LinkEvent.handles).sum

def Valid (r : Reporter depth) (pool : Pool) : Prop := ∀ event ∈ r.events.toList, event.Valid pool

/-- What the reporter comes to. -/
def board (r : Reporter depth) (pool : Pool) : Board :=
  { depth
    ring := r.events.toList.map (LinkEvent.report pool)
    statistics := r.statistics
    faults := r.faults
    record := r.record.map LinkEvent.bare }

theorem Valid.keeps (h : r.Valid pool) (hk : pool.Keeps q others) : r.Valid q :=
  fun event hevent => (h event hevent).keeps hk

theorem board_keeps (hk : pool.Keeps q (r.handles + others)) : r.board q = r.board pool := by
  have hring : r.events.toList.map (LinkEvent.report q) =
      r.events.toList.map (LinkEvent.report pool) := by
    refine List.map_congr_left ?_
    intro event hevent
    exact LinkEvent.report_keeps hk fun b hb =>
      Multiset.mem_add.2 (Or.inl (Pool.mem_sum_handles hevent hb))
  rw [board, board, hring]

@[simp]
theorem board_count (r : Reporter depth) (f : Statistics → Statistics) (pool : Pool) :
    (r.count f).board pool = (r.board pool).count f := rfl

/-- What a step of the reporter does: it accounts for every handle, keeps what the others show, and
amounts to a step of the board. -/
structure Posts (pool : Pool) (others : Multiset Block) (board : Board) (r' : Reporter depth)
    (q : Pool) : Prop where
  sound : q.Sound (r'.handles + others)
  keeps : pool.Keeps q others
  valid : r'.Valid q
  board_eq : r'.board q = board

theorem Posts.of_keeps {pool' : Pool} {board : Board} {r' : Reporter depth}
    (h : Posts pool' others board r' q) (hk : pool.Keeps pool' others) :
    Posts pool others board r' q :=
  { h with keeps := hk.trans h.keeps }

theorem emit_of_push {event : LinkEvent} {events : BoundedQueue LinkEvent depth}
    (h : r.events.push event = .ok events) :
    r.emit pool event = ({ r with events, record := event :: r.record }, pool) := by
  simp only [emit, h]

theorem emit_of_full {event rejected : LinkEvent} (h : r.events.push event = .error rejected) :
    r.emit pool event =
      ({ r with record := event :: r.record }.count fun s =>
        { s with droppedEvents := s.droppedEvents + 1 }, event.discard pool) := by
  simp only [emit, h]
  cases event with
  | received contentType packet => rfl
  | sent ticket => rfl
  | sendFailed ticket error => rfl
  | receiveFailed error consecutive => rfl

theorem emit_posts (hv : r.Valid pool) {event : LinkEvent} (he : event.Valid pool)
    (hs : pool.Sound (event.handles + (r.handles + others))) :
    Posts pool others ((r.board pool).emit (event.report pool)) (r.emit pool event).1
      (r.emit pool event).2 := by
  cases hp : r.events.push event with
  | ok events =>
      have hlist := BoundedQueue.toList_of_push hp
      have hroom : (r.board pool).ring.length < (r.board pool).depth := by
        simpa only [board, List.length_map] using BoundedQueue.length_lt_of_push hp
      rw [emit_of_push hp, Board.emit, if_pos hroom]
      exact {
        sound := hs.cast (by
          simp only [handles, hlist, List.map_append, List.sum_append, List.map_cons, List.map_nil,
            List.sum_cons, List.sum_nil]
          abel)
        keeps := Pool.Keeps.refl _ _
        valid := by
          intro e hmem
          simp only [hlist, List.mem_append, List.mem_singleton] at hmem
          rcases hmem with hmem | rfl
          · exact hv e hmem
          · exact he
        board_eq := by simp [board, hlist] }
  | error rejected =>
      obtain ⟨hlength, -⟩ := (BoundedQueue.push_eq_error_iff _ _ _).1 hp
      have hfull : ¬(r.board pool).ring.length < (r.board pool).depth := by
        simp only [board, List.length_map, hlength]
        exact Nat.lt_irrefl _
      rw [emit_of_full hp, Board.emit, if_neg hfull]
      cases event with
      | received contentType packet =>
          obtain ⟨hsound, hkeeps⟩ := Packet.sound_release hs
          exact {
            sound := hsound
            keeps := hkeeps.mono fun b hb => Multiset.mem_add.2 (Or.inr hb)
            valid := Valid.keeps hv hkeeps
            board_eq := by
              have hboard := board_keeps hkeeps
              simp only [board, Board.mk.injEq, and_true, true_and] at hboard
              simp only [board, count, Board.count, LinkEvent.discard, hboard]
              rfl }
      | sent ticket =>
          exact ⟨hs.cast (zero_add _), Pool.Keeps.refl _ _, hv, rfl⟩
      | sendFailed ticket error =>
          exact ⟨hs.cast (zero_add _), Pool.Keeps.refl _ _, hv, rfl⟩
      | receiveFailed error consecutive =>
          exact ⟨hs.cast (zero_add _), Pool.Keeps.refl _ _, hv, rfl⟩

theorem sendFailed_posts (hv : r.Valid pool) (hs : pool.Sound (r.handles + others)) (ticket : Ticket)
    (error : LinkError) :
    Posts pool others ((r.board pool).sendFailed ticket error) (r.sendFailed pool ticket error).1
      (r.sendFailed pool ticket error).2 := by
  have he : LinkEvent.Valid pool (.sendFailed ticket error) := trivial
  exact emit_posts (r := r.count fun s => { s with sendFailures := s.sendFailures + 1 }) hv he
    (hs.cast (zero_add _).symm)

theorem receiveFailed_posts (hv : r.Valid pool) (hs : pool.Sound (r.handles + others))
    (error : LinkError) :
    Posts pool others ((r.board pool).receiveFailed error) (r.receiveFailed pool error).1
      (r.receiveFailed pool error).2 := by
  have he : LinkEvent.Valid pool (.receiveFailed error (saturatingSucc r.faults)) := trivial
  exact emit_posts
    (r := { r.count (·.countReceiveFault error) with faults := saturatingSucc r.faults }) hv he
    (hs.cast (zero_add _).symm)

end Reporter

/-! ## The framer's sink -/

namespace Framer

variable {config : Config} {r : Reporter depth}

theorem readTag_eq_none_iff {content : Bytes} :
    Board.readTag content = none ↔ content.length < Config.contentTypeLength := by
  match content with
  | [] => exact ⟨fun _ => Nat.succ_pos _, fun _ => rfl⟩
  | [_] => exact ⟨fun _ => Nat.lt_succ_self _, fun _ => rfl⟩
  | _ :: _ :: rest =>
      refine ⟨nofun, fun h => absurd h (Nat.not_lt.2 ?_)⟩
      exact Nat.le_add_left _ _

theorem untag_short (htag : config.tagged = true) {packet : Packet}
    (hshort : packet.length < Config.contentTypeLength) :
    untag config pool packet = .ok (none, packet.release pool) := by
  simp only [untag, htag, Bool.not_true, Bool.false_eq_true, if_false]
  rw [if_pos hshort]

/-- A content type is read off the front of the content. -/
theorem untag_tagged (htag : config.tagged = true) {packet : Packet} (hv : packet.Valid pool)
    (hs : pool.Sound (packet.handles + others)) {b₀ b₁ : UInt8} {rest : Bytes}
    (hcontent : packet.content pool = b₀ :: b₁ :: rest) :
    ∃ packet' q, untag config pool packet = .ok (some (⟨Bytes.word16 b₀ b₁⟩, packet'), q) ∧
      q.Sound (packet'.handles + others) ∧ pool.Keeps q others ∧ packet'.Valid q ∧
      packet'.content q = rest := by
  have hlength : rest.length + 2 = packet.length := by
    rw [← hv.length_content, hcontent]
    rfl
  have hlong : ¬packet.length < Config.contentTypeLength := by
    rw [← hlength]
    exact Nat.not_lt.2 (Nat.le_add_left _ _)
  have hcopy : packet.copy pool 0 Config.contentTypeLength = [b₀, b₁] := by
    rw [hv.copy_eq, List.drop_zero, hcontent]
    rfl
  obtain ⟨packet', q, hadvance, hsound, hkeeps, hvalid, hrest, -⟩ :=
    hv.advance (Nat.not_lt.1 hlong) hs
  refine ⟨packet', q, ?_, hsound, hkeeps.mono fun b hb => Multiset.mem_add.2 (Or.inr hb), hvalid, ?_⟩
  · simp only [untag, htag, Bool.not_true, Bool.false_eq_true, if_false]
    rw [if_neg hlong, hcopy, hadvance]
    rfl
  · rw [hrest, hcontent]
    rfl

theorem readTag_eq_some {content : Bytes} {tagged : ContentType × Bytes}
    (h : Board.readTag content = some tagged) :
    ∃ b₀ b₁ rest, content = b₀ :: b₁ :: rest ∧ tagged = (⟨Bytes.word16 b₀ b₁⟩, rest) := by
  match content, h with
  | b₀ :: b₁ :: rest, h => exact ⟨b₀, b₁, rest, rfl, (Option.some.inj h).symm⟩

theorem deliver_of_untag {packet packet' : Packet} {contentType : ContentType}
    (h : untag config pool packet = .ok (some (contentType, packet'), q)) :
    deliver config r pool (.packet packet) = .ok
      ((r.count fun s => { s with packetsReceived := s.packetsReceived + 1 }).emit q
        (.received contentType packet')) := by
  rw [deliver, h]
  rfl

/-- What the receive path puts out is reported as the board takes it. -/
theorem deliver_posts (hv : r.Valid pool) {output : Output} (ho : output.Valid pool)
    (hs : pool.Sound (output.handles + (r.handles + others))) :
    ∃ r' q, deliver config r pool output = .ok (r', q) ∧
      Reporter.Posts pool others ((r.board pool).absorb config (output.seen pool)) r' q := by
  cases output with
  | blob => exact ⟨_, _, rfl, hs.cast (zero_add _), Pool.Keeps.refl _ _, hv, rfl⟩
  | fault error =>
      exact ⟨_, _, rfl, Reporter.receiveFailed_posts hv (hs.cast (zero_add _)) error⟩
  | packet p =>
      have hothers : ∀ b ∈ others, b ∈ r.handles + others :=
        fun b hb => Multiset.mem_add.2 (Or.inr hb)
      simp only [Board.absorb, Board.unpack, Output.seen]
      cases htag : config.tagged with
      | false =>
          refine ⟨_, _, deliver_of_untag (by simp only [untag, htag]; rfl), ?_⟩
          have hevent : LinkEvent.Valid pool (.received {} p) := ho
          exact Reporter.emit_posts
            (r := r.count fun s => { s with packetsReceived := s.packetsReceived + 1 }) hv hevent hs
      | true =>
          simp only [if_true]
          cases hread : Board.readTag (p.content pool) with
          | none =>
              have hshort : p.length < Config.contentTypeLength := by
                rw [← Packet.Valid.length_content ho]
                exact readTag_eq_none_iff.1 hread
              obtain ⟨hsound, hkeeps⟩ := Packet.sound_release hs
              have hposts := Reporter.receiveFailed_posts (hv.keeps hkeeps) hsound .lengthOutOfRange
              rw [Reporter.board_keeps hkeeps] at hposts
              refine ⟨_, _, ?_, hposts.of_keeps (hkeeps.mono hothers)⟩
              rw [deliver, untag_short htag hshort]
              rfl
          | some tagged =>
              obtain ⟨b₀, b₁, rest, hcontent, rfl⟩ := readTag_eq_some hread
              obtain ⟨p', q, huntag, hsound, hkeeps, hvalid, rfl⟩ := untag_tagged htag ho hs hcontent
              have hevent : LinkEvent.Valid q (.received ⟨Bytes.word16 b₀ b₁⟩ p') := hvalid
              have hposts := Reporter.emit_posts
                (r := r.count fun s => { s with packetsReceived := s.packetsReceived + 1 })
                (hv.keeps hkeeps) hevent hsound
              refine ⟨_, _, deliver_of_untag huntag, ?_⟩
              rw [Reporter.board_count, Reporter.board_keeps hkeeps] at hposts
              exact hposts.of_keeps (hkeeps.mono hothers)

def sink (config : Config) : Sink (V := Board) (@deliver depth config) where
  handles := Reporter.handles
  Valid := Reporter.Valid
  view := Reporter.board
  absorb := Board.absorb config
  keeps hv hk := ⟨hv.keeps hk, Reporter.board_keeps hk⟩
  spec := by
    intro r pool output others hv ho hs
    obtain ⟨r', q, hok, hposts⟩ := deliver_posts hv ho hs
    exact ⟨r', q, hok, hposts.sound, hposts.keeps, hposts.valid, hposts.board_eq⟩

end Framer

end DockLink
