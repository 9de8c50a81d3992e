import DockLink.Proofs.Memory.Room
import DockLink.Proofs.Transfer.Session
import Mathlib.Algebra.BigOperators.Group.List.Basic

/-!
# Every handle has a holder

The census lists the handles of a session by those who hold them. The pool counts exactly these,
whatever happened before; so when nobody holds a block, every slot is free again.
-/

namespace DockLink

/-- The handles to the blocks of a pool, by those who hold them. A block that is held twice is
listed twice. -/
structure Census where
  /-- The chunks of the queued packets. -/
  queued : Multiset Block
  /-- The chunks of the packet on the channel. -/
  sending : Multiset Block
  /-- The blocks of the writes that are not completed. -/
  lent : Multiset Block
  /-- The block of the blob that is coming in. -/
  blob : Multiset Block
  /-- The chunks of the packet under reassembly. -/
  assembled : Multiset Block
  /-- The chunks of the packets that wait in the event queue. -/
  reported : Multiset Block
  /-- The application's own. -/
  held : Multiset Block

def Census.total (c : Census) : Multiset Block :=
  c.queued + c.sending + c.lent + c.blob + c.assembled + c.reported + c.held

namespace Session

variable {queueDepth eventDepth : Nat} {s : Session queueDepth eventDepth}
  {f : Framer queueDepth eventDepth}

def census (s : Session queueDepth eventDepth) : Census where
  queued := (s.framer.queue.toList.map fun o => o.packet.handles).sum
  sending := s.framer.transmission.handles
  lent := (s.station.channel.outstanding.map Write.block : List Block)
  blob := s.framer.receiver.phase.handles
  assembled := (s.framer.receiver.packet.map Packet.handles).getD 0
  reported := (s.framer.reporter.events.toList.map LinkEvent.handles).sum
  held := s.station.held

theorem assembled_handles (r : Receiver) :
    r.assembled.handles = (r.packet.map Packet.handles).getD 0 := by
  rw [Receiver.assembled]
  cases r.packet with
  | none => exact Packet.handles_empty
  | some p => rfl

theorem Sound.counts (hs : s.Sound) : s.framer.pool.Sound s.census.total := by
  have htotal : s.framer.handles + Framer.lent s.station.channel.outstanding + s.station.held =
      s.census.total := by
    simp only [Census.total, census, Framer.handles, Framer.outbound, Framer.lent,
      Receiver.handles, Reporter.handles, assembled_handles]
    abel
  have hpool := hs.framer.pool
  rw [hs.ordered_nil, List.append_nil] at hpool
  exact hpool.cast htotal

/-- Nothing is under way, and the application and its event queue hold no block. -/
structure Quiet (s : Session queueDepth eventDepth) : Prop where
  pending : s.framer.pending = 0
  outstanding : s.station.channel.outstanding = []
  rxState : s.framer.rxState = .expectHeader ∨ s.framer.rxState = .discard
  packet : s.framer.receiver.packet = none
  events : ∀ event ∈ s.framer.reporter.events.toList, event.blocks = []
  held : s.station.held = []

theorem Quiet.census_total (hs : s.Quiet) : s.census.total = 0 := by
  have hpending := hs.pending
  rw [Framer.pending, Nat.add_eq_zero_iff] at hpending
  obtain ⟨hlength, htransmission⟩ := hpending
  have hqueued : s.census.queued = 0 := by
    rw [← BoundedQueue.length_toList, List.length_eq_zero_iff] at hlength
    rw [census, hlength, List.map_nil, List.sum_nil]
  have hsending : s.census.sending = 0 := by
    show s.framer.transmission.handles = 0
    cases ht : s.framer.transmission with
    | idle => rfl
    | cancelled => rfl
    | sending o segments expected => simp [ht] at htransmission
  have hlent : s.census.lent = 0 := by
    rw [census, hs.outstanding]
    rfl
  have hblob : s.census.blob = 0 := by
    have hrx := hs.rxState
    show s.framer.receiver.phase.handles = 0
    rw [Framer.rxState, Receiver.state] at hrx
    cases hphase : s.framer.receiver.phase with
    | header received => rfl
    | discard => rfl
    | payload block header filled => simp [hphase] at hrx
  have hassembled : s.census.assembled = 0 := by
    rw [census, hs.packet]
    rfl
  have hreported : s.census.reported = 0 := by
    refine List.sum_eq_zero fun handles hmem => ?_
    obtain ⟨event, hevent, rfl⟩ := List.mem_map.1 hmem
    rw [← event.coe_blocks, hs.events event hevent]
    rfl
  have hheld : s.census.held = 0 := by
    rw [census, hs.held]
    rfl
  rw [Census.total, hqueued, hsending, hlent, hblob, hassembled, hreported, hheld]
  rfl

/-- However the application and the channel act, the pool counts the handles to each slot that the
census lists, and when nothing is under way and nobody holds a block, every slot is free. -/
theorem run_start_conserves {config : Framer.Config} {classes : List (Nat × Nat)} {pool : Pool}
    (hpool : Pool.ofClasses classes = .ok pool) (hclasses : ∀ c ∈ classes, 1 ≤ c.1 ∧ c.2 ≤ 255)
    (hf : Framer.ofConfig config pool = .ok f) (actions : List Action) :
    ∃ s, (start f).run actions = .ok s ∧
      (∀ b, (s.framer.pool.refCount b).toNat = s.census.total.count b) ∧
      (s.Quiet → ∀ bucket ∈ s.framer.pool.classes, bucket.freeCount = bucket.slots.size) := by
  obtain ⟨s, hrun, hs, -⟩ :=
    (sound_start (Pool.sound_of_ofClasses hpool hclasses) hf).run_follows actions
  refine ⟨s, hrun, hs.counts.refCount_eq, fun hquiet bucket hclass => ?_⟩
  have hunheld : s.framer.pool.Sound 0 := hquiet.census_total ▸ hs.counts
  exact hunheld.freeCount_of_unheld hclass

/-- A framer with two blocks, for one packet and the blob that carries it. -/
def pairFramer : Framer 1 1 :=
  { config := { maxPayload := 4, maxPacket := 8 }, pool := ⟨#[.fresh 16 2]⟩
    receiver := { maxPayload := 4, maxLength := 8 } }

/-- A packet takes one block and its blob the other, so that an incoming blob finds none. -/
def crowdedActions : List Action :=
  [.enable, .deed (.allocate 2), .deed (.write ⟨0, 0⟩ 0 [7, 8]),
    .send {} { chunks := [⟨⟨0, 0⟩, 0, 2⟩], length := 2 }, .receive [0, 1]]

theorem crowdedActions_conserves :
    (∃ s, (start pairFramer).run crowdedActions = .ok s ∧ s.census.total = {⟨0, 0⟩, ⟨0, 1⟩} ∧
      ∀ b, (s.framer.pool.refCount b).toNat = s.census.total.count b) ∧
    ∃ s, (start pairFramer).run (crowdedActions ++ [.complete (.written 8)]) = .ok s ∧ s.Quiet ∧
      ∀ bucket ∈ s.framer.pool.classes, bucket.freeCount = bucket.slots.size := by
  have hpool : Pool.ofClasses [(16, 2)] = .ok ⟨#[.fresh 16 2]⟩ := rfl
  have hf : Framer.ofConfig pairFramer.config ⟨#[.fresh 16 2]⟩ = .ok pairFramer := rfl
  constructor
  · obtain ⟨s, hrun, hcounts, -⟩ := run_start_conserves hpool (by decide) hf crowdedActions
    have hvalue : ((start pairFramer).run crowdedActions).toOption.map (fun s =>
        decide (s.census.total = {⟨0, 0⟩, ⟨0, 1⟩})) = some true := by
      decide +kernel
    rw [hrun] at hvalue
    exact ⟨s, hrun, of_decide_eq_true (Option.some.inj hvalue), hcounts⟩
  · obtain ⟨s, hrun, -, hfree⟩ :=
      run_start_conserves hpool (by decide) hf (crowdedActions ++ [.complete (.written 8)])
    have hvalue : ((start pairFramer).run (crowdedActions ++ [.complete (.written 8)])).toOption.map
        (fun s => decide (s.framer.pending = 0 ∧ s.station.channel.outstanding = [] ∧
          (s.framer.rxState = .expectHeader ∨ s.framer.rxState = .discard) ∧
          s.framer.receiver.packet = none ∧
          (∀ event ∈ s.framer.reporter.events.toList, event.blocks = []) ∧
          s.station.held = [])) = some true := by
      decide +kernel
    rw [hrun] at hvalue
    obtain ⟨hpending, hout, hrx, hpacket, hevents, hheld⟩ :=
      of_decide_eq_true (Option.some.inj hvalue)
    have hquiet : s.Quiet := ⟨hpending, hout, hrx, hpacket, hevents, hheld⟩
    exact ⟨s, hrun, hquiet, hfree hquiet⟩

end Session

end DockLink
