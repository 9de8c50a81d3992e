import DockLink.Proofs.Transfer.Delivery
import DockLink.Proofs.Transfer.Gate

/-!
# Blocks that a framer asks for

A framer asks for a block when it starts a packet and when the header of a blob is complete. Events
tell of missing memory exactly if the pool had no room for a block at such a moment. The block for a
content type does not count: a packet that finds none is not accepted.
-/

namespace DockLink

open Reassembly

variable {queueDepth eventDepth : Nat}

/-! ## Memory as the events tell of it -/

namespace Reporter

variable {depth : Nat} {r r' : Reporter depth}

/-- No event tells of missing memory. -/
def InMemory (r : Reporter depth) : Prop := ∀ event ∈ r.record, event.error? ≠ some .outOfMemory

theorem inMemory_board (r : Reporter depth) (pool : Pool) :
    (r.board pool).InMemory ↔ r.InMemory := by
  show (∀ event ∈ r.record.map LinkEvent.bare, event.error? ≠ some .outOfMemory) ↔ _
  rw [List.forall_mem_map]
  simp only [LinkEvent.error?_bare]
  rfl

theorem inMemory_of_record (told : List LinkEvent) (hrecord : r'.record = told ++ r.record)
    (htold : ∀ event ∈ told, event.error? ≠ some .outOfMemory) : r'.InMemory ↔ r.InMemory := by
  rw [InMemory, hrecord, List.forall_mem_append]
  exact and_iff_right htold

end Reporter

namespace Framer

variable {f f' f₁ : Framer queueDepth eventDepth} {owed : List Write} {rest handles : Multiset Block}
  {block : Block} {o : Outgoing}

def InMemory (f : Framer queueDepth eventDepth) : Prop := f.reporter.InMemory

theorem inMemory_giveUp (f : Framer queueDepth eventDepth) (o : Outgoing) {error : LinkError}
    (he : error ≠ .outOfMemory) : (f.giveUp o error).InMemory ↔ f.InMemory := by
  refine Reporter.inMemory_of_record [.sendFailed o.ticket error] (record_giveUp f o error) ?_
  rw [List.forall_mem_singleton]
  exact fun h => he (Option.some.inj h)

theorem inMemory_emit (f : Framer queueDepth eventDepth) (ticket : Ticket) :
    (f.emit (.sent ticket)).InMemory ↔ f.InMemory := by
  refine Reporter.inMemory_of_record [.sent ticket]
    (Reporter.emit_spares f.reporter f.pool (.sent ticket)).1 ?_
  rw [List.forall_mem_singleton]
  nofun

/-- What the send path reports stays on record. -/
theorem Sends.inMemory_before (h : f.Sends f') (hmem : f'.InMemory) : f.InMemory := by
  obtain ⟨told, hrecord, -⟩ := h.told
  intro event hevent
  exact hmem event (hrecord ▸ List.mem_append_right told hevent)

/-! ## Packets that are started -/

/-- The size of the block for the blobs of a packet. -/
def blobSize (f : Framer queueDepth eventDepth) (o : Outgoing) : Nat :=
  Segments.maxBlobLength { length := o.packet.length, maxPayload := f.config.maxPayload }

/-- The block for the blobs of the next packet, if one can be started. If the pool has room for it,
no other packet is tried. -/
def startDemand? (f : Framer queueDepth eventDepth) : Option Demand :=
  match f.transmission, f.queue.pop? with
  | .idle, some (outgoing, _) => some { pool := f.pool, size := f.blobSize outgoing }
  | _, _ => none

def takeBackDemand? (f : Framer queueDepth eventDepth) (block : Block) : Option Demand :=
  (f.releaseBlock block).startDemand?

def proceedDemand? (f : Framer queueDepth eventDepth) (outgoing : Outgoing) (segments : Segments)
    (block : Block) : Option Demand :=
  match segments.next f.pool outgoing.packet block with
  | .ok (none, pool) => ({ f with pool }.releasePacket outgoing.packet).takeBackDemand? block
  | _ => none

/-- The block for the blobs of the packet that is started when a write is completed. What is reported
before that takes nothing from the pool. -/
def completeDemand? (f : Framer queueDepth eventDepth) (block : Block) (result : WriteResult) :
    Option Demand :=
  let idle := { f with transmission := .idle }
  match f.transmission with
  | .sending outgoing segments expected =>
    if result = .written expected then idle.proceedDemand? outgoing segments block
    else (idle.releasePacket outgoing.packet).takeBackDemand? block
  | _ => idle.takeBackDemand? block

def enqueueDemand? (f : Framer queueDepth eventDepth) (packet : Packet) : Option Demand :=
  match f.queue.push { ticket := f.nextTicket, packet } with
  | .error _ => none
  | .ok queue => startDemand? { f with queue }

/-- The block for the blobs of a packet that is sent, if it is started at once. -/
def sendDemand? (f : Framer queueDepth eventDepth) (contentType : ContentType) (packet : Packet) :
    Option Demand :=
  if packet.length > f.config.maxPacket then none
  else if !f.enabled then none
  else
    match tag f.config f.pool contentType packet with
    | .ok (.ok tagged, pool) => enqueueDemand? { f with pool } tagged
    | _ => none

theorem startDemand?_congr (hconfig : f'.config = f.config) (hpool : f'.pool = f.pool)
    (hqueue : f'.queue = f.queue) (htransmission : f'.transmission = f.transmission) :
    f'.startDemand? = f.startDemand? := by
  simp only [startDemand?, blobSize, hconfig, hpool, hqueue, htransmission]

theorem pool_emit (f : Framer queueDepth eventDepth) (ticket : Ticket) :
    (f.emit (.sent ticket)).pool = f.pool := by
  simp only [emit, Reporter.emit]
  split
  · rfl
  · rfl

theorem pool_giveUp (f : Framer queueDepth eventDepth) (o : Outgoing) (error : LinkError) :
    (f.giveUp o error).pool = o.packet.release f.pool := by
  simp only [giveUp, Reporter.sendFailed, Reporter.emit, releasePacket]
  split
  · rfl
  · rfl

/-- A packet is started exactly if the pool has room for its blobs. Otherwise there is an event that
tells of missing memory. -/
theorem start_cases (hpool : f.pool.Sound handles) (h : f.start o = .ok f₁) :
    f.pool.HasRoom (f.blobSize o) ∧ f₁.reporter = f.reporter ∧ f₁.transmission ≠ .idle ∨
      ¬f.pool.HasRoom (f.blobSize o) ∧ ¬f₁.InMemory := by
  unfold start at h
  simp only at h
  split at h
  · rename_i e ha
    cases h
    refine Or.inr ⟨hpool.not_hasRoom_of_error ha, fun hmem => ?_⟩
    exact hmem (.sendFailed o.ticket .outOfMemory)
      ((record_giveUp _ o .outOfMemory) ▸ List.mem_cons_self ..) rfl
  · rename_i fresh q ha
    obtain ⟨⟨next, q₁⟩, -, h⟩ := exists_of_bind_eq_ok h
    cases next with
    | none => cases h
    | some next =>
        cases h
        exact Or.inl ⟨(hpool.allocate_isOk_iff _).1 ⟨_, _, ha⟩, rfl, nofun⟩

theorem inMemory_startUpTo (hpool : f.pool.Sound handles) {n : Nat} (hn : f.queue.length ≤ n)
    (h : startUpTo n f = .ok f') : f'.InMemory ↔ f.InMemory ∧ ∀ d ∈ f.startDemand?, d.Met := by
  cases n with
  | zero =>
      have hpop : f.queue.pop? = none := by
        rw [BoundedQueue.pop?_eq_none_iff_toList]
        exact List.length_eq_zero_iff.1 (f.queue.length_toList.trans (Nat.le_zero.1 hn))
      cases h
      refine Demand.iff_of_none ?_ Iff.rfl
      unfold startDemand?
      rw [hpop]
      split
      · rename_i hsome
        cases hsome
      · rfl
  | succ n =>
      simp only [startUpTo] at h
      split at h
      · rename_i outgoing queue hidle hpop
        obtain ⟨f₁, hstart, hrest⟩ := exists_of_bind_eq_ok h
        have hdemand : f.startDemand? = some { pool := f.pool, size := f.blobSize outgoing } := by
          simp only [startDemand?, hidle, hpop]
        have hmet : (∀ d ∈ f.startDemand?, d.Met) ↔ f.pool.HasRoom (f.blobSize outgoing) := by
          rw [hdemand]
          exact ⟨fun hall => hall _ rfl, fun hroom d hd => Option.some.inj hd ▸ hroom⟩
        rw [hmet]
        -- With room the packet is on the channel, and no other one is tried.
        obtain ⟨hroom, hreporter, hbusy⟩ | ⟨hnone, hmiss⟩ := start_cases (f := { f with queue }) hpool hstart
        · have hroom' : f.pool.HasRoom (f.blobSize outgoing) := hroom
          rw [startUpTo_of_busy n hbusy] at hrest
          cases hrest
          rw [and_iff_left hroom', InMemory, hreporter]
          rfl
        · exact iff_of_false (fun hmem => hmiss ((sends_startUpTo n hrest).inMemory_before hmem))
            fun hboth => hnone hboth.2
      · rename_i hother
        cases h
        refine Demand.iff_of_none ?_ Iff.rfl
        unfold startDemand?
        split
        · rename_i outgoing queue hidle hpop
          exact absurd hpop (hother outgoing queue hidle)
        · rfl

theorem inMemory_startNext (hpool : f.pool.Sound handles) (h : f.startNext = .ok f') :
    f'.InMemory ↔ f.InMemory ∧ ∀ d ∈ f.startDemand?, d.Met :=
  inMemory_startUpTo hpool (Nat.le_refl _) h

theorem Sound.inMemory_takeBack (h : f.Sound owed (block ::ₘ rest))
    (hback : f.takeBack block = (f', none)) :
    f'.InMemory ↔ f.InMemory ∧ ∀ d ∈ f.takeBackDemand? block, d.Met := by
  unfold Framer.takeBack at hback
  simp only at hback
  split at hback
  · rename_i hnext
    cases hback
    exact inMemory_startNext h.releaseBlock.sound.pool hnext
  · cases hback

theorem Sound.inMemory_end (h : f.Sound owed (block ::ₘ (o.packet.handles + rest)))
    (hback : ((f.emit (.sent o.ticket)).releasePacket o.packet).takeBack block = (f', none)) :
    f'.InMemory ↔ f.InMemory ∧ ∀ d ∈ (f.releasePacket o.packet).takeBackDemand? block, d.Met := by
  have hsent := (h.emitSent o.ticket).sound.cast (Multiset.add_cons _ _ _).symm
  have hmem := hsent.releasePacket.sound.inMemory_takeBack hback
  have hsame : ((f.emit (.sent o.ticket)).releasePacket o.packet).takeBackDemand? block =
      (f.releasePacket o.packet).takeBackDemand? block :=
    startDemand?_congr rfl
      (congrArg (fun pool => (o.packet.release pool).release block) (pool_emit f o.ticket)) rfl rfl
  rw [hsame] at hmem
  exact hmem.trans (and_congr_left' (inMemory_emit f o.ticket))

theorem Sound.inMemory_abort (h : f.Sound owed (block ::ₘ (o.packet.handles + rest)))
    (hback : (f.giveUp o .channelAborted).takeBack block = (f', none)) :
    f'.InMemory ↔ f.InMemory ∧ ∀ d ∈ (f.releasePacket o.packet).takeBackDemand? block, d.Met := by
  have hgive := (h.cast (Multiset.add_cons _ _ _).symm).giveUp .channelAborted
  have hmem := hgive.sound.inMemory_takeBack hback
  have hsame : (f.giveUp o .channelAborted).takeBackDemand? block =
      (f.releasePacket o.packet).takeBackDemand? block :=
    startDemand?_congr rfl (congrArg (Pool.release · block) (pool_giveUp f o .channelAborted)) rfl rfl
  rw [hsame] at hmem
  exact hmem.trans (and_congr_left' (inMemory_giveUp f o nofun))

theorem Sound.inMemory_proceed {segments : Segments}
    (h : f.Sound owed (block ::ₘ (o.packet.handles + rest)))
    (hproceed : f.proceed o segments block = (f', none)) :
    f'.InMemory ↔ f.InMemory ∧ ∀ d ∈ f.proceedDemand? o segments block, d.Met := by
  unfold Framer.proceed at hproceed
  simp only at hproceed
  split at hproceed
  · cases hproceed
  · rename_i hnext
    have hnext' : segments.next f.pool o.packet block = _ := hnext
    cases hproceed
    refine Demand.iff_of_none ?_ Iff.rfl
    simp only [proceedDemand?, hnext']
  · rename_i q hnext
    have hnext' : segments.next f.pool o.packet block = _ := hnext
    obtain rfl := Segments.eq_of_next_none hnext'
    have hcount := (h.count fun s => { s with blobsSent := s.blobsSent + 1 }).sound.count fun s =>
      { s with packetsSent := s.packetsSent + 1 }
    simp only [proceedDemand?, hnext']
    exact hcount.sound.inMemory_end hproceed

theorem Sound.inMemory_complete {w : Write} (h : f.Sound (w :: owed) rest) (hnone : f.ordered = [])
    {result : WriteResult} (hcomplete : f.writeComplete w.block result = (f', none)) :
    f'.InMemory ↔ f.InMemory ∧ ∀ d ∈ f.completeDemand? w.block result, d.Met := by
  have hland := h.land hnone
  cases ht : f.transmission with
  | idle =>
      have hvalid := h.transmission
      rw [ht] at hvalid
      cases hvalid
  | cancelled =>
      rw [ht] at hland
      simp only [Framer.writeComplete, ht] at hcomplete
      simp only [completeDemand?, ht]
      exact Sound.inMemory_takeBack (hland.cast (congrArg (w.block ::ₘ ·) (zero_add rest))) hcomplete
  | sending o segments expected =>
      rw [ht] at hland
      simp only [Framer.writeComplete, ht] at hcomplete
      simp only [completeDemand?, ht]
      by_cases hresult : result = .written expected
      · rw [if_pos hresult] at hcomplete ⊢
        exact Sound.inMemory_proceed hland hcomplete
      · rw [if_neg hresult] at hcomplete ⊢
        exact (hland.count fun s => { s with aborts := s.aborts + 1 }).sound.inMemory_abort
          hcomplete

theorem inMemory_enqueue {packet : Packet} {answer : Except (SendError × Packet) Ticket}
    (hpool : f.pool.Sound handles) (henabled : f.enabled = true)
    (h : f.enqueue packet = .ok (answer, f')) :
    f'.InMemory ↔ f.InMemory ∧ ∀ d ∈ f.enqueueDemand? packet, d.Met := by
  cases hpush : f.queue.push { ticket := f.nextTicket, packet } with
  | error rejected =>
      have hfull := ((BoundedQueue.push_eq_error_iff _ _ _).1 hpush).1
      rw [enqueue_of_full henabled hfull] at h
      obtain ⟨⟨packet', q⟩, -, h⟩ := exists_of_bind_eq_ok h
      cases h
      refine Demand.iff_of_none ?_ Iff.rfl
      simp only [enqueueDemand?, hpush]
  | ok queue =>
      rw [enqueue_of_push henabled hpush] at h
      obtain ⟨f₁, hnext, h⟩ := exists_of_bind_eq_ok h
      cases h
      simp only [enqueueDemand?, hpush]
      exact inMemory_startNext
        (f := { f with queue, nextTicket := ⟨f.nextTicket.number + 1⟩ }) hpool hnext

theorem Sound.inMemory_send {packet : Packet} (h : f.Sound owed (packet.handles + rest))
    (hv : packet.Valid f.pool) {contentType : ContentType}
    {answer : Except (SendError × Packet) Ticket}
    (hsend : f.send contentType packet = .ok (answer, f')) :
    f'.InMemory ↔ f.InMemory ∧ ∀ d ∈ f.sendDemand? contentType packet, d.Met := by
  unfold Framer.send at hsend
  split at hsend
  · rename_i hlong
    cases hsend
    exact Demand.iff_of_none (if_pos hlong) Iff.rfl
  · rename_i hlong
    split at hsend
    · rename_i hclosed
      cases hsend
      exact Demand.iff_of_none ((if_neg hlong).trans (if_pos hclosed)) Iff.rfl
    · rename_i hopen
      have hpool : f.pool.Sound (packet.handles + (f.handles + lent (owed ++ f.ordered) + rest)) :=
        h.pool.cast (by abel)
      obtain ⟨error, q, htag, -⟩ | ⟨tagged, q, htag, htagged⟩ := tag_spec f.config contentType hv hpool
      · rw [htag] at hsend
        cases hsend
        refine Demand.iff_of_none ?_ Iff.rfl
        rw [sendDemand?, if_neg hlong, if_neg hopen, htag]
      · rw [htag] at hsend
        have hdemand : f.sendDemand? contentType packet = enqueueDemand? { f with pool := q } tagged := by
          rw [sendDemand?, if_neg hlong, if_neg hopen, htag]
        rw [hdemand]
        exact inMemory_enqueue (f := { f with pool := q }) htagged.sound (by simpa using hopen) hsend

/-! ## Everything else -/

/-- The blocks for the blobs whose headers some more bytes complete. -/
def receiveDemands (f : Framer queueDepth eventDepth) (data : Bytes) : List Demand :=
  if f.enabled then
    Receiver.demands (deliver f.config) data.length f.receiver f.pool f.reporter data
  else []

theorem Sound.inMemory_received (h : f.Sound owed rest) {data : Bytes}
    (hreceived : f.received data = .ok f') :
    f'.InMemory ↔ f.InMemory ∧ ∀ d ∈ f.receiveDemands data, d.Met := by
  unfold Framer.received at hreceived
  split at hreceived
  · rename_i henabled
    obtain ⟨receiver, q, reporter, hpush, -, -, -, -, -, seen, -, hview, hspares⟩ :=
      Receiver.push_spec (sink f.config) data h.receiver h.reporter h.forSink
    have hboard : reporter.board q =
        seen.foldl (Board.absorb f.config) (f.reporter.board f.pool) := hview
    rw [hpush] at hreceived
    cases hreceived
    rw [receiveDemands, if_pos henabled, ← hspares]
    show reporter.InMemory ↔ f.reporter.InMemory ∧ _
    rw [← reporter.inMemory_board q, hboard, Board.inMemory_absorbAll, Reporter.inMemory_board]
  · rename_i hclosed
    cases hreceived
    rw [receiveDemands, if_neg hclosed]
    exact (and_iff_left nofun).symm

theorem inMemory_transactionEnd (f : Framer queueDepth eventDepth) :
    f.transactionEnd.InMemory ↔ f.InMemory := by
  unfold Framer.transactionEnd Receiver.transactionEnd
  by_cases hcut : f.receiver.isCut
  · simp only [if_pos hcut]
    split
    · refine Reporter.inMemory_of_record (r := f.reporter)
        [.receiveFailed .channelAborted (saturatingSucc f.reporter.faults)]
        (Reporter.emit_spares _ _ _).1 ?_
      rw [List.forall_mem_singleton]
      nofun
    · rfl
  · simp only [if_neg hcut]
    rfl

theorem inMemory_enable (f : Framer queueDepth eventDepth) : f.enable.InMemory ↔ f.InMemory := by
  unfold Framer.enable
  split
  · rfl
  · rfl

theorem inMemory_disable (f : Framer queueDepth eventDepth) : f.disable.InMemory ↔ f.InMemory := by
  by_cases henabled : f.enabled
  · refine Reporter.inMemory_of_record _ (record_disable henabled) ?_
    intro event hevent
    obtain ⟨ticket, -, rfl⟩ := List.mem_map.1 (List.mem_reverse.1 hevent)
    nofun
  · have hsame : f.disable = f := if_neg henabled
    rw [hsame]

theorem inMemory_popEvent {event : LinkEvent} (h : f.popEvent? = some (event, f')) :
    f'.InMemory ↔ f.InMemory := by
  obtain ⟨⟨_, events⟩, -, heq⟩ := Option.map_eq_some_iff.1 h
  cases heq
  rfl

end Framer

namespace Session

variable {s s' : Session queueDepth eventDepth} {a : Action}

/-- The blocks that the framer asks for in an action, each with the pool at that moment. -/
def demands (s : Session queueDepth eventDepth) : Action → List Demand
  | .send contentType packet =>
    if packet.Valid s.framer.pool ∧ packet.handles ≤ (s.station.held : Multiset Block) then
      (s.framer.sendDemand? contentType packet).toList
    else []
  | .receive data => s.framer.receiveDemands data
  | .complete result =>
    match s.station.channel.outstanding with
    | [] => []
    | w :: _ => (s.framer.completeDemand? w.block result).toList
  | _ => []

theorem Sound.inMemory_send (hs : s.Sound) {contentType : ContentType} {packet : Packet}
    (hstep : s.step (.send contentType packet) = .ok s') :
    s'.framer.InMemory ↔
      s.framer.InMemory ∧ ∀ d ∈ s.demands (.send contentType packet), d.Met := by
  simp only [step] at hstep
  split at hstep
  · rename_i hown
    obtain ⟨others, hothers⟩ := Multiset.le_iff_exists_add.1 hown.2
    obtain ⟨⟨answer, f⟩, hsend, hstep⟩ := exists_of_bind_eq_ok hstep
    have hmem := (hs.framer.cast hothers).inMemory_send hown.1 hsend
    rw [demands, if_pos hown, Demand.forall_mem_toList]
    cases answer with
    | ok ticket =>
        cases hstep
        exact hmem
    | error rejected =>
        cases hstep
        exact hmem
  · rename_i hforeign
    cases hstep
    exact Demand.iff_of_nil (if_neg hforeign) Iff.rfl

theorem Sound.inMemory_complete (hs : s.Sound) {result : WriteResult}
    (hstep : s.step (.complete result) = .ok s') :
    s'.framer.InMemory ↔ s.framer.InMemory ∧ ∀ d ∈ s.demands (.complete result), d.Met := by
  cases hout : s.station.channel.outstanding with
  | nil =>
      simp only [step, Station.complete, Station.takeWrite?, hout, Option.map_none] at hstep
      cases hstep
      refine Demand.iff_of_nil ?_ Iff.rfl
      simp only [demands, hout]
  | cons w owed =>
      have hframer := hs.framer
      rw [hout] at hframer
      obtain ⟨f, misses, hcomplete, -⟩ := hframer.writeComplete hs.ordered_nil result
      have hreport : Endpoint.writeComplete s.station.endpoint w.block result = (f, none) := hcomplete
      simp only [step, Station.complete, Station.takeWrite?, hout, Option.map_some,
        Station.report, hreport] at hstep
      cases hstep
      simp only [demands, hout]
      rw [Demand.forall_mem_toList]
      have hmem := hframer.inMemory_complete hs.ordered_nil hcomplete
      exact hmem

/-- An action is reported to want memory exactly if the pool had no room for a block when the framer
asked for it. -/
theorem Sound.inMemory_step (hs : s.Sound) (hstep : s.step a = .ok s') :
    s'.framer.InMemory ↔ s.framer.InMemory ∧ ∀ d ∈ s.demands a, d.Met := by
  cases a with
  | enable =>
      cases hstep
      exact Demand.iff_of_nil rfl s.framer.inMemory_enable
  | disable =>
      cases hstep
      exact Demand.iff_of_nil rfl s.framer.inMemory_disable
  | send contentType packet => exact hs.inMemory_send hstep
  | receive data =>
      obtain ⟨f, hreceived, -⟩ := hs.framer.received data
      obtain rfl := Except.ok.inj (hstep.symm.trans (step_receive hreceived))
      have hmem := hs.framer.inMemory_received hreceived
      exact hmem
  | transactionEnd =>
      cases hstep
      exact Demand.iff_of_nil rfl s.framer.inMemory_transactionEnd
  | pop =>
      simp only [step] at hstep
      split at hstep
      · cases hstep
        exact Demand.iff_of_nil rfl Iff.rfl
      · rename_i hpop
        cases hstep
        exact Demand.iff_of_nil rfl (Framer.inMemory_popEvent hpop)
  | complete result => exact hs.inMemory_complete hstep
  | deed deed =>
      cases hstep
      exact Demand.iff_of_nil rfl Iff.rfl

theorem inMemory_course (s : Session queueDepth eventDepth) :
    s.course.outline.board.InMemory ↔ s.framer.InMemory :=
  s.framer.reporter.inMemory_board s.framer.pool

end Session

end DockLink
