import DockLink.Proofs.Transfer.Sending

/-!
# The operations of a framer

Sending, receiving, opening and closing keep the framer sound and do to the outline what the
outline's step of the same name does. A packet that is not accepted comes back as it was.
-/

namespace DockLink.Framer

variable {queueDepth eventDepth : Nat} {f : Framer queueDepth eventDepth} {owed : List Write}
  {rest others : Multiset Block} {pool q : Pool}

/-! ## The content type in front of a packet -/

/-- The bytes in front of a packet on the wire. -/
def Config.tagBytes (c : Config) (contentType : ContentType) : Bytes :=
  if c.tagged then Bytes.ofWord16 contentType.code else []

theorem Config.length_tagBytes (c : Config) (contentType : ContentType) :
    (c.tagBytes contentType).length = c.tagLength := by
  unfold tagBytes tagLength
  split
  · rfl
  · rfl

/-- A packet on the wire, and the way back to the packet that was handed in. -/
structure Tagged (config : Config) (pool : Pool) (others : Multiset Block)
    (contentType : ContentType) (packet tagged : Packet) (q : Pool) : Prop where
  sound : q.Sound (tagged.handles + others)
  keeps : pool.Keeps q others
  valid : tagged.Valid q
  content_eq : tagged.content q = config.tagBytes contentType ++ packet.content pool
  length_eq : tagged.length = packet.length + config.tagLength
  back : ∃ q', tagged.advance q config.tagLength = .ok (packet, q') ∧
    q'.Sound (packet.handles + others) ∧ pool.Keeps q' (packet.handles + others)

theorem tag_untagged {config : Config} (htag : config.tagged = false) (contentType : ContentType)
    {packet : Packet} (hv : packet.Valid pool) (hs : pool.Sound (packet.handles + others)) :
    tag config pool contentType packet = .ok (.ok packet, pool) ∧
      Tagged config pool others contentType packet packet pool := by
  have hzero : config.tagLength = 0 := by simp [Config.tagLength, htag]
  refine ⟨by rw [tag, if_pos hzero], hs, Pool.Keeps.refl _ _, hv, ?_, ?_, pool, ?_, hs,
    Pool.Keeps.refl _ _⟩
  · simp [Config.tagBytes, htag]
  · rw [hzero]
    rfl
  · rw [hzero, Packet.advance_zero]

theorem tag_tagged {config : Config} (htag : config.tagged = true) (contentType : ContentType)
    {packet : Packet} (hv : packet.Valid pool) (hs : pool.Sound (packet.handles + others)) :
    (∃ error q, tag config pool contentType packet = .ok (.error error, q) ∧
        q.Sound (packet.handles + others) ∧ pool.Keeps q (packet.handles + others)) ∨
      ∃ tagged q, tag config pool contentType packet = .ok (.ok tagged, q) ∧
        Tagged config pool others contentType packet tagged q := by
  have htwo : config.tagLength = 2 := by simp [Config.tagLength, htag, Config.contentTypeLength]
  have hbytes : config.tagBytes contentType = Bytes.ofWord16 contentType.code := by
    simp [Config.tagBytes, htag]
  have hlen : (Bytes.ofWord16 contentType.code).length = 2 := rfl
  cases ha : pool.allocate config.tagLength with
  | error e =>
      refine Or.inl ⟨.outOfMemory, pool, ?_, hs, Pool.Keeps.refl _ _⟩
      rw [tag, if_neg (by omega), ha]
  | ok found =>
      obtain ⟨block, q⟩ := found
      obtain ⟨hnew, hq, hkeeps, hcap⟩ := hs.allocate ha
      rw [htwo] at hcap
      have hfits : 0 + (Bytes.ofWord16 contentType.code).length ≤ q.capacity block := by omega
      obtain ⟨q', hw, hq', hkeeps', hblock⟩ := hq.write hnew hfits
      have hkept := hkeeps.trans hkeeps'
      have hcap' : 2 ≤ q'.capacity block := by rwa [hkeeps'.capacity_eq]
      have hchunk : Chunk.of q' block 0 config.tagLength = .ok ⟨block, 0, config.tagLength⟩ := by
        rw [Chunk.of, htwo, if_pos ⟨Nat.zero_le _, hcap'⟩]
      have hvalid : Chunk.Valid q' ⟨block, 0, config.tagLength⟩ := by
        rw [htwo]
        exact ⟨Nat.succ_pos _, hcap'⟩
      obtain ⟨hback, hbackkeeps⟩ := hq'.release
      have hreturn := hkept.trans hbackkeeps
      by_cases hroom : packet.chunks.length < Packet.maxChunks
      · obtain ⟨tagged, hpush, hvalid', hhandles, hcontent, htagged⟩ :=
          (hv.keeps hkept).pushFront hvalid hroom
        refine Or.inr ⟨tagged, q', ?_, ?_⟩
        · rw [tag, if_neg (by omega), ha]
          simp only [hw, hchunk, bind, Except.bind]
          rw [hpush]
          rfl
        · have hfront : Chunk.bytes q' ⟨block, 0, config.tagLength⟩ = config.tagBytes contentType := by
            rw [Chunk.bytes_eq, htwo, hbytes, hblock, List.take_zero, List.nil_append, List.drop_zero]
            exact List.take_left' hlen
          exact {
            sound := hq'.cast (by rw [hhandles, Multiset.cons_add])
            keeps := hkept.mono fun b hb => Multiset.mem_add.2 (Or.inr hb)
            valid := hvalid'
            content_eq := by
              rw [hcontent, hfront, Packet.content_keeps hkept fun b hb =>
                Multiset.mem_add.2 (Or.inl hb)]
            length_eq := by
              rw [htagged]
              rfl
            back := by
              refine ⟨q'.release block, ?_, hback, hreturn⟩
              rw [htagged]
              exact Packet.advance_pushFront (Nat.pos_iff_ne_zero.1 hvalid.length_pos) }
      · refine Or.inl ⟨.tooLong, q'.release block, ?_, hback, hreturn⟩
        rw [tag, if_neg (by omega), ha]
        simp only [hw, hchunk, bind, Except.bind]
        rw [Packet.pushFront_eq_error (Nat.pos_iff_ne_zero.1 hvalid.length_pos) (Nat.not_lt.1 hroom)]
        rfl

theorem tag_spec (config : Config) (contentType : ContentType) {packet : Packet}
    (hv : packet.Valid pool) (hs : pool.Sound (packet.handles + others)) :
    (∃ error q, tag config pool contentType packet = .ok (.error error, q) ∧
        q.Sound (packet.handles + others) ∧ pool.Keeps q (packet.handles + others)) ∨
      ∃ tagged q, tag config pool contentType packet = .ok (.ok tagged, q) ∧
        Tagged config pool others contentType packet tagged q := by
  cases htag : config.tagged with
  | false => exact Or.inr ⟨packet, pool, tag_untagged htag contentType hv hs⟩
  | true => exact tag_tagged htag contentType hv hs

/-! ## Sending -/

theorem enqueue_of_closed (henabled : f.enabled = false) (packet : Packet) :
    f.enqueue packet = f.turnBack .disconnected packet := by
  rw [Framer.enqueue, henabled]
  rfl

theorem enqueue_of_full (henabled : f.enabled = true) (hfull : f.queue.toList.length = queueDepth)
    (packet : Packet) : f.enqueue packet = f.turnBack .queueFull packet := by
  rw [Framer.enqueue, henabled, (BoundedQueue.push_eq_error_iff _ _ _).2 ⟨hfull, rfl⟩]
  rfl

theorem enqueue_of_push (henabled : f.enabled = true) {packet : Packet}
    {queue : BoundedQueue Outgoing queueDepth}
    (hpush : f.queue.push { ticket := f.nextTicket, packet } = .ok queue) :
    f.enqueue packet =
      ({ f with queue, nextTicket := ⟨f.nextTicket.number + 1⟩ }.startNext >>= fun f' =>
        .ok (.ok f.nextTicket, f')) := by
  simp only [Framer.enqueue, hpush]
  rw [if_neg (by rw [henabled]; decide)]
  rfl

theorem Sound.enqueue (h : f.Sound owed rest) {o : Outgoing}
    {queue : BoundedQueue Outgoing queueDepth} (hp : f.queue.push o = .ok queue)
    (ho : o.Valid f.config f.pool) (hrest : rest = o.packet.handles + others) (ticket : Ticket) :
    Sound { f with queue, nextTicket := ticket } owed others ∧
      outline { f with queue, nextTicket := ticket } =
        { f.outline with
          waiting := f.outline.waiting ++ [o.parcel f.pool], nextTicket := ticket } := by
  have hlist := BoundedQueue.toList_of_push hp
  constructor
  · exact {
      check := h.check
      limits := h.limits
      pool := h.pool.cast (by
        show f.handles + lent (owed ++ f.ordered) + rest =
          handles { f with queue, nextTicket := ticket } + lent (owed ++ f.ordered) + others
        simp only [handles, outbound, hlist, hrest, List.map_append, List.map_cons, List.map_nil,
          List.sum_append, List.sum_cons, List.sum_nil]
        abel)
      queue := by
        intro o' ho'
        rcases List.mem_append.1 (hlist ▸ ho') with hmem | hmem
        · exact h.queue o' hmem
        · rw [List.mem_singleton.1 hmem]
          exact ho
      transmission := h.transmission
      receiver := h.receiver
      reporter := h.reporter }
  · simp only [outline, hlist, List.map_append, List.map_cons, List.map_nil]
    rfl

/-- A packet on the wire is queued, or taken back if the queue is full. -/
theorem Sound.enqueueTagged {packet tagged : Packet} {contentType : ContentType}
    (h : f.Sound owed (packet.handles + rest)) (henabled : f.enabled = true)
    (hlen : packet.length ≤ f.config.maxPacket)
    (htagged : Tagged f.config f.pool (f.handles + lent (owed ++ f.ordered) + rest) contentType
      packet tagged q) :
    (∃ f', Framer.enqueue { f with pool := q } tagged = .ok (.error (.queueFull, packet), f') ∧
        f.Goes owed (packet.handles + rest) f.outline f') ∨
      ∃ f' misses, Framer.enqueue { f with pool := q } tagged = .ok (.ok f.nextTicket, f') ∧
        f.Goes owed rest
          (Outline.fill misses (f.outline.accept
            (f.config.tagBytes contentType ++ packet.content f.pool))) f' := by
  have hin : ∀ b ∈ f.handles + lent (owed ++ f.ordered),
      b ∈ f.handles + lent (owed ++ f.ordered) + rest :=
    fun b hb => Multiset.mem_add.2 (Or.inl hb)
  cases hp : f.queue.push { ticket := f.nextTicket, packet := tagged } with
  | error rejected =>
      obtain ⟨hfull, -⟩ := (BoundedQueue.push_eq_error_iff _ _ _).1 hp
      obtain ⟨q', hadvance, hq', hkeeps'⟩ := htagged.back
      have hq'' : q'.Sound (f.handles + lent (owed ++ f.ordered) + (packet.handles + rest)) :=
        hq'.cast (by abel)
      obtain ⟨hsound, houtline⟩ := h.withPool hq'' (hkeeps'.mono fun b hb =>
        Multiset.mem_add.2 (Or.inr (hin b hb)))
      refine Or.inl ⟨{ f with pool := q' }, ?_, hsound, hkeeps'.mono ?_, houtline⟩
      · rw [enqueue_of_full (f := { f with pool := q }) henabled hfull, turnBack, hadvance]
        rfl
      · intro b hb
        simp only [Multiset.mem_add] at hb ⊢
        exact hb.imp_right Or.inr
  | ok queue =>
      have hq : q.Sound (f.handles + lent (owed ++ f.ordered) + (tagged.handles + rest)) :=
        htagged.sound.cast (by abel)
      obtain ⟨hsound, houtline⟩ := h.withPool hq (htagged.keeps.mono hin)
      have ho : Outgoing.Valid f.config q { ticket := f.nextTicket, packet := tagged } := by
        refine ⟨htagged.valid, ?_⟩
        rw [htagged.length_eq]
        exact Nat.add_le_add_right hlen _
      obtain ⟨hsound', houtline'⟩ :=
        hsound.enqueue hp ho rfl ⟨f.nextTicket.number + 1⟩
      obtain ⟨f', misses, hnext, hgoes⟩ := hsound'.startNext
      refine Or.inr ⟨f', misses, ?_, hgoes.sound, ?_, ?_⟩
      · rw [enqueue_of_push (f := { f with pool := q }) henabled hp, hnext]
        rfl
      · exact (htagged.keeps.mono fun b hb => Multiset.mem_add.2 (Or.inr hb)).trans hgoes.keeps
      · rw [hgoes.outline_eq, houtline', houtline]
        simp only [Outline.accept, Outgoing.parcel, htagged.content_eq]
        rfl

/-- A packet is accepted under the next ticket, or comes back as it was and leaves the framer as it
was. -/
theorem Sound.send {packet : Packet} (h : f.Sound owed (packet.handles + rest))
    (hv : packet.Valid f.pool) (contentType : ContentType) :
    (∃ error f', f.send contentType packet = .ok (.error (error, packet), f') ∧
        f.Goes owed (packet.handles + rest) f.outline f') ∨
      ∃ f' misses, f.send contentType packet = .ok (.ok f.nextTicket, f') ∧ f.enabled ∧
        packet.length ≤ f.config.maxPacket ∧
        f.Goes owed rest
          (Outline.fill misses (f.outline.accept
            (f.config.tagBytes contentType ++ packet.content f.pool))) f' := by
  by_cases hlong : packet.length > f.config.maxPacket
  · exact Or.inl ⟨.tooLong, f, by rw [Framer.send, if_pos hlong]; rfl, h, Pool.Keeps.refl _ _, rfl⟩
  · cases henabled : f.enabled with
    | false =>
        refine Or.inl ⟨.disconnected, f, ?_, h, Pool.Keeps.refl _ _, rfl⟩
        rw [Framer.send, if_neg hlong]
        simp only [henabled]
        rfl
    | true =>
        have hpool : f.pool.Sound (packet.handles + (f.handles + lent (owed ++ f.ordered) + rest)) :=
          h.pool.cast (by abel)
        have hall : ∀ b ∈ f.handles + lent (owed ++ f.ordered),
            b ∈ packet.handles + (f.handles + lent (owed ++ f.ordered) + rest) :=
          fun b hb => Multiset.mem_add.2 (Or.inr (Multiset.mem_add.2 (Or.inl hb)))
        have hback : ∀ b ∈ packet.handles + rest,
            b ∈ packet.handles + (f.handles + lent (owed ++ f.ordered) + rest) := by
          intro b hb
          simp only [Multiset.mem_add] at hb ⊢
          exact hb.imp_right Or.inr
        obtain ⟨error, q, htag, hq, hkeeps⟩ | ⟨tagged, q, htag, htagged⟩ :=
          tag_spec f.config contentType hv hpool
        · have hq' : q.Sound
              (f.handles + lent (owed ++ f.ordered) + (packet.handles + rest)) := hq.cast (by abel)
          obtain ⟨hsound, houtline⟩ := h.withPool hq' (hkeeps.mono hall)
          refine Or.inl ⟨error, { f with pool := q }, ?_, hsound, hkeeps.mono hback, houtline⟩
          rw [Framer.send, if_neg hlong]
          simp only [henabled, htag]
          rfl
        · have hsend : f.send contentType packet = Framer.enqueue { f with pool := q } tagged := by
            rw [Framer.send, if_neg hlong]
            simp only [henabled, htag]
            rfl
          obtain ⟨f', henqueue, hgoes⟩ | ⟨f', misses, henqueue, hgoes⟩ :=
            h.enqueueTagged henabled (Nat.not_lt.1 hlong) htagged
          · exact Or.inl ⟨.queueFull, f', hsend.trans henqueue, hgoes⟩
          · exact Or.inr ⟨f', misses, hsend.trans henqueue, rfl, Nat.not_lt.1 hlong, hgoes⟩

/-! ## Receiving -/

theorem Sound.forSink (h : f.Sound owed rest) :
    f.pool.Sound (f.receiver.handles + ((sink f.config).handles f.reporter +
      (f.outbound + lent (owed ++ f.ordered) + rest))) :=
  h.pool.cast (by
    show f.outbound + f.receiver.handles + f.reporter.handles + _ + _ = _ + (f.reporter.handles + _)
    abel)

/-- Bytes are read as the decoder reads them, and reported as the board takes them. -/
theorem Sound.received (h : f.Sound owed rest) (data : Bytes) :
    ∃ f', f.received data = .ok f' ∧
      if f.enabled then
        ∃ seen reading, f.outline.reading.Takes f.outline.limits data seen reading ∧
          f.Goes owed rest (f.outline.absorb seen reading) f'
      else f' = f := by
  cases henabled : f.enabled with
  | false => exact ⟨f, by simp only [Framer.received, henabled]; rfl, rfl⟩
  | true =>
      obtain ⟨receiver, q, reporter, hpush, hsound, hkeeps, hreceiver, hreporter, hlimits, seen,
        htakes, hboard, -⟩ := Receiver.push_spec (sink f.config) data h.receiver h.reporter h.forSink
      have hq : q.Sound (f.outbound + receiver.handles + reporter.handles +
          lent (owed ++ f.ordered) + rest) := hsound.cast (by
        show _ + (reporter.handles + _) = _
        abel)
      obtain ⟨hsound', houtline⟩ := h.inbound hlimits hreceiver hreporter hq
        (hkeeps.mono fun b hb => Multiset.mem_add.2 (Or.inl hb))
      refine ⟨{ f with receiver, pool := q, reporter }, ?_, ?_⟩
      · simp only [Framer.received, henabled, hpush]
        rfl
      · rw [if_pos rfl]
        rw [h.limits] at htakes
        refine ⟨seen, receiver.reading q, htakes, hsound',
          hkeeps.mono fun b hb => Multiset.mem_add.2 (Or.inr hb), ?_⟩
        rw [houtline]
        exact congrArg (fun board => { f.outline with reading := receiver.reading q, board }) hboard

theorem Sound.forReceiver (h : f.Sound owed rest) :
    f.pool.Sound (f.receiver.handles +
      (f.outbound + f.reporter.handles + (lent (owed ++ f.ordered) + rest))) :=
  h.pool.cast (by
    rw [handles]
    abel)

theorem Sound.resetReceiver (h : f.Sound owed rest) :
    f.Goes owed rest { f.outline with reading := .expect {} [] } f.resetReceiver := by
  obtain ⟨hsound, hkeeps, hreceiver⟩ := Receiver.reset_spec h.forReceiver
  have hvalid : (f.receiver.reset f.pool).1.Valid (f.receiver.reset f.pool).2 := by
    rw [hreceiver]
    exact Receiver.Valid.idle f.receiver.limits _
  have hnone : (f.receiver.reset f.pool).1.handles = 0 := by
    rw [hreceiver]
    rfl
  have hreading : (f.receiver.reset f.pool).1.reading (f.receiver.reset f.pool).2 =
      .expect {} [] := by
    rw [hreceiver]
    rfl
  have hgoes := h.receives (by rw [hreceiver]; rfl) hvalid
    (hsound.cast (by rw [hnone, zero_add])) hkeeps
  rw [hreading] at hgoes
  exact hgoes

theorem Sound.transactionEnd (h : f.Sound owed rest) :
    f.Goes owed rest f.outline.transactionEnd f.transactionEnd := by
  obtain ⟨error, receiver, q, hend, hsound, hkeeps, hvalid, hlimits, hfinish, hreading⟩ :=
    Receiver.transactionEnd_spec h.receiver h.forReceiver
  have hgoes := h.receives hlimits hvalid hsound hkeeps
  rw [hreading] at hgoes
  have hfinish' : f.outline.reading.finish =
      (error.toList.map .fault, receiver.soFar q) := hfinish
  cases error with
  | none =>
      have houtline : f.outline.transactionEnd =
          { f.outline with reading := .expect (receiver.soFar q) [] } := by
        rw [Outline.transactionEnd, hfinish']
        rfl
      have hframer : f.transactionEnd = { f with pool := q, receiver } := by
        simp only [Framer.transactionEnd, hend]
      rw [houtline, hframer]
      exact hgoes
  | some error =>
      obtain rfl := Decoder.State.eq_channelAborted_of_finish hfinish
      cases henabled : f.enabled with
      | false =>
          have houtline : f.outline.transactionEnd =
              { f.outline with reading := .expect (receiver.soFar q) [] } := by
            simp only [Outline.transactionEnd, hfinish']
            exact if_neg (by rw [outline, henabled]; exact Bool.false_ne_true)
          have hframer : f.transactionEnd = { f with pool := q, receiver } := by
            simp only [Framer.transactionEnd, hend, henabled]
            rfl
          rw [houtline, hframer]
          exact hgoes
      | true =>
          have houtline : f.outline.transactionEnd =
              { f.outline with
                reading := .expect (receiver.soFar q) []
                board := f.outline.board.receiveFailed .channelAborted } := by
            simp only [Outline.transactionEnd, hfinish']
            exact if_pos henabled
          have hframer : f.transactionEnd = { f with
              receiver
              pool := (f.reporter.receiveFailed q .channelAborted).2
              reporter := (f.reporter.receiveFailed q .channelAborted).1 } := by
            simp only [Framer.transactionEnd, hend, henabled]
            rfl
          have hpool : q.Sound (f.reporter.handles + (f.outbound + receiver.handles +
              lent (owed ++ f.ordered) + rest)) := hsound.cast (by abel)
          have hposts := hgoes.sound.posts (Reporter.receiveFailed_posts hgoes.sound.reporter hpool
            .channelAborted)
          rw [hgoes.outline_eq] at hposts
          rw [houtline, hframer]
          have hboard : f.reporter.board q = f.outline.board := congrArg Outline.board hgoes.outline_eq
          have hgoes' := hgoes.trans hposts fun _ hb => hb
          rw [hboard] at hgoes'
          exact hgoes'

theorem Sound.popEvent {event : LinkEvent} {f' : Framer queueDepth eventDepth}
    (h : f.Sound owed rest) (hp : f.popEvent? = some (event, f')) :
    f'.Sound owed (event.handles + rest) ∧ f'.orders = f.orders ∧
      ∃ ring, f.outline.board.ring = event.report f.pool :: ring ∧
        f'.outline = { f.outline with board := { f.outline.board with ring } } := by
  obtain ⟨⟨popped, events⟩, hpop, heq⟩ := Option.map_eq_some_iff.1 hp
  cases heq
  obtain ⟨hlist, -⟩ := BoundedQueue.toList_of_pop? hpop
  refine ⟨?_, rfl, events.toList.map (LinkEvent.report f.pool), ?_, rfl⟩
  · exact {
      check := h.check
      limits := h.limits
      pool := h.pool.cast (by
        show _ = _ + lent (owed ++ f.ordered) + _
        simp only [handles, Reporter.handles, hlist, List.map_cons, List.sum_cons]
        show _ = f.outbound + _ + _ + _ + _
        abel)
      queue := h.queue
      transmission := h.transmission
      receiver := h.receiver
      reporter := fun e he => h.reporter e (hlist ▸ List.mem_cons_of_mem _ he) }
  · simp only [outline, Reporter.board, hlist, List.map_cons]

/-! ## Opening and closing -/

theorem ordered_order {o : Order} (h : o.write? = none) (f : Framer queueDepth eventDepth) :
    (f.order o).ordered = f.ordered := by
  simp [ordered, order, h]

theorem Sound.order (h : f.Sound owed rest) {o : Order} (ho : o.write? = none) :
    f.Goes owed rest f.outline (f.order o) := by
  have hordered := ordered_order ho f
  refine ⟨?_, Pool.Keeps.refl _ _, ?_⟩
  · exact {
      check := h.check
      limits := h.limits
      pool := h.pool.cast (by rw [hordered]; rfl)
      queue := h.queue
      transmission := by
        rw [hordered]
        exact h.transmission
      receiver := h.receiver
      reporter := h.reporter }
  · rw [outline, hordered]
    rfl

theorem Sound.enable (h : f.Sound owed rest) :
    f.Goes owed rest f.outline.enable f.enable := by
  cases henabled : f.enabled with
  | true =>
      have houtline : f.outline.enable = f.outline := if_pos henabled
      have hframer : f.enable = f := if_pos henabled
      rw [houtline, hframer]
      exact ⟨h, Pool.Keeps.refl _ _, rfl⟩
  | false =>
      have hreset := h.resetReceiver
      have hsound : Sound { f.resetReceiver with
          reporter := { f.resetReceiver.reporter with faults := 0 }, enabled := true } owed rest :=
        ⟨hreset.sound.check, hreset.sound.limits, hreset.sound.pool, hreset.sound.queue,
          hreset.sound.transmission, hreset.sound.receiver, hreset.sound.reporter⟩
      have horder := hsound.order (o := .enable) rfl
      have houtline : f.outline.enable = { f.outline with
          reading := .expect {} [], board := { f.outline.board with faults := 0 }
          enabled := true } := if_neg (by rw [outline, henabled]; exact Bool.false_ne_true)
      have hframer : f.enable = Framer.order { f.resetReceiver with
          reporter := { f.resetReceiver.reporter with faults := 0 }, enabled := true } .enable :=
        if_neg (by rw [henabled]; exact Bool.false_ne_true)
      rw [houtline, hframer]
      refine ⟨horder.sound, hreset.keeps.trans horder.keeps, horder.outline_eq.trans ?_⟩
      have hboth := hreset.outline_eq
      have : outline { f.resetReceiver with
          reporter := { f.resetReceiver.reporter with faults := 0 }, enabled := true } =
          { f.resetReceiver.outline with
            board := { f.resetReceiver.outline.board with faults := 0 }, enabled := true } := rfl
      rw [this, hboth]

/-- The packet on the channel is given up, its block still out. -/
theorem Sound.cancel (h : f.Sound owed rest) : f.Goes owed rest f.outline.cancel f.cancel := by
  cases ht : f.transmission with
  | idle =>
      have houtline : f.outline.cancel = f.outline := by
        simp only [Outline.cancel, outline, ht, Transmission.flight]
      have hframer : f.cancel = f := by simp only [Framer.cancel, ht]
      rw [houtline, hframer]
      exact ⟨h, Pool.Keeps.refl _ _, rfl⟩
  | cancelled =>
      have houtline : f.outline.cancel = f.outline := by
        simp only [Outline.cancel, outline, ht, Transmission.flight]
      have hframer : f.cancel = f := by simp only [Framer.cancel, ht]
      rw [houtline, hframer]
      exact ⟨h, Pool.Keeps.refl _ _, rfl⟩
  | sending o segments expected =>
      have hvalid := h.transmission
      rw [ht] at hvalid
      obtain ⟨-, -, -, w, hw, -⟩ := hvalid
      have hsound : Sound { f with transmission := .cancelled } owed (o.packet.handles + rest) := {
        check := h.check
        limits := h.limits
        pool := h.pool.cast (by
          show _ = _ + lent (owed ++ f.ordered) + _
          simp only [handles, outbound, ht, Transmission.handles]
          abel)
        queue := h.queue
        transmission := ⟨w, hw⟩
        receiver := h.receiver
        reporter := h.reporter }
      have hgive := hsound.giveUp .disconnected
      have houtline : f.outline.cancel =
          Outline.giveUp { f.outline with flight := .cancelled } (o.parcel f.pool) .disconnected := by
        simp only [Outline.cancel, outline, ht, Transmission.flight]
      have hframer : f.cancel = Framer.giveUp { f with transmission := .cancelled } o .disconnected := by
        simp only [Framer.cancel, ht]
      rw [houtline, hframer]
      exact ⟨hgive.sound, hgive.keeps, hgive.outline_eq⟩

theorem Sound.flushUpTo (n : Nat) {f : Framer queueDepth eventDepth} (h : f.Sound owed rest)
    (hn : f.queue.length ≤ n) : f.Goes owed rest f.outline.flush (Framer.flushUpTo n f) := by
  induction n generalizing f with
  | zero =>
      have hlist : f.queue.toList = [] :=
        List.length_eq_zero_iff.1 (f.queue.length_toList.trans (Nat.le_zero.1 hn))
      have houtline : f.outline.flush = f.outline := by
        simp only [Outline.flush, outline, hlist, List.map_nil, List.foldl_nil]
      rw [houtline]
      exact ⟨h, Pool.Keeps.refl _ _, rfl⟩
  | succ n ih =>
      cases hp : f.queue.pop? with
      | none =>
          have hlist := (BoundedQueue.pop?_eq_none_iff_toList _).1 hp
          have houtline : f.outline.flush = f.outline := by
            simp only [Outline.flush, outline, hlist, List.map_nil, List.foldl_nil]
          have hframer : Framer.flushUpTo (n + 1) f = f := by simp only [Framer.flushUpTo, hp]
          rw [houtline, hframer]
          exact ⟨h, Pool.Keeps.refl _ _, rfl⟩
      | some popped =>
          obtain ⟨o, queue⟩ := popped
          obtain ⟨-, hsound, hwaiting⟩ := h.dequeue hp
          obtain ⟨-, hlength⟩ := BoundedQueue.toList_of_pop? hp
          have hgive := hsound.giveUp .disconnected
          have hflush := ih hgive.sound (by
            show queue.length ≤ n
            omega)
          rw [hgive.outline_eq] at hflush
          have hframer : Framer.flushUpTo (n + 1) f =
              Framer.flushUpTo n (Framer.giveUp { f with queue } o .disconnected) := by
            simp only [Framer.flushUpTo, hp]
          have houtline : f.outline.flush =
              ((outline { f with queue }).giveUp (o.parcel f.pool) .disconnected).flush := by
            rw [Outline.flush, hwaiting, List.foldl_cons]
            rfl
          rw [houtline, hframer]
          exact ⟨hflush.sound, hgive.keeps.trans hflush.keeps, hflush.outline_eq⟩

theorem Sound.disable (h : f.Sound owed rest) :
    f.Goes owed rest f.outline.disable f.disable := by
  cases henabled : f.enabled with
  | false =>
      have houtline : f.outline.disable = f.outline :=
        if_neg (by rw [outline, henabled]; exact Bool.false_ne_true)
      have hframer : f.disable = f := if_neg (by rw [henabled]; exact Bool.false_ne_true)
      rw [houtline, hframer]
      exact ⟨h, Pool.Keeps.refl _ _, rfl⟩
  | true =>
      have hclosed : Sound { f with enabled := false } owed rest :=
        ⟨h.check, h.limits, h.pool, h.queue, h.transmission, h.receiver, h.reporter⟩
      have hrx := hclosed.order (o := .abortRx) rfl
      have htx := hrx.sound.order (o := .abortTx) rfl
      have hoff := htx.sound.order (o := .disable) rfl
      have hreset := hoff.sound.resetReceiver
      have hcancel := hreset.sound.cancel
      have hflush := hcancel.sound.flushUpTo _ (Nat.le_refl _)
      have hkeeps := ((((hrx.keeps.trans htx.keeps).trans hoff.keeps).trans hreset.keeps).trans
        hcancel.keeps).trans hflush.keeps
      have houtline : f.outline.disable =
          Outline.flush (Outline.cancel
            { f.outline with enabled := false, reading := .expect {} [] }) := if_pos henabled
      have hframer : f.disable =
          (((((Framer.order { f with enabled := false } .abortRx).order .abortTx).order
            .disable).resetReceiver).cancel).flush := if_pos henabled
      rw [houtline, hframer]
      refine ⟨hflush.sound, hkeeps, hflush.outline_eq.trans ?_⟩
      rw [hcancel.outline_eq, hreset.outline_eq, hoff.outline_eq, htx.outline_eq, hrx.outline_eq]
      rfl

end DockLink.Framer
