import DockLink.Proofs.Transfer.Footing

/-!
# Packets on their way out

Each step of the send path keeps the framer sound and does to the outline what the outline's step of
the same name does. No step faults: the buffer of a write comes back as the only handle to its block
and is large enough for every blob of its packet.
-/

namespace DockLink.Framer

variable {queueDepth eventDepth : Nat} {f : Framer queueDepth eventDepth} {owed : List Write}
  {rest : Multiset Block} {q : Pool}

/-! ## Giving back and giving up -/

theorem Sound.count (h : f.Sound owed rest) (g : Statistics → Statistics) :
    f.Goes owed rest (f.outline.count g) (f.count g) :=
  ⟨⟨h.check, h.limits, h.pool, h.queue, h.transmission, h.receiver, h.reporter⟩,
    Pool.Keeps.refl _ _, rfl⟩

theorem Sound.releasePacket {packet : Packet} (h : f.Sound owed (packet.handles + rest)) :
    f.Goes owed rest f.outline (f.releasePacket packet) := by
  have hpool : f.pool.Sound
      (packet.handles + (f.handles + lent (owed ++ f.ordered) + rest)) := h.pool.cast (by abel)
  obtain ⟨hsound, hkeeps⟩ := Packet.sound_release hpool
  obtain ⟨hsound', houtline⟩ :=
    h.withPool hsound (hkeeps.mono fun b hb => Multiset.mem_add.2 (Or.inl hb))
  exact ⟨hsound', hkeeps.mono fun b hb => Multiset.mem_add.2 (Or.inr hb), houtline⟩

theorem Sound.releaseBlock {block : Block} (h : f.Sound owed (block ::ₘ rest)) :
    f.Goes owed rest f.outline (f.releaseBlock block) := by
  have hpool : f.pool.Sound (block ::ₘ (f.handles + lent (owed ++ f.ordered) + rest)) :=
    h.pool.cast (Multiset.add_cons _ _ _)
  obtain ⟨hsound, hkeeps⟩ := hpool.release
  obtain ⟨hsound', houtline⟩ :=
    h.withPool hsound (hkeeps.mono fun b hb => Multiset.mem_add.2 (Or.inl hb))
  exact ⟨hsound', hkeeps.mono fun b hb => Multiset.mem_add.2 (Or.inr hb), houtline⟩

theorem Sound.giveUp {o : Outgoing} (h : f.Sound owed (o.packet.handles + rest))
    (error : LinkError) :
    f.Goes owed rest (f.outline.giveUp (o.parcel f.pool) error) (f.giveUp o error) := by
  have hpool : f.pool.Sound (f.reporter.handles + (f.outbound + f.receiver.handles +
      lent (owed ++ f.ordered) + (o.packet.handles + rest))) := h.pool.cast (by
    simp only [handles]
    abel)
  have hposts := h.posts (Reporter.sendFailed_posts h.reporter hpool o.ticket error)
  have hrelease := hposts.sound.releasePacket
  rw [hposts.outline_eq] at hrelease
  exact hposts.trans hrelease fun b hb => Multiset.mem_add.2 (Or.inr hb)

theorem Sound.dequeue (h : f.Sound owed rest) {o : Outgoing}
    {queue : BoundedQueue Outgoing queueDepth} (hp : f.queue.pop? = some (o, queue)) :
    o.Valid f.config f.pool ∧ Sound { f with queue } owed (o.packet.handles + rest) ∧
      f.outline.waiting = o.parcel f.pool :: (outline { f with queue }).waiting := by
  obtain ⟨hlist, -⟩ := BoundedQueue.toList_of_pop? hp
  refine ⟨h.queue o (hlist ▸ List.mem_cons_self ..), ?_, ?_⟩
  · exact {
      check := h.check
      limits := h.limits
      pool := h.pool.cast (by
        simp only [handles, outbound, hlist, List.map_cons, List.sum_cons]
        show _ = _ + lent (owed ++ f.ordered) + _
        abel)
      queue := fun o' ho' => h.queue o' (hlist ▸ List.mem_cons_of_mem _ ho')
      transmission := h.transmission
      receiver := h.receiver
      reporter := h.reporter }
  · simp only [outline, hlist, List.map_cons]

/-! ## Blobs on the channel -/

theorem Sound.owes_nil (h : f.Sound owed rest) (hidle : f.transmission = .idle) :
    owed = [] ∧ f.ordered = [] := by
  have hvalid := h.transmission
  rw [hidle] at hvalid
  exact List.append_eq_nil_iff.1 hvalid

theorem ordered_order_write (f : Framer queueDepth eventDepth) (w : Write) :
    (f.order (.write w)).ordered = f.ordered ++ [w] := by
  simp [ordered, order, Order.write?]

theorem Sound.putNext {block : Block} {o : Outgoing} {segments : Segments}
    (h : f.Sound owed (block ::ₘ (o.packet.handles + rest))) (hidle : f.transmission = .idle)
    (ho : o.Valid f.config f.pool) (hsegments : segments.Valid o.packet)
    (hmax : segments.maxPayload = f.config.maxPayload)
    (hcap : segments.maxBlobLength ≤ f.pool.capacity block) (hone : f.pool.refCount block = 1)
    (hf : segments.finished = false) :
    ∃ q blob, segments.next f.pool o.packet block = .ok (some (blob.length, segments.tail), q) ∧
      segments.left (o.packet.content f.pool) =
        blob :: segments.tail.left (o.packet.content f.pool) ∧
      f.Goes owed rest
        (f.outline.put (o.parcel f.pool) blob (segments.tail.left (o.packet.content f.pool)))
        ({ f with pool := q, transmission := .sending o segments.tail blob.length }.order
          (.write { block, offset := 0, length := blob.length })) := by
  obtain ⟨rfl, hordered⟩ := h.owes_nil hidle
  have hpool : f.pool.Sound (block ::ₘ
      (f.handles + lent ([] ++ f.ordered) + (o.packet.handles + rest))) :=
    h.pool.cast (Multiset.add_cons _ _ _)
  have hnot := hpool.unshared_iff.1 hone
  obtain ⟨q, blob, hnext, hq, hkeeps, hbytes, hleft⟩ :=
    hsegments.next_spec ho.packet hpool hnot hcap hf
  obtain ⟨hsound, houtline⟩ := h.withPool (hq.cast (Multiset.add_cons _ _ _).symm)
    (hkeeps.mono fun b hb => Multiset.mem_add.2 (Or.inl hb))
  have hcontent : o.packet.content q = o.packet.content f.pool :=
    Packet.content_keeps hkeeps fun b hb =>
      Multiset.mem_add.2 (Or.inr (Multiset.mem_add.2 (Or.inl hb)))
  refine ⟨q, blob, hnext, hleft, ?_, ?_, ?_⟩
  · have hlent : lent ([] ++ ({ f with
        pool := q
        transmission := .sending o segments.tail blob.length }.order
          (.write { block, offset := 0, length := blob.length })).ordered) = {block} := by
      rw [ordered_order_write, List.nil_append]
      show lent (f.ordered ++ _) = _
      rw [hordered]
      rfl
    exact {
      check := hsound.check
      limits := hsound.limits
      pool := hsound.pool.cast (by
        rw [hlent]
        show f.handles + lent ([] ++ f.ordered) + _ = _
        rw [hordered]
        simp only [handles, outbound, order, hidle, Transmission.handles, lent, List.append_nil,
          List.map_nil, Multiset.coe_nil, ← Multiset.singleton_add]
        abel)
      queue := hsound.queue
      transmission := by
        refine ⟨ho.keeps hkeeps, hsegments.tail, hmax, { block, offset := 0, length := blob.length },
          ?_, hq.unshared_iff.2 hnot, ?_, rfl, rfl⟩
        · rw [ordered_order_write]
          show [] ++ (f.ordered ++ _) = _
          rw [hordered]
          rfl
        · exact hcap.trans_eq (hkeeps.capacity_eq block).symm
      receiver := hsound.receiver
      reporter := hsound.reporter }
  · exact hkeeps.mono fun b hb => Multiset.mem_add.2 (Or.inr (Multiset.mem_add.2 (Or.inr hb)))
  · have hwrite : Write.bytes q { block, offset := 0, length := blob.length } = blob := by
      rw [Write.bytes, Pool.read_eq, List.drop_zero, Nat.zero_add]
      exact hbytes
    rw [← houtline]
    simp only [outline, Outline.put, Outline.mk.injEq]
    refine ⟨rfl, rfl, rfl, rfl, ?_, rfl, rfl, ?_⟩
    · show Transmission.flight q (.sending o segments.tail blob.length) = _
      simp only [Transmission.flight, Outgoing.parcel, hcontent]
    · rw [ordered_order_write, List.map_append, List.map_cons, List.map_nil]
      show List.map _ f.ordered ++ [Write.bytes q _] = _
      rw [hwrite]
      rfl

theorem Transmission.flight_eq_idle_iff {t : Transmission} {pool : Pool} :
    t.flight pool = .idle ↔ t = .idle := by
  cases t with
  | idle => exact ⟨fun _ => rfl, fun _ => rfl⟩
  | cancelled => exact ⟨nofun, nofun⟩
  | sending o segments expected => exact ⟨nofun, nofun⟩

theorem startUpTo_of_busy (n : Nat) (h : f.transmission ≠ .idle) : startUpTo n f = .ok f := by
  cases n with
  | zero => rfl
  | succ n =>
      cases ht : f.transmission with
      | idle => exact absurd ht h
      | cancelled => simp only [startUpTo, ht]
      | sending o segments expected => simp only [startUpTo, ht]

theorem startUpTo_of_pop (n : Nat) {f₁ : Framer queueDepth eventDepth} {o : Outgoing}
    {queue : BoundedQueue Outgoing queueDepth} (hidle : f.transmission = .idle)
    (hp : f.queue.pop? = some (o, queue)) (hstart : Framer.start { f with queue } o = .ok f₁) :
    startUpTo (n + 1) f = startUpTo n f₁ := by
  obtain ⟨config, pool, enabled, nextTicket, items, transmission, receiver, reporter, orders⟩ := f
  subst hidle
  simp only [startUpTo, hp] at hstart ⊢
  rw [hstart]
  rfl

/-- A packet is started, or given up if there is no block for its blobs. -/
theorem Sound.start {o : Outgoing} (h : f.Sound owed (o.packet.handles + rest))
    (hidle : f.transmission = .idle) (ho : o.Valid f.config f.pool) :
    ∃ f', f.start o = .ok f' ∧
      (f'.transmission = .idle ∧ f'.queue = f.queue ∧
          f.Goes owed rest (f.outline.miss (o.parcel f.pool)) f' ∨
        f'.transmission ≠ .idle ∧ f.Goes owed rest (f.outline.start (o.parcel f.pool)) f') := by
  obtain ⟨hpayload, -⟩ := Config.of_check h.check
  have hsegments : Segments.Valid
      { length := o.packet.length, maxPayload := f.config.maxPayload } o.packet :=
    ⟨rfl, Nat.zero_le _, hpayload.1, hpayload.2⟩
  cases ha : f.pool.allocate
      (Segments.maxBlobLength { length := o.packet.length, maxPayload := f.config.maxPayload }) with
  | error e =>
      refine ⟨(f.count fun s => { s with allocationFailures := s.allocationFailures + 1 }).giveUp o
        .outOfMemory, by simp only [Framer.start, ha], Or.inl ⟨hidle, rfl, ?_⟩⟩
      have hcount := h.count fun s => { s with allocationFailures := s.allocationFailures + 1 }
      have hgive := hcount.sound.giveUp .outOfMemory
      rw [hcount.outline_eq] at hgive
      exact hcount.trans hgive fun b hb => Multiset.mem_add.2 (Or.inr hb)
  | ok found =>
      obtain ⟨block, q⟩ := found
      obtain ⟨hnew, hq, hkeeps, hcap⟩ := h.pool.allocate ha
      obtain ⟨hsound, houtline⟩ := h.withPool (hq.cast (Multiset.add_cons _ _ _).symm)
        (hkeeps.mono fun b hb => Multiset.mem_add.2 (Or.inl hb))
      have hcontent : o.packet.content q = o.packet.content f.pool :=
        Packet.content_keeps hkeeps fun b hb =>
          Multiset.mem_add.2 (Or.inr (Multiset.mem_add.2 (Or.inl hb)))
      obtain ⟨q', blob, hnext, hleft, hgoes⟩ := hsound.putNext hidle (ho.keeps hkeeps) hsegments rfl
        hcap (hq.unshared_iff.2 hnew) rfl
      have hcut : Blob.cut f.outline.config.maxPayload (o.parcel f.pool).stream =
          blob :: (Segments.tail { length := o.packet.length, maxPayload := f.config.maxPayload }).left
            (o.packet.content f.pool) := by
        rw [← hcontent, ← hleft]
        exact (congrArg (Blob.cut f.config.maxPayload) hcontent).symm
      have hparcel : o.parcel q = o.parcel f.pool := congrArg (Parcel.mk o.ticket) hcontent
      have hrest : ∀ b ∈ rest, b ∈ f.handles + lent (owed ++ f.ordered) + (o.packet.handles + rest) :=
        fun b hb => Multiset.mem_add.2 (Or.inr (Multiset.mem_add.2 (Or.inr hb)))
      simp only [houtline, hparcel, hcontent] at hgoes
      refine ⟨{ f with
          pool := q'
          transmission := .sending o (Segments.tail
            { length := o.packet.length, maxPayload := f.config.maxPayload }) blob.length }.order
          (.write { block, offset := 0, length := blob.length }), ?_, Or.inr ⟨by simp [order], ?_⟩⟩
      · simp only [Framer.start, ha]
        rw [hnext]
        rfl
      · rw [Outline.start, hcut]
        exact ⟨hgoes.sound, (hkeeps.mono hrest).trans hgoes.keeps, hgoes.outline_eq⟩

/-- Packets are started until one is on the channel or none is left. -/
theorem Sound.startUpTo (n : Nat) {f : Framer queueDepth eventDepth} (h : f.Sound owed rest)
    (hn : f.queue.length ≤ n) :
    ∃ f' misses, Framer.startUpTo n f = .ok f' ∧ f.Goes owed rest (f.outline.fill misses) f' := by
  induction n generalizing f with
  | zero =>
      have hempty : f.outline.waiting = [] := by
        have hlist : f.queue.toList = [] :=
          List.length_eq_zero_iff.1 (f.queue.length_toList.trans (Nat.le_zero.1 hn))
        simp only [outline, hlist, List.map_nil]
      refine ⟨f, 0, rfl, h, Pool.Keeps.refl _ _, ?_⟩
      rw [Outline.fill_of_empty hempty]
  | succ n ih =>
      by_cases hidle : f.transmission = .idle
      · cases hp : f.queue.pop? with
        | none =>
            have hempty : f.outline.waiting = [] := by
              simp only [outline, (BoundedQueue.pop?_eq_none_iff_toList _).1 hp, List.map_nil]
            refine ⟨f, 0, ?_, h, Pool.Keeps.refl _ _, ?_⟩
            · simp only [Framer.startUpTo, hidle, hp]
            · rw [Outline.fill_of_empty hempty]
        | some popped =>
            obtain ⟨o, queue⟩ := popped
            obtain ⟨ho, hsound, hwaiting⟩ := h.dequeue hp
            obtain ⟨-, hlength⟩ := BoundedQueue.toList_of_pop? hp
            have hflight : f.outline.flight = .idle := by
              simp only [outline, hidle, Transmission.flight]
            obtain ⟨f₁, hstart, ⟨hidle₁, hqueue₁, hgoes₁⟩ | ⟨hbusy₁, hgoes₁⟩⟩ :=
              hsound.start hidle ho
            · obtain ⟨f₂, misses, hrest, hgoes₂⟩ := ih hgoes₁.sound (by
                rw [hqueue₁]
                show queue.length ≤ n
                omega)
              refine ⟨f₂, misses + 1, ?_, ?_⟩
              · exact (startUpTo_of_pop n hidle hp hstart).trans hrest
              · rw [Outline.fill_succ_cons hflight hwaiting]
                rw [hgoes₁.outline_eq] at hgoes₂
                exact ⟨hgoes₂.sound, hgoes₁.keeps.trans hgoes₂.keeps, hgoes₂.outline_eq⟩
            · refine ⟨f₁, 0, ?_, ?_⟩
              · exact (startUpTo_of_pop n hidle hp hstart).trans (startUpTo_of_busy n hbusy₁)
              · rw [Outline.fill_zero_cons hflight hwaiting]
                exact ⟨hgoes₁.sound, hgoes₁.keeps, hgoes₁.outline_eq⟩
      · refine ⟨f, 0, startUpTo_of_busy _ hidle, h, Pool.Keeps.refl _ _, ?_⟩
        rw [Outline.fill_of_busy]
        intro e
        exact hidle (Transmission.flight_eq_idle_iff.1 e)

theorem Sound.startNext (h : f.Sound owed rest) :
    ∃ f' misses, f.startNext = .ok f' ∧ f.Goes owed rest (f.outline.fill misses) f' :=
  h.startUpTo _ (Nat.le_refl _)

/-! ## Completions -/

theorem Sound.emitSent (h : f.Sound owed rest) (ticket : Ticket) :
    f.Goes owed rest { f.outline with board := f.outline.board.emit (.sent ticket) }
      (f.emit (.sent ticket)) := by
  have hevent : LinkEvent.Valid f.pool (.sent ticket) := trivial
  have hpool : f.pool.Sound (LinkEvent.handles (.sent ticket) + (f.reporter.handles +
      (f.outbound + f.receiver.handles + lent (owed ++ f.ordered) + rest))) := h.pool.cast (by
    show _ = 0 + (f.reporter.handles + _)
    rw [zero_add, handles]
    abel)
  exact h.posts (Reporter.emit_posts h.reporter hevent hpool)

theorem Sound.takeBack {block : Block} (h : f.Sound owed (block ::ₘ rest)) :
    ∃ f' misses, f.takeBack block = (f', none) ∧ f.Goes owed rest (f.outline.fill misses) f' := by
  have hrelease := h.releaseBlock
  obtain ⟨f', misses, hnext, hgoes⟩ := hrelease.sound.startNext
  rw [hrelease.outline_eq] at hgoes
  refine ⟨f', misses, ?_, hrelease.trans hgoes fun _ hb => hb⟩
  simp only [Framer.takeBack, hnext]

/-- The block on the channel comes back. -/
theorem Sound.land {w : Write} (h : f.Sound (w :: owed) rest) (hnone : f.ordered = []) :
    Sound { f with transmission := .idle } owed
      (w.block ::ₘ (f.transmission.handles + rest)) := by
  have hvalid := h.transmission
  rw [hnone, List.append_nil] at hvalid
  have hempty : owed = [] := by
    cases ht : f.transmission with
    | idle => rw [ht] at hvalid; cases hvalid
    | cancelled =>
        rw [ht] at hvalid
        obtain ⟨w', hw⟩ := hvalid
        exact (List.cons.inj hw).2
    | sending o segments expected =>
        rw [ht] at hvalid
        obtain ⟨-, -, -, w', hw, -⟩ := hvalid
        exact (List.cons.inj hw).2
  subst hempty
  have hlent : lent ([w] ++ f.ordered) = {w.block} := by
    rw [hnone]
    rfl
  have hnone' : lent ([] ++ f.ordered) = 0 := by
    rw [hnone]
    rfl
  exact {
    check := h.check
    limits := h.limits
    pool := h.pool.cast (by
      show _ = _ + lent ([] ++ f.ordered) + _
      rw [hlent, hnone']
      simp only [handles, outbound, Transmission.handles, ← Multiset.singleton_add]
      abel)
    queue := h.queue
    transmission := hnone
    receiver := h.receiver
    reporter := h.reporter }

theorem proceed_of_next {block : Block} {o : Outgoing} {segments segments' : Segments} {length : Nat}
    (hnext : segments.next f.pool o.packet block = .ok (some (length, segments'), q)) :
    f.proceed o segments block =
      ({ f.count (fun s => { s with blobsSent := s.blobsSent + 1 }) with
        pool := q, transmission := .sending o segments' length }.order
          (.write { block, offset := 0, length }), none) := by
  unfold Framer.proceed
  simp only [Framer.count, hnext]

theorem proceed_of_finished {block : Block} {o : Outgoing} {segments : Segments}
    (hnext : segments.next f.pool o.packet block = .ok (none, f.pool)) :
    f.proceed o segments block =
      ((((f.count fun s => { s with blobsSent := s.blobsSent + 1 }).count fun s =>
        { s with packetsSent := s.packetsSent + 1 }).emit (.sent o.ticket)).releasePacket
          o.packet).takeBack block := by
  unfold Framer.proceed
  simp only [Framer.count, hnext]

/-- A packet of which a blob is through goes on, or is reported as sent. -/
theorem Sound.proceed {block : Block} {o : Outgoing} {segments : Segments}
    (h : f.Sound owed (block ::ₘ (o.packet.handles + rest))) (hidle : f.transmission = .idle)
    (ho : o.Valid f.config f.pool) (hsegments : segments.Valid o.packet)
    (hmax : segments.maxPayload = f.config.maxPayload)
    (hcap : segments.maxBlobLength ≤ f.pool.capacity block) (hone : f.pool.refCount block = 1) :
    ∃ f' misses, f.proceed o segments block = (f', none) ∧
      f.Goes owed rest (Outline.proceed misses f.outline (o.parcel f.pool)
        (segments.left (o.packet.content f.pool))) f' := by
  have hcount := h.count fun s => { s with blobsSent := s.blobsSent + 1 }
  cases hf : segments.finished with
  | false =>
      obtain ⟨q, blob, hnext, hleft, hgoes⟩ :=
        hcount.sound.putNext hidle ho hsegments hmax hcap hone hf
      refine ⟨_, 0, proceed_of_next hnext, ?_⟩
      have hleft' : segments.left (o.packet.content f.pool) =
          blob :: segments.tail.left (o.packet.content f.pool) := hleft
      rw [hleft']
      exact ⟨hgoes.sound, hgoes.keeps, hgoes.outline_eq⟩
  | true =>
      have hnext : segments.next f.pool o.packet block = .ok (none, f.pool) :=
        Segments.next_of_finished hone hf
      have hleft : segments.left (o.packet.content f.pool) = [] := by
        rw [Segments.left, hf]
        rfl
      have hcount' := hcount.sound.count fun s => { s with packetsSent := s.packetsSent + 1 }
      have hsent := hcount'.sound.emitSent o.ticket
      have hrelease := (hsent.sound.cast (Multiset.add_cons _ _ _).symm).releasePacket
      obtain ⟨f', misses, hback, hgoes⟩ := hrelease.sound.takeBack
      rw [hrelease.outline_eq, hsent.outline_eq, hcount'.outline_eq, hcount.outline_eq] at hgoes
      have hkeeps := ((hcount.keeps.trans hcount'.keeps).trans hsent.keeps).mono
        (fun b hb => Multiset.mem_cons_of_mem (Multiset.mem_add.2 (Or.inr hb)))
      refine ⟨f', misses, (proceed_of_finished hnext).trans hback, hgoes.sound, ?_, ?_⟩
      · exact (hkeeps.trans (hrelease.keeps.mono fun b hb => Multiset.mem_cons_of_mem hb)).trans
          hgoes.keeps
      · rw [hleft, hgoes.outline_eq]
        rfl

/-- A completion never faults. What it does depends on the outline alone, but for the packets that
find no memory when the next one is started. -/
theorem Sound.writeComplete {w : Write} (h : f.Sound (w :: owed) rest) (hnone : f.ordered = [])
    (result : WriteResult) :
    ∃ f' misses, f.writeComplete w.block result = (f', none) ∧
      f.Goes owed rest (f.outline.complete misses result) f' := by
  have hland := h.land hnone
  cases ht : f.transmission with
  | idle =>
      have hvalid := h.transmission
      rw [ht] at hvalid
      cases hvalid
  | cancelled =>
      rw [ht] at hland
      obtain ⟨f', misses, hback, hgoes⟩ :=
        Sound.takeBack (hland.cast (congrArg (w.block ::ₘ ·) (zero_add rest)))
      have hflight : f.outline.flight = .cancelled := by
        simp only [outline, ht, Transmission.flight]
      refine ⟨f', misses, ?_, hgoes.sound, hgoes.keeps, ?_⟩
      · simp only [Framer.writeComplete, ht]
        exact hback
      · rw [hgoes.outline_eq]
        simp only [Outline.complete, hflight]
        rfl
  | sending o segments expected =>
      have hvalid := h.transmission
      rw [hnone, List.append_nil, ht] at hvalid
      obtain ⟨ho, hsegments, hmax, w', hw, hcarries⟩ := hvalid
      obtain ⟨rfl, rfl⟩ := List.cons.inj hw
      rw [ht] at hland
      by_cases hresult : result = .written expected
      · obtain ⟨f', misses, hproceed, hgoes⟩ :=
          hland.proceed rfl ho hsegments hmax hcarries.capacity hcarries.unshared
        refine ⟨f', misses, ?_, hgoes.sound, hgoes.keeps, ?_⟩
        · simp only [Framer.writeComplete, ht]
          rw [if_pos hresult]
          exact hproceed
        · rw [hgoes.outline_eq]
          simp only [Outline.complete, outline, ht, Transmission.flight, if_pos hresult]
          rfl
      · have hcount := hland.count fun s => { s with aborts := s.aborts + 1 }
        have hgive := (hcount.sound.cast (Multiset.add_cons _ _ _).symm).giveUp .channelAborted
        obtain ⟨f', misses, hback, hgoes⟩ := hgive.sound.takeBack
        rw [hgive.outline_eq, hcount.outline_eq] at hgoes
        refine ⟨f', misses, ?_, hgoes.sound, ?_, ?_⟩
        · simp only [Framer.writeComplete, ht]
          rw [if_neg hresult]
          exact hback
        · exact (hgive.keeps.mono fun b hb => Multiset.mem_cons_of_mem hb).trans hgoes.keeps
        · rw [hgoes.outline_eq]
          simp only [Outline.complete, outline, ht, Transmission.flight, if_neg hresult]
          rfl

end DockLink.Framer
