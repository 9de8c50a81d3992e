import DockLink.Proofs.Transfer.Sending
import DockLink.Proofs.Transfer.TwinReceivers

/-!
# Framers of two pools

Two framers in the same state, each over a pool of its own. The packets that wait and the one on the
channel are tied by bonds, and the tickets of the first framer are `k` numbers later. Each operation
does the same with both.
-/

namespace DockLink

/-- Two writes of the same bytes, from blocks that are tied. -/
inductive Write.Alike : Multiset Bond → Write → Write → Prop where
  | intro (block block' : Block) (length : Nat) :
      Alike {⟨block, block', 0, length⟩} ⟨block, 0, length⟩ ⟨block', 0, length⟩

inductive Order.Alike : Multiset Bond → Order → Order → Prop where
  | enable : Alike 0 .enable .enable
  | disable : Alike 0 .disable .disable
  | abortRx : Alike 0 .abortRx .abortRx
  | abortTx : Alike 0 .abortTx .abortTx
  | write {bonds : Multiset Bond} {w w' : Write} (alike : w.Alike bonds w') :
      Alike bonds (.write w) (.write w')

variable {own own' : Multiset Block} {pool pool' q q' : Pool} {bonds rest rest₁ : Multiset Bond}

/-! ## Writing blobs -/

namespace Blob

theorem le_length_of_ofPayload {header : Header} {payload blob : Bytes} {n : Nat}
    (h : ofPayload header payload = .ok (n, blob)) : n ≤ blob.length := by
  unfold ofPayload stamp at h
  split at h
  · unfold Bytes.put32 Bytes.put at h
    split at h
    · rename_i hfits
      cases h
      simp only [List.length_append, List.length_take, List.length_drop, Bytes.ofWord32,
        List.length_cons, List.length_nil, Header.crcLength] at hfits ⊢
      omega
    · cases h
  · cases h

end Blob

namespace Segments

/-- What the next blob of two packets comes to. All of the blob is known. -/
def Cut (own own' : Multiset Block) (x : Bond) (rest : Multiset Bond)
    (r r' : Option (Nat × Segments) × Pool) : Prop :=
  (r.1 = none ∧ r'.1 = none ∧ Pool.Twins own own' r.2 r'.2 (x ::ₘ rest)) ∨
    ∃ length segments, r.1 = some (length, segments) ∧ r'.1 = some (length, segments) ∧
      Pool.Twins own own' r.2 r'.2 (⟨x.left, x.right, 0, length⟩ ::ₘ rest)

theorem blob_eq_of_twins (s : Segments) {packet packet' : Packet} (hp : packet.Bonded bonds packet')
    (ht : Pool.Twins own own' pool pool' (bonds + rest)) :
    s.blob pool packet = s.blob pool' packet' := by
  obtain ⟨l, rfl, halike⟩ := hp
  unfold blob
  rw [halike.copy_eq s.offset s.payloadLength ht]

theorem le_length_of_blob {s : Segments} {packet : Packet} {n : Nat} {blob : Bytes}
    (h : s.blob pool packet = .ok (n, blob)) : n ≤ blob.length := by
  unfold Segments.blob at h
  cases hheader : Header.ofLength s.payloadLength s.more with
  | error fault => rw [hheader] at h; cases h
  | ok header =>
      rw [hheader] at h
      simp only [bind, Except.bind] at h
      split at h
      · exact Blob.le_length_of_ofPayload h
      · cases h

theorem next_alike (s : Segments) {packet packet' : Packet} {x : Bond}
    (hp : packet.Bonded bonds packet')
    (ht : Pool.Twins own own' pool pool' (x ::ₘ (bonds + rest))) :
    Agree (Cut own own' x (bonds + rest)) (s.next pool packet x.left)
      (s.next pool' packet' x.right) := by
  have hblob := s.blob_eq_of_twins hp (ht.cast (Multiset.add_cons _ _ _).symm)
  have hrefs := ht.refCount_eq (Multiset.mem_cons_self _ _)
  by_cases hone : pool.refCount x.left = 1
  · have hone' : pool'.refCount x.right = 1 := hrefs.symm.trans hone
    cases hf : s.finished with
    | true =>
        rw [next_of_finished hone hf, next_of_finished hone' hf]
        exact .ok (Or.inl ⟨rfl, rfl, ht⟩)
    | false =>
        rw [next_of_unfinished hone hf, next_of_unfinished hone' hf, ← hblob]
        cases hnext : s.blob pool packet with
        | error fault => exact .error fault
        | ok found =>
            obtain ⟨length, blob⟩ := found
            have hlength := le_length_of_blob hnext
            rcases ht.write 0 blob with ⟨fault, hw, hw'⟩ | ⟨p, p', hw, hw', hp'⟩
            · simp only [Except.bind, hw, hw']
              exact .error fault
            · simp only [Except.bind, hw, hw']
              refine .ok (Or.inr ⟨length, s.tail, rfl, rfl, hp' fun i _ hi => Or.inr ?_⟩)
              omega
  · rw [next_of_shared hone, next_of_shared (hrefs ▸ hone)]
    exact .error _

end Segments

namespace Framer

/-- Two packets that were accepted, the first of them under a ticket `k` numbers later. -/
inductive Outgoing.Alike (k : UInt16) : Multiset Bond → Outgoing → Outgoing → Prop where
  | intro {bonds : Multiset Bond} {packet packet' : Packet} (ticket : Ticket)
      (alike : packet.Bonded bonds packet') :
      Alike k bonds ⟨ticket.later k, packet⟩ ⟨ticket, packet'⟩

inductive Transmission.Alike (k : UInt16) : Multiset Bond → Transmission → Transmission → Prop where
  | idle : Alike k 0 .idle .idle
  | sending {bonds : Multiset Bond} {o o' : Outgoing} (alike : o.Alike k bonds o')
      (segments : Segments) (expected : Nat) :
      Alike k bonds (.sending o segments expected) (.sending o' segments expected)
  | cancelled : Alike k 0 .cancelled .cancelled

theorem Transmission.Alike.of_idle {k : UInt16} {t' : Transmission} (h : Alike k bonds .idle t') :
    bonds = 0 ∧ t' = .idle := by
  cases h
  exact ⟨rfl, rfl⟩

theorem Transmission.Alike.of_cancelled {k : UInt16} {t' : Transmission}
    (h : Alike k bonds .cancelled t') : t' = .cancelled := by
  cases h
  rfl

theorem Transmission.Alike.of_sending {k : UInt16} {o : Outgoing} {segments : Segments}
    {expected : Nat} {t' : Transmission} (h : Alike k bonds (.sending o segments expected) t') :
    ∃ o', t' = .sending o' segments expected ∧ o.Alike k bonds o' := by
  cases h with
  | sending alike => exact ⟨_, rfl, alike⟩

variable {queueDepth eventDepth : Nat}

/-- Two framers in the same state, with the bonds of what is queued, on the channel, received in part,
reported, and ordered. The counters do not matter. -/
structure Alike (k : UInt16) (queued sent held posted told : Multiset Bond)
    (f f' : Framer queueDepth eventDepth) : Prop where
  config_eq : f.config = f'.config
  enabled_eq : f.enabled = f'.enabled
  ticket_eq : f.nextTicket = f'.nextTicket.later k
  queue : AllAlike (Outgoing.Alike k) queued f.queue.toList f'.queue.toList
  transmission : Transmission.Alike k sent f.transmission f'.transmission
  receiver : Receiver.Alike held f.receiver f'.receiver
  reporter : Reporter.Alike k posted f.reporter f'.reporter
  orders : AllAlike Order.Alike told f.orders f'.orders

/-- Two framers in the same state over pools that behave alike. -/
def Paired (k : UInt16) (own own' : Multiset Block) (rest : Multiset Bond)
    (f f' : Framer queueDepth eventDepth) : Prop :=
  ∃ queued sent held posted told, Alike k queued sent held posted told f f' ∧
    Pool.Twins own own' f.pool f'.pool (queued + sent + held + posted + told + rest)

variable {k : UInt16} {f f' : Framer queueDepth eventDepth}

theorem startUpTo_of_idle (n : Nat) {o : Outgoing} {queue : BoundedQueue Outgoing queueDepth}
    (hidle : f.transmission = .idle) (hp : f.queue.pop? = some (o, queue)) :
    startUpTo (n + 1) f = (Framer.start { f with queue } o).bind (startUpTo n) := by
  obtain ⟨config, pool, enabled, nextTicket, queue₀, transmission, receiver, reporter, orders⟩ := f
  subst hidle
  simp only [startUpTo, hp]
  rfl

namespace Paired

theorem cast (h : Paired k own own' rest f f') (he : rest = rest₁) : Paired k own own' rest₁ f f' :=
  he ▸ h

theorem config_eq (h : Paired k own own' rest f f') : f.config = f'.config := by
  obtain ⟨_, _, _, _, _, halike, -⟩ := h
  exact halike.config_eq

theorem enabled_eq (h : Paired k own own' rest f f') : f.enabled = f'.enabled := by
  obtain ⟨_, _, _, _, _, halike, -⟩ := h
  exact halike.enabled_eq

theorem enabled_iff (h : Paired k own own' rest f f') : f.enabled = true ↔ f'.enabled = true := by
  rw [h.enabled_eq]

/-! ## Parts of a framer -/

theorem count (h : Paired k own own' rest f f') (g : Statistics → Statistics) :
    Paired k own own' rest (f.count g) (f'.count g) := by
  obtain ⟨queued, sent, held, posted, told, halike, ht⟩ := h
  exact ⟨queued, sent, held, posted, told, { halike with reporter := halike.reporter.count g g }, ht⟩

theorem withPool (h : Paired k own own' rest f f')
    (hstep : ∀ {bonds}, Pool.Twins own own' f.pool f'.pool (bonds + rest) →
      Pool.Twins own own' q q' (bonds + rest₁)) :
    Paired k own own' rest₁ { f with pool := q } { f' with pool := q' } := by
  obtain ⟨queued, sent, held, posted, told, halike, ht⟩ := h
  exact ⟨queued, sent, held, posted, told, { halike with }, hstep ht⟩

theorem releasePacket (h : Paired k own own' (bonds + rest) f f') {packet packet' : Packet}
    (hp : packet.Bonded bonds packet') :
    Paired k own own' rest (f.releasePacket packet) (f'.releasePacket packet') :=
  h.withPool fun ht => hp.release (ht.cast (by abel))

theorem releaseBlock {x : Bond} (h : Paired k own own' (x ::ₘ rest) f f') :
    Paired k own own' rest (f.releaseBlock x.left) (f'.releaseBlock x.right) :=
  h.withPool fun ht => (ht.cast (Multiset.add_cons _ _ _)).release

/-- The same report of both. -/
theorem reports (h : Paired k own own' rest f f') {r r' : Reporter eventDepth × Pool}
    (hstep : ∀ posted others, Reporter.Alike k posted f.reporter f'.reporter →
      Pool.Twins own own' f.pool f'.pool (posted + (others + rest)) →
        Together (Reporter.Alike k) own own' (others + rest₁) r r') :
    Paired k own own' rest₁ { f with reporter := r.1, pool := r.2 }
      { f' with reporter := r'.1, pool := r'.2 } := by
  obtain ⟨queued, sent, held, posted, told, halike, ht⟩ := h
  obtain ⟨posted', hreporter, ht'⟩ :=
    hstep _ (queued + sent + held + told) halike.reporter (ht.cast (by abel))
  exact ⟨queued, sent, held, posted', told, { halike with reporter := hreporter }, ht'.cast (by abel)⟩

theorem emit {event event' : LinkEvent} (h : Paired k own own' (bonds + rest) f f')
    (he : LinkEvent.Alike k bonds event event') :
    Paired k own own' rest (f.emit event) (f'.emit event') :=
  h.reports fun _ _ hr ht => hr.emit he (ht.cast (by abel))

theorem giveUp {o o' : Outgoing} (h : Paired k own own' (bonds + rest) f f')
    (ho : o.Alike k bonds o') (error : LinkError) :
    Paired k own own' rest (f.giveUp o error) (f'.giveUp o' error) := by
  obtain ⟨ticket, alike⟩ := ho
  exact (h.reports fun _ _ hr ht => hr.sendFailed ticket error ht).releasePacket alike

/-- The same is received by both. -/
theorem receives (h : Paired k own own' rest f f') {r r' : Receiver × Pool}
    (hstep : ∀ held others, Receiver.Alike held f.receiver f'.receiver →
      Pool.Twins own own' f.pool f'.pool (held + others) →
        Together Receiver.Alike own own' others r r') :
    Paired k own own' rest { f with receiver := r.1, pool := r.2 }
      { f' with receiver := r'.1, pool := r'.2 } := by
  obtain ⟨queued, sent, held, posted, told, halike, ht⟩ := h
  obtain ⟨held', hreceiver, ht'⟩ :=
    hstep _ (queued + sent + posted + told + rest) halike.receiver (ht.cast (by abel))
  exact ⟨queued, sent, held', posted, told, { halike with receiver := hreceiver },
    ht'.cast (by abel)⟩

/-- The same order of both. -/
theorem order {o o' : Order} (h : Paired k own own' (bonds + rest) f f') (ho : o.Alike bonds o') :
    Paired k own own' rest (f.order o) (f'.order o') := by
  obtain ⟨queued, sent, held, posted, told, halike, ht⟩ := h
  exact ⟨queued, sent, held, posted, bonds + told, { halike with orders := .cons ho halike.orders },
    ht.cast (by abel)⟩

/-- A packet goes on the free channel. -/
theorem put {t t' : Transmission} (h : Paired k own own' (bonds + rest) f f')
    (hfree : f.transmission = .idle) (ht : t.Alike k bonds t') :
    Paired k own own' rest { f with transmission := t } { f' with transmission := t' } := by
  obtain ⟨queued, sent, held, posted, told, halike, htwins⟩ := h
  have hidle := halike.transmission
  rw [hfree] at hidle
  obtain ⟨rfl, -⟩ := hidle.of_idle
  exact ⟨queued, bonds, held, posted, told, { halike with transmission := ht }, htwins.cast (by abel)⟩

/-- What is on the channel is taken off it. -/
theorem lift (h : Paired k own own' rest f f') :
    ∃ bonds, f.transmission.Alike k bonds f'.transmission ∧
      Paired k own own' (bonds + rest) { f with transmission := .idle }
        { f' with transmission := .idle } := by
  obtain ⟨queued, sent, held, posted, told, halike, ht⟩ := h
  exact ⟨sent, halike.transmission, queued, 0, held, posted, told,
    { halike with transmission := .idle }, ht.cast (by abel)⟩

theorem transmission_idle_iff (h : Paired k own own' rest f f') :
    f.transmission = .idle ↔ f'.transmission = .idle := by
  obtain ⟨sent, hsent, -⟩ := h.lift
  generalize f.transmission = t at hsent
  generalize f'.transmission = t' at hsent
  cases hsent with
  | idle => exact iff_of_true rfl rfl
  | sending alike segments expected => exact iff_of_false nofun nofun
  | cancelled => exact iff_of_false nofun nofun

/-- The oldest queued packet is taken out. -/
theorem pop (h : Paired k own own' rest f f') :
    (f.queue.pop? = none ∧ f'.queue.pop? = none) ∨
      ∃ o o' queue queue' bonds, f.queue.pop? = some (o, queue) ∧ f'.queue.pop? = some (o', queue') ∧
        o.Alike k bonds o' ∧
        Paired k own own' (bonds + rest) { f with queue } { f' with queue := queue' } := by
  obtain ⟨queued, sent, held, posted, told, halike, ht⟩ := h
  rcases halike.queue.pop with
    hnone | ⟨o, o', queue, queue', first, others, rfl, hp, hp', ho, hothers⟩
  · exact Or.inl hnone
  · exact Or.inr ⟨o, o', queue, queue', first, hp, hp', ho, others, sent, held, posted, told,
      { halike with queue := hothers }, ht.cast (by abel)⟩

/-- A packet is queued, or finds both queues full. -/
theorem push (h : Paired k own own' (bonds + rest) f f') {o o' : Outgoing}
    (ho : o.Alike k bonds o') :
    (f.queue.push o = .error o ∧ f'.queue.push o' = .error o') ∨
      ∃ queue queue', f.queue.push o = .ok queue ∧ f'.queue.push o' = .ok queue' ∧
        Paired k own own' rest { f with queue } { f' with queue := queue' } := by
  obtain ⟨queued, sent, held, posted, told, halike, ht⟩ := h
  rcases halike.queue.push ho with hfull | ⟨queue, queue', hp, hp', hpushed⟩
  · exact Or.inl hfull
  · exact Or.inr ⟨queue, queue', hp, hp', queued + bonds, sent, held, posted, told,
      { halike with queue := hpushed }, ht.cast (by abel)⟩

theorem length_queue_eq (h : Paired k own own' rest f f') : f.queue.length = f'.queue.length := by
  obtain ⟨_, _, _, _, _, halike, -⟩ := h
  rw [← BoundedQueue.length_toList, ← BoundedQueue.length_toList, halike.queue.length_eq]

/-- A request for memory is refused by both pools, or served by both. -/
theorem allocate (h : Paired k own own' rest f f') (n : Nat) :
    (∃ e, f.pool.allocate n = .error e ∧ f'.pool.allocate n = .error e) ∨
      ∃ b b' q q', f.pool.allocate n = .ok (b, q) ∧ f'.pool.allocate n = .ok (b', q') ∧
        Paired k own own' (⟨b, b', 0, 0⟩ ::ₘ rest) { f with pool := q } { f' with pool := q' } := by
  obtain ⟨queued, sent, held, posted, told, halike, ht⟩ := h
  rcases ht.allocate n with hnone | ⟨b, b', q, q', ha, ha', hq⟩
  · exact Or.inl hnone
  · exact Or.inr ⟨b, b', q, q', ha, ha', queued, sent, held, posted, told, { halike with },
      hq.cast (Multiset.add_cons _ _ _).symm⟩

/-! ## Sending -/

/-- A blob goes on the free channel. -/
theorem putBlob {b b' : Block} {length : Nat} {o o' : Outgoing}
    (h : Paired k own own' (⟨b, b', 0, length⟩ ::ₘ (bonds + rest)) f f') (ho : o.Alike k bonds o')
    (hfree : f.transmission = .idle) (segments : Segments) :
    Paired k own own' rest
      (Framer.order { f with transmission := .sending o segments length } (.write ⟨b, 0, length⟩))
      (Framer.order { f' with transmission := .sending o' segments length } (.write ⟨b', 0, length⟩)) := by
  have hput : Paired k own own' ({⟨b, b', 0, length⟩} + rest)
      { f with transmission := .sending o segments length }
      { f' with transmission := .sending o' segments length } := by
    refine Paired.put (h.cast ?_) hfree (.sending ho segments length)
    rw [← Multiset.singleton_add]
    abel
  exact hput.order (.write (.intro b b' length))

/-- The next blob of a packet goes on the free channel, unless there is none. -/
theorem next {x : Bond} {o o' : Outgoing} (h : Paired k own own' (x ::ₘ (bonds + rest)) f f')
    (ho : o.Alike k bonds o') (hfree : f.transmission = .idle) (segments : Segments) :
    Agree (fun r r' =>
        (r.1 = none ∧ r'.1 = none ∧ Paired k own own' (x ::ₘ (bonds + rest))
          { f with pool := r.2 } { f' with pool := r'.2 }) ∨
        ∃ length segments, r.1 = some (length, segments) ∧ r'.1 = some (length, segments) ∧
          Paired k own own' rest
            (Framer.order { f with pool := r.2, transmission := .sending o segments length }
              (.write ⟨x.left, 0, length⟩))
            (Framer.order { f' with pool := r'.2, transmission := .sending o' segments length }
              (.write ⟨x.right, 0, length⟩)))
      (segments.next f.pool o.packet x.left) (segments.next f'.pool o'.packet x.right) := by
  obtain ⟨queued, sent, held, posted, told, halike, ht⟩ := h
  obtain ⟨ticket, hpacket⟩ := ho
  have hcast : queued + sent + held + posted + told + x ::ₘ (bonds + rest) =
      x ::ₘ (bonds + (queued + sent + held + posted + told + rest)) := by
    rw [Multiset.add_cons]
    congr 1
    abel
  refine (segments.next_alike hpacket (ht.cast hcast)).mono ?_
  rintro ⟨r, q⟩ ⟨r', q'⟩ (⟨hnone, hnone', hq⟩ | ⟨length, segments, hsome, hsome', hq⟩)
  · exact Or.inl ⟨hnone, hnone', queued, sent, held, posted, told, { halike with }, hq.cast hcast.symm⟩
  · have hpaired : Paired k own own' (⟨x.left, x.right, 0, length⟩ ::ₘ (bonds + rest))
        { f with pool := q } { f' with pool := q' } := by
      refine ⟨queued, sent, held, posted, told, { halike with }, hq.cast ?_⟩
      rw [Multiset.add_cons]
      congr 1
      abel
    exact Or.inr ⟨length, segments, hsome, hsome', hpaired.putBlob (.intro ticket hpacket) hfree segments⟩

theorem length_packet_eq {o o' : Outgoing} (ho : o.Alike k bonds o') :
    o.packet.length = o'.packet.length := by
  obtain ⟨ticket, l, rfl, halike⟩ := ho
  exact halike.length_eq

theorem start {o o' : Outgoing} (h : Paired k own own' (bonds + rest) f f')
    (ho : o.Alike k bonds o') (hfree : f.transmission = .idle) :
    Agree (Paired k own own' rest) (f.start o) (f'.start o') := by
  unfold Framer.start
  rw [← length_packet_eq ho, ← congrArg Config.maxPayload h.config_eq]
  rcases h.allocate (Segments.maxBlobLength
      { length := o.packet.length, maxPayload := f.config.maxPayload }) with
    ⟨e, ha, ha'⟩ | ⟨b, b', q, q', ha, ha', hq⟩
  · simp only [ha, ha']
    exact .ok ((h.count _).giveUp ho .outOfMemory)
  · simp only [ha, ha']
    refine (hq.next ho hfree _).bind ?_
    rintro ⟨r, q₁⟩ ⟨r', q₁'⟩ (⟨rfl, rfl, -⟩ | ⟨length, segments, rfl, rfl, hput⟩)
    · exact Agree.error Fault.outOfRange
    · exact Agree.ok hput

theorem startUpTo (n : Nat) {f f' : Framer queueDepth eventDepth} (h : Paired k own own' rest f f') :
    Agree (Paired k own own' rest) (Framer.startUpTo n f) (Framer.startUpTo n f') := by
  induction n generalizing f f' with
  | zero => exact .ok h
  | succ n ih =>
      by_cases hidle : f.transmission = .idle
      · have hidle' := h.transmission_idle_iff.1 hidle
        rcases h.pop with ⟨hp, hp'⟩ | ⟨o, o', queue, queue', bonds, hp, hp', ho, hpopped⟩
        · simp only [Framer.startUpTo, hidle, hidle', hp, hp']
          exact .ok h
        · rw [startUpTo_of_idle n hidle hp, startUpTo_of_idle n hidle' hp']
          exact (hpopped.start ho hidle).bind fun _ _ hstarted => ih hstarted
      · have hbusy' : f'.transmission ≠ .idle := fun hidle' => hidle (h.transmission_idle_iff.2 hidle')
        rw [startUpTo_of_busy _ hidle, startUpTo_of_busy _ hbusy']
        exact .ok h

theorem startNext (h : Paired k own own' rest f f') :
    Agree (Paired k own own' rest) f.startNext f'.startNext := by
  rw [Framer.startNext, Framer.startNext, h.length_queue_eq]
  exact h.startUpTo _

/-! ## Completions -/

/-- The block of a completed write is given back. -/
theorem takeBack {x : Bond} (h : Paired k own own' (x ::ₘ rest) f f') :
    Paired k own own' rest (f.takeBack x.left).1 (f'.takeBack x.right).1 ∧
      (f.takeBack x.left).2 = (f'.takeBack x.right).2 := by
  have hrelease := h.releaseBlock
  have hnext := hrelease.startNext
  unfold Framer.takeBack
  simp only
  generalize (f.releaseBlock x.left).startNext = r at hnext
  generalize (f'.releaseBlock x.right).startNext = r' at hnext
  cases hnext with
  | error fault => exact ⟨hrelease, rfl⟩
  | ok hstarted => exact ⟨hstarted, rfl⟩

theorem proceed {x : Bond} {o o' : Outgoing} (h : Paired k own own' (x ::ₘ (bonds + rest)) f f')
    (ho : o.Alike k bonds o') (hfree : f.transmission = .idle) (segments : Segments) :
    Paired k own own' rest (f.proceed o segments x.left).1 (f'.proceed o' segments x.right).1 ∧
      (f.proceed o segments x.left).2 = (f'.proceed o' segments x.right).2 := by
  have hcount := h.count fun s => { s with blobsSent := s.blobsSent + 1 }
  have hnext := hcount.next ho hfree segments
  unfold Framer.proceed
  simp only
  generalize segments.next _ o.packet x.left = r at hnext
  generalize segments.next _ o'.packet x.right = r' at hnext
  obtain ⟨ticket, hpacket⟩ := ho
  cases hnext with
  | error fault =>
      refine ⟨?_, rfl⟩
      exact Paired.releaseBlock ((hcount.cast (Multiset.add_cons _ _ _).symm).releasePacket hpacket)
  | @ok r r' hr =>
      obtain ⟨r, q⟩ := r
      obtain ⟨r', q'⟩ := r'
      obtain ⟨rfl, rfl, hdone⟩ | ⟨length, segments, rfl, rfl, hput⟩ := hr
      · have hreported := (hdone.count fun s => { s with packetsSent := s.packetsSent + 1 }).cast
          (zero_add _).symm
        have hsent := hreported.emit (.sent ticket)
        exact ((hsent.cast (Multiset.add_cons _ _ _).symm).releasePacket hpacket).takeBack
      · exact ⟨hput, rfl⟩

theorem writeComplete {x : Bond} (h : Paired k own own' (x ::ₘ rest) f f') (result : WriteResult) :
    Paired k own own' rest (f.writeComplete x.left result).1 (f'.writeComplete x.right result).1 ∧
      (f.writeComplete x.left result).2 = (f'.writeComplete x.right result).2 := by
  obtain ⟨sent, hsent, hidle⟩ := h.lift
  have hfree : Framer.transmission { f with transmission := .idle } = .idle := rfl
  unfold Framer.writeComplete
  generalize f.transmission = t at hsent
  generalize f'.transmission = t' at hsent
  cases hsent with
  | idle => exact (hidle.cast (zero_add _)).takeBack
  | cancelled => exact (hidle.cast (zero_add _)).takeBack
  | sending alike segments expected =>
      simp only
      split
      · exact (hidle.cast (Multiset.add_cons _ _ _)).proceed alike hfree segments
      · exact ((hidle.count fun s => { s with aborts := s.aborts + 1 }).giveUp alike
          .channelAborted).takeBack

end Paired

/-! ## Accepting packets -/

/-- The content type goes in front of both packets, or of neither. -/
def Tagging (own own' : Multiset Block) (bonds rest : Multiset Bond)
    (r r' : Except SendError Packet × Pool) : Prop :=
  (∃ e, r.1 = .error e ∧ r'.1 = .error e ∧ Pool.Twins own own' r.2 r'.2 (bonds + rest)) ∨
    ∃ tagged p p', r.1 = .ok p ∧ r'.1 = .ok p' ∧ p.Bonded tagged p' ∧
      Pool.Twins own own' r.2 r'.2 (tagged + rest)

theorem tag_alike (config : Config) (contentType : ContentType) {packet packet' : Packet}
    (hp : packet.Bonded bonds packet') (ht : Pool.Twins own own' pool pool' (bonds + rest)) :
    Agree (Tagging own own' bonds rest) (tag config pool contentType packet)
      (tag config pool' contentType packet') := by
  unfold tag
  split
  · exact .ok (Or.inr ⟨bonds, packet, packet', rfl, rfl, hp, ht⟩)
  · rcases ht.allocate config.tagLength with ⟨e, ha, ha'⟩ | ⟨b, b', q, q', ha, ha', hq⟩
    · rw [ha, ha']
      exact .ok (Or.inl ⟨.outOfMemory, rfl, rfl, ht⟩)
    · rw [ha, ha']
      rcases hq.write 0 (Bytes.ofWord16 contentType.code) with
        ⟨fault, hw, hw'⟩ | ⟨p, p', hw, hw', hknown⟩
      · simp only [bind, Except.bind, hw, hw']
        exact .error fault
      · simp only [bind, Except.bind, hw, hw']
        obtain ⟨l, rfl, halike⟩ := hp
        have hlength : config.tagLength ≤ (Bytes.ofWord16 contentType.code).length := by
          unfold Config.tagLength
          split
          · exact Nat.le_refl 2
          · exact Nat.zero_le _
        have hwritten : Pool.Twins own own' p p'
            (⟨b, b', 0, config.tagLength⟩ ::ₘ ((l : Multiset Bond) + rest)) :=
          hknown fun i _ hi => Or.inr ⟨Nat.zero_le i, by omega⟩
        refine (Chunk.of_agree hwritten 0 config.tagLength).bind ?_
        rintro c c' ⟨rfl, rfl⟩
        rcases halike.pushFront hwritten with
          ⟨hpush, hpush'⟩ | ⟨tagged, tagged', p₁, p₁', l', hpush, hpush', halike', hp₁⟩
        · simp only [Bond.leftChunk, Bond.rightChunk] at hpush hpush'
          simp only [hpush, hpush']
          exact .ok (Or.inl ⟨.tooLong, rfl, rfl, hwritten.release⟩)
        · simp only [Bond.leftChunk, Bond.rightChunk] at hpush hpush'
          simp only [hpush, hpush']
          exact .ok (Or.inr ⟨l', tagged, tagged', rfl, rfl, ⟨l', rfl, halike'⟩, hp₁⟩)

/-- The same answer to two packets. -/
inductive Answered (k : UInt16) :
    Multiset Bond → Except (SendError × Packet) Ticket → Except (SendError × Packet) Ticket → Prop where
  | accepted (ticket : Ticket) : Answered k 0 (.ok (ticket.later k)) (.ok ticket)
  | refused {bonds : Multiset Bond} {packet packet' : Packet} (e : SendError)
      (alike : packet.Bonded bonds packet') :
      Answered k bonds (.error (e, packet)) (.error (e, packet'))

/-- What handing in a packet comes to. -/
def Handed (k : UInt16) (own own' : Multiset Block) (rest : Multiset Bond)
    (r r' : Except (SendError × Packet) Ticket × Framer queueDepth eventDepth) : Prop :=
  ∃ bonds, Answered k bonds r.1 r'.1 ∧ Paired k own own' (bonds + rest) r.2 r'.2

namespace Paired

theorem nextTicket (h : Paired k own own' rest f f') :
    Paired k own own' rest { f with nextTicket := ⟨f.nextTicket.number + 1⟩ }
      { f' with nextTicket := ⟨f'.nextTicket.number + 1⟩ } := by
  obtain ⟨queued, sent, held, posted, told, halike, ht⟩ := h
  refine ⟨queued, sent, held, posted, told, { halike with ticket_eq := ?_ }, ht⟩
  have hnext : f'.nextTicket.number + k + 1 = f'.nextTicket.number + 1 + k := by
    rw [UInt16.add_assoc, UInt16.add_comm k, UInt16.add_assoc]
  rw [halike.ticket_eq]
  exact congrArg Ticket.mk hnext

theorem ticket_eq (h : Paired k own own' rest f f') : f.nextTicket = f'.nextTicket.later k := by
  obtain ⟨_, _, _, _, _, halike, -⟩ := h
  exact halike.ticket_eq

theorem turnBack (h : Paired k own own' (bonds + rest) f f') (error : SendError)
    {packet packet' : Packet} (hp : packet.Bonded bonds packet') :
    Agree (Handed k own own' rest) (f.turnBack error packet) (f'.turnBack error packet') := by
  obtain ⟨queued, sent, held, posted, told, halike, ht⟩ := h
  obtain ⟨l, rfl, hpacket⟩ := hp
  rw [Framer.turnBack, Framer.turnBack, ← congrArg Config.tagLength halike.config_eq]
  have ht' : Pool.Twins own own' f.pool f'.pool
      ((l : Multiset Bond) + (queued + sent + held + posted + told + rest)) := ht.cast (by abel)
  refine (hpacket.advance f.config.tagLength ht').bind ?_
  rintro ⟨p, q⟩ ⟨p', q'⟩ ⟨kept, hkept, hq⟩
  exact .ok ⟨kept, .refused error ⟨kept, rfl, hkept⟩, queued, sent, held, posted, told,
    { halike with }, hq.cast (by abel)⟩

theorem enqueue (h : Paired k own own' (bonds + rest) f f') {packet packet' : Packet}
    (hp : packet.Bonded bonds packet') :
    Agree (Handed k own own' rest) (f.enqueue packet) (f'.enqueue packet') := by
  have hclosed : (!f.enabled) = true ↔ (!f'.enabled) = true := by rw [h.enabled_eq]
  refine related_ite hclosed (h.turnBack .disconnected hp) ?_
  have ho : Outgoing.Alike k bonds ⟨f.nextTicket, packet⟩ ⟨f'.nextTicket, packet'⟩ :=
    h.ticket_eq ▸ .intro f'.nextTicket hp
  rcases h.push ho with ⟨hfull, hfull'⟩ | ⟨queue, queue', hpush, hpush', hqueued⟩
  · simp only [hfull, hfull']
    exact h.turnBack .queueFull hp
  · simp only [hpush, hpush']
    refine hqueued.nextTicket.startNext.bind ?_
    intro f₁ f₁' hstarted
    refine .ok ⟨0, ?_, hstarted.cast (zero_add rest).symm⟩
    rw [h.ticket_eq]
    exact .accepted f'.nextTicket

theorem send (h : Paired k own own' (bonds + rest) f f') (contentType : ContentType)
    {packet packet' : Packet} (hp : packet.Bonded bonds packet') :
    Agree (Handed k own own' rest) (f.send contentType packet) (f'.send contentType packet') := by
  have hlength : packet.length = packet'.length := by
    obtain ⟨l, rfl, hpacket⟩ := hp
    exact hpacket.length_eq
  have hlong : packet.length > f.config.maxPacket ↔ packet'.length > f'.config.maxPacket := by
    rw [hlength, h.config_eq]
  have hclosed : (!f.enabled) = true ↔ (!f'.enabled) = true := by rw [h.enabled_eq]
  refine related_ite hlong (.ok ⟨bonds, .refused .tooLong hp, h⟩) ?_
  refine related_ite hclosed (.ok ⟨bonds, .refused .disconnected hp, h⟩) ?_
  obtain ⟨queued, sent, held, posted, told, halike, ht⟩ := h
  have ht' : Pool.Twins own own' f.pool f'.pool
      (bonds + (queued + sent + held + posted + told + rest)) := ht.cast (by abel)
  have htag := tag_alike f.config contentType hp ht'
  rw [congrArg tag halike.config_eq] at htag
  rw [congrArg tag halike.config_eq]
  refine htag.bind ?_
  rintro ⟨r, q⟩ ⟨r', q'⟩ (⟨e, rfl, rfl, hq⟩ | ⟨tagged, p, p', rfl, rfl, hp', hq⟩)
  · exact .ok ⟨bonds, .refused e hp, queued, sent, held, posted, told, { halike with },
      hq.cast (by abel)⟩
  · have hpaired : Paired k own own' (tagged + rest) { f with pool := q } { f' with pool := q' } :=
      ⟨queued, sent, held, posted, told, { halike with }, hq.cast (by abel)⟩
    exact hpaired.enqueue hp'

/-! ## Receiving -/

theorem received (h : Paired k own own' rest f f') (data : Bytes) :
    Agree (Paired k own own' rest) (f.received data) (f'.received data) := by
  refine related_ite h.enabled_iff ?_ (.ok h)
  obtain ⟨queued, sent, held, posted, told, halike, ht⟩ := h
  have ht' : Pool.Twins own own' f.pool f'.pool
      (held + posted + (queued + sent + told + rest)) := ht.cast (by abel)
  have hpush := push_alike f.config halike.receiver halike.reporter data ht'
  rw [congrArg (@deliver eventDepth) halike.config_eq] at hpush
  rw [congrArg (@deliver eventDepth) halike.config_eq]
  refine hpush.bind ?_
  rintro ⟨receiver, q, reporter⟩ ⟨receiver', q', reporter'⟩ ⟨held', posted', hreceiver, hreporter, hq⟩
  exact .ok ⟨queued, sent, held', posted', told,
    { halike with receiver := hreceiver, reporter := hreporter }, hq.cast (by abel)⟩

theorem transactionEnd (h : Paired k own own' rest f f') :
    Paired k own own' rest f.transactionEnd f'.transactionEnd := by
  have hend : (f.receiver.transactionEnd f.pool).1 = (f'.receiver.transactionEnd f'.pool).1 := by
    obtain ⟨queued, sent, held, posted, told, halike, ht⟩ := h
    have ht' : Pool.Twins own own' f.pool f'.pool (held + (queued + sent + posted + told + rest)) :=
      ht.cast (by abel)
    exact (halike.receiver.transactionEnd ht').1
  have hreceived := h.receives fun _ _ hr ht => (hr.transactionEnd ht).2
  unfold Framer.transactionEnd
  simp only
  rw [← hend]
  split
  · rename_i error _
    have hreported := hreceived.reports fun _ _ hr ht => hr.receiveFailed error ht
    exact related_ite h.enabled_iff hreported hreceived
  · exact hreceived

theorem resetReceiver (h : Paired k own own' rest f f') :
    Paired k own own' rest f.resetReceiver f'.resetReceiver :=
  h.receives fun _ _ hr ht => hr.reset ht

/-! ## Opening and closing -/

theorem enable (h : Paired k own own' rest f f') :
    Paired k own own' rest f.enable f'.enable := by
  refine related_ite h.enabled_iff h ?_
  obtain ⟨queued, sent, held, posted, told, halike, ht⟩ := h.resetReceiver
  have hopen : Paired k own own' (0 + rest)
      { f.resetReceiver with
        reporter := { f.resetReceiver.reporter with faults := 0 }, enabled := true }
      { f'.resetReceiver with
        reporter := { f'.resetReceiver.reporter with faults := 0 }, enabled := true } :=
    ⟨queued, sent, held, posted, told,
      { halike with reporter := halike.reporter.withFaults 0, enabled_eq := rfl },
      ht.cast (by abel)⟩
  exact hopen.order .enable

theorem cancel (h : Paired k own own' rest f f') :
    Paired k own own' rest f.cancel f'.cancel := by
  obtain ⟨sent, hsent, hidle⟩ := h.lift
  have hcancelled : Paired k own own' (sent + rest) { f with transmission := .cancelled }
      { f' with transmission := .cancelled } :=
    (hidle.cast (zero_add _).symm).put rfl .cancelled
  unfold Framer.cancel
  cases ht : f.transmission with
  | idle =>
      rw [h.transmission_idle_iff.1 ht]
      exact h
  | cancelled =>
      rw [ht] at hsent
      rw [hsent.of_cancelled]
      exact h
  | sending o segments expected =>
      rw [ht] at hsent
      obtain ⟨o', ht', alike⟩ := hsent.of_sending
      rw [ht']
      exact hcancelled.giveUp alike .disconnected

theorem flushUpTo (n : Nat) {f f' : Framer queueDepth eventDepth} (h : Paired k own own' rest f f') :
    Paired k own own' rest (Framer.flushUpTo n f) (Framer.flushUpTo n f') := by
  induction n generalizing f f' with
  | zero => exact h
  | succ n ih =>
      unfold Framer.flushUpTo
      rcases h.pop with ⟨hp, hp'⟩ | ⟨o, o', queue, queue', bonds, hp, hp', ho, hpopped⟩
      · rw [hp, hp']
        exact h
      · rw [hp, hp']
        exact ih (hpopped.giveUp ho .disconnected)

theorem flush (h : Paired k own own' rest f f') : Paired k own own' rest f.flush f'.flush := by
  rw [Framer.flush, Framer.flush, h.length_queue_eq]
  exact h.flushUpTo _

theorem disable (h : Paired k own own' rest f f') :
    Paired k own own' rest f.disable f'.disable := by
  refine related_ite h.enabled_iff ?_ h
  obtain ⟨queued, sent, held, posted, told, halike, ht⟩ := h
  have hshut : Paired k own own' rest { f with enabled := false } { f' with enabled := false } :=
    ⟨queued, sent, held, posted, told, { halike with enabled_eq := rfl }, ht⟩
  have hrx := (hshut.cast (zero_add _).symm).order .abortRx
  have htx := (hrx.cast (zero_add _).symm).order .abortTx
  exact ((htx.cast (zero_add _).symm).order .disable).resetReceiver.cancel.flush

/-! ## Taking events -/

/-- The oldest event is taken out of both queues, if there is one. -/
theorem popEvent (h : Paired k own own' rest f f') :
    (f.popEvent? = none ∧ f'.popEvent? = none) ∨
      ∃ event event' g g' bonds, f.popEvent? = some (event, g) ∧ f'.popEvent? = some (event', g') ∧
        LinkEvent.Alike k bonds event event' ∧ Paired k own own' (bonds + rest) g g' ∧
        g.pool = f.pool ∧ g'.pool = f'.pool := by
  obtain ⟨queued, sent, held, posted, told, halike, ht⟩ := h
  unfold Framer.popEvent?
  rcases halike.reporter.events.pop with
    ⟨hp, hp'⟩ | ⟨event, event', events, events', first, others, rfl, hp, hp', he, hothers⟩
  · rw [hp, hp']
    exact Or.inl ⟨rfl, rfl⟩
  · rw [hp, hp']
    exact Or.inr ⟨event, event', _, _, first, rfl, rfl, he, ⟨queued, sent, held, others, told,
      { halike with reporter := ⟨hothers, halike.reporter.faults_eq⟩ }, ht.cast (by abel)⟩, rfl, rfl⟩

end Paired

end Framer

end DockLink
