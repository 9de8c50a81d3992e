import DockLink.Proofs.Transfer.Outcomes

/-!
# The send path apart from the receive path

Whatever the send path does, it opens and closes nothing, leaves alone what is received, and reports
nothing but the outcomes of packets.
-/

namespace DockLink

/-- Whether an order is about the channel itself, and not about a write. -/
def Order.isSwitch : Order → Bool
  | .write _ => false
  | _ => true

theorem Channel.enabled_obey {c c' : Channel} (h : c.enabled = c'.enabled) (o : Order) :
    (c.obey o).enabled = (c'.obey o).enabled := by
  cases o with
  | enable => rfl
  | disable => rfl
  | abortRx => exact h
  | abortTx => exact h
  | write w => exact h

/-- Writes neither open nor close a channel. -/
theorem Channel.enabled_obeyAll (orders : List Order) {c c' : Channel}
    (h : c.enabled = c'.enabled) :
    (c.obeyAll orders).enabled = (c'.obeyAll (orders.filter Order.isSwitch)).enabled := by
  induction orders generalizing c c' with
  | nil => exact h
  | cons o rest ih =>
      cases o with
      | write w => exact ih (c := c.obey (.write w)) h
      | _ => exact ih (enabled_obey h _)

namespace Reporter

variable {depth : Nat}

/-- Reporting an event changes nothing else that the receive path keeps count of. -/
theorem emit_spares (r : Reporter depth) (pool : Pool) (event : LinkEvent) :
    (r.emit pool event).1.record = event :: r.record ∧ (r.emit pool event).1.faults = r.faults ∧
      (r.emit pool event).1.statistics.blobsReceived = r.statistics.blobsReceived := by
  unfold emit
  simp only
  split
  · exact ⟨rfl, rfl, rfl⟩
  · exact ⟨rfl, rfl, rfl⟩

end Reporter

namespace Framer

variable {queueDepth eventDepth : Nat} {f f₁ f₂ : Framer queueDepth eventDepth}

/-- The orders about the channel itself that it was not told of yet, newest first. -/
def switches (f : Framer queueDepth eventDepth) : List Order := f.orders.filter Order.isSwitch

/-- What the send path may do to a framer. -/
structure Sends (f f' : Framer queueDepth eventDepth) : Prop where
  config_eq : f'.config = f.config
  enabled_eq : f'.enabled = f.enabled
  switches_eq : f'.switches = f.switches
  receiver_eq : f'.receiver = f.receiver
  faults_eq : f'.reporter.faults = f.reporter.faults
  blobs_eq : f'.statistics.blobsReceived = f.statistics.blobsReceived
  told : ∃ told, f'.reporter.record = told ++ f.reporter.record ∧
    ∀ event ∈ told, event.ticket?.isSome

theorem Sends.trans (h₁ : f.Sends f₁) (h₂ : f₁.Sends f₂) : f.Sends f₂ := by
  obtain ⟨told₁, hrecord₁, houtcomes₁⟩ := h₁.told
  obtain ⟨told₂, hrecord₂, houtcomes₂⟩ := h₂.told
  exact {
    config_eq := h₂.config_eq.trans h₁.config_eq
    enabled_eq := h₂.enabled_eq.trans h₁.enabled_eq
    switches_eq := h₂.switches_eq.trans h₁.switches_eq
    receiver_eq := h₂.receiver_eq.trans h₁.receiver_eq
    faults_eq := h₂.faults_eq.trans h₁.faults_eq
    blobs_eq := h₂.blobs_eq.trans h₁.blobs_eq
    told := by
      refine ⟨told₂ ++ told₁, ?_, List.forall_mem_append.2 ⟨houtcomes₂, houtcomes₁⟩⟩
      rw [hrecord₂, hrecord₁, List.append_assoc] }

/-- A step that touches only what belongs to sending. -/
theorem sends_of_eq (hconfig : f₁.config = f.config) (henabled : f₁.enabled = f.enabled)
    (hswitches : f₁.switches = f.switches) (hreceiver : f₁.receiver = f.receiver)
    (hfaults : f₁.reporter.faults = f.reporter.faults)
    (hblobs : f₁.statistics.blobsReceived = f.statistics.blobsReceived)
    (hrecord : f₁.reporter.record = f.reporter.record) : f.Sends f₁ :=
  ⟨hconfig, henabled, hswitches, hreceiver, hfaults, hblobs, [], hrecord, List.forall_mem_nil _⟩

theorem Sends.refl (f : Framer queueDepth eventDepth) : f.Sends f :=
  sends_of_eq rfl rfl rfl rfl rfl rfl rfl

theorem sends_releasePacket (f : Framer queueDepth eventDepth) (packet : Packet) :
    f.Sends (f.releasePacket packet) :=
  sends_of_eq rfl rfl rfl rfl rfl rfl rfl

/-! ## Reports -/

theorem sends_emit (f : Framer queueDepth eventDepth) {event : LinkEvent}
    (h : event.ticket?.isSome) : f.Sends (f.emit event) := by
  obtain ⟨hrecord, hfaults, hblobs⟩ := f.reporter.emit_spares f.pool event
  exact ⟨rfl, rfl, rfl, rfl, hfaults, hblobs, [event], hrecord, List.forall_mem_singleton.2 h⟩

theorem record_giveUp (f : Framer queueDepth eventDepth) (o : Outgoing) (error : LinkError) :
    (f.giveUp o error).reporter.record = .sendFailed o.ticket error :: f.reporter.record :=
  (Reporter.emit_spares _ f.pool (.sendFailed o.ticket error)).1

theorem sends_giveUp (f : Framer queueDepth eventDepth) (o : Outgoing) (error : LinkError) :
    f.Sends (f.giveUp o error) := by
  obtain ⟨hrecord, hfaults, hblobs⟩ := Reporter.emit_spares
    (f.reporter.count fun s => { s with sendFailures := s.sendFailures + 1 }) f.pool
    (.sendFailed o.ticket error)
  exact ⟨rfl, rfl, rfl, rfl, hfaults, hblobs, [.sendFailed o.ticket error], hrecord,
    List.forall_mem_singleton.2 rfl⟩

/-! ## Writes -/

theorem sends_start {o : Outgoing} (h : f.start o = .ok f₁) : f.Sends f₁ := by
  unfold start at h
  simp only at h
  split at h
  · cases h
    have hcount : f.Sends
        (f.count fun s => { s with allocationFailures := s.allocationFailures + 1 }) :=
      sends_of_eq rfl rfl rfl rfl rfl rfl rfl
    exact hcount.trans (sends_giveUp _ _ _)
  · obtain ⟨⟨next, q⟩, -, h⟩ := exists_of_bind_eq_ok h
    cases next with
    | none => cases h
    | some next =>
        cases h
        exact sends_of_eq rfl rfl rfl rfl rfl rfl rfl

theorem sends_startUpTo (n : Nat) {f : Framer queueDepth eventDepth}
    (h : startUpTo n f = .ok f₁) : f.Sends f₁ := by
  induction n generalizing f with
  | zero =>
      cases h
      exact .refl _
  | succ n ih =>
      simp only [startUpTo] at h
      split at h
      · rename_i o queue hidle hpop
        obtain ⟨f₂, hstart, hrest⟩ := exists_of_bind_eq_ok h
        have hqueue : f.Sends { f with queue } := sends_of_eq rfl rfl rfl rfl rfl rfl rfl
        exact (hqueue.trans (sends_start hstart)).trans (ih hrest)
      · cases h
        exact .refl _

theorem sends_takeBack (f : Framer queueDepth eventDepth) (block : Block) :
    f.Sends (f.takeBack block).1 := by
  have hrelease : f.Sends (f.releaseBlock block) := sends_of_eq rfl rfl rfl rfl rfl rfl rfl
  unfold takeBack
  simp only
  split
  · rename_i hnext
    exact hrelease.trans (sends_startUpTo _ hnext)
  · exact hrelease

theorem sends_proceed (f : Framer queueDepth eventDepth) (o : Outgoing) (segments : Segments)
    (block : Block) : f.Sends (f.proceed o segments block).1 := by
  unfold proceed
  simp only
  split
  · exact sends_of_eq rfl rfl rfl rfl rfl rfl rfl
  · exact sends_of_eq rfl rfl rfl rfl rfl rfl rfl
  · rename_i q _
    have hcount : f.Sends (Framer.count { f.count fun s =>
        { s with blobsSent := s.blobsSent + 1 } with pool := q } fun s =>
          { s with packetsSent := s.packetsSent + 1 }) := sends_of_eq rfl rfl rfl rfl rfl rfl rfl
    have hticket : (LinkEvent.sent o.ticket).ticket?.isSome := rfl
    have hsent := hcount.trans (sends_emit _ hticket)
    exact (hsent.trans (sends_releasePacket _ o.packet)).trans (sends_takeBack _ block)

theorem sends_writeComplete (f : Framer queueDepth eventDepth) (block : Block)
    (result : WriteResult) : f.Sends (f.writeComplete block result).1 := by
  have hidle : f.Sends { f with transmission := .idle } := sends_of_eq rfl rfl rfl rfl rfl rfl rfl
  unfold writeComplete
  simp only
  split
  · split
    · exact hidle.trans (sends_proceed _ _ _ _)
    · rename_i o _ _ _ _
      have hcount : f.Sends (Framer.count { f with transmission := .idle } fun s =>
          { s with aborts := s.aborts + 1 }) := sends_of_eq rfl rfl rfl rfl rfl rfl rfl
      exact (hcount.trans (sends_giveUp _ o .channelAborted)).trans (sends_takeBack _ block)
  · exact hidle.trans (sends_takeBack _ block)

/-- A packet on the wire loses its content type again, or is queued and the next one started. -/
theorem enqueue_cases {packet : Packet} {answer : Except (SendError × Packet) Ticket}
    (h : f.enqueue packet = .ok (answer, f₁)) :
    (∃ packet' q, packet.advance f.pool f.config.tagLength = .ok (packet', q) ∧
      answer = .error (if f.enabled then .queueFull else .disconnected, packet') ∧
      f₁ = { f with pool := q }) ∨
    ∃ queue, f.queue.push { ticket := f.nextTicket, packet } = .ok queue ∧
      { f with queue, nextTicket := ⟨f.nextTicket.number + 1⟩ }.startNext = .ok f₁ ∧
      answer = .ok f.nextTicket := by
  have hback : ∀ {error}, f.turnBack error packet = .ok (answer, f₁) →
      ∃ packet' q, packet.advance f.pool f.config.tagLength = .ok (packet', q) ∧
        answer = .error (error, packet') ∧ f₁ = { f with pool := q } := by
    intro error h
    obtain ⟨⟨packet', q⟩, hadvance, h⟩ := exists_of_bind_eq_ok h
    cases h
    exact ⟨packet', q, hadvance, rfl, rfl⟩
  by_cases henabled : f.enabled
  · rw [if_pos henabled]
    cases hpush : f.queue.push { ticket := f.nextTicket, packet } with
    | error rejected =>
        have hfull := ((BoundedQueue.push_eq_error_iff _ _ _).1 hpush).1
        exact Or.inl (hback (enqueue_of_full henabled hfull packet ▸ h))
    | ok queue =>
        rw [enqueue_of_push henabled hpush] at h
        obtain ⟨f₂, hnext, h⟩ := exists_of_bind_eq_ok h
        cases h
        exact Or.inr ⟨queue, rfl, hnext, rfl⟩
  · rw [if_neg henabled]
    rw [Bool.not_eq_true] at henabled
    exact Or.inl (hback (enqueue_of_closed henabled packet ▸ h))

theorem sends_enqueue {packet : Packet} {answer : Except (SendError × Packet) Ticket}
    (h : f.enqueue packet = .ok (answer, f₁)) : f.Sends f₁ := by
  obtain ⟨packet', q, -, -, rfl⟩ | ⟨queue, -, hnext, -⟩ := enqueue_cases h
  · exact sends_of_eq rfl rfl rfl rfl rfl rfl rfl
  · have hqueue : f.Sends { f with queue, nextTicket := ⟨f.nextTicket.number + 1⟩ } :=
      sends_of_eq rfl rfl rfl rfl rfl rfl rfl
    exact hqueue.trans (sends_startUpTo _ hnext)

theorem sends_send {contentType : ContentType} {packet : Packet}
    {answer : Except (SendError × Packet) Ticket}
    (h : f.send contentType packet = .ok (answer, f₁)) : f.Sends f₁ := by
  unfold send at h
  split at h
  · cases h
    exact .refl _
  · split at h
    · cases h
      exact .refl _
    · obtain ⟨⟨tagged, q⟩, -, h⟩ := exists_of_bind_eq_ok h
      have hpool : f.Sends { f with pool := q } := sends_of_eq rfl rfl rfl rfl rfl rfl rfl
      cases tagged with
      | error e =>
          cases h
          exact hpool
      | ok tagged => exact hpool.trans (sends_enqueue h)

/-! ## Giving up -/

theorem sends_cancel (f : Framer queueDepth eventDepth) : f.Sends f.cancel := by
  unfold cancel
  split
  · rename_i o _ _ _
    have hcancelled : f.Sends { f with transmission := .cancelled } :=
      sends_of_eq rfl rfl rfl rfl rfl rfl rfl
    exact hcancelled.trans (sends_giveUp _ o .disconnected)
  · exact .refl f

theorem sends_flushUpTo (n : Nat) (f : Framer queueDepth eventDepth) :
    f.Sends (flushUpTo n f) := by
  induction n generalizing f with
  | zero => exact .refl f
  | succ n ih =>
      unfold flushUpTo
      split
      · exact .refl f
      · rename_i o queue _
        have hqueue : f.Sends { f with queue } := sends_of_eq rfl rfl rfl rfl rfl rfl rfl
        exact (hqueue.trans (sends_giveUp _ o .disconnected)).trans (ih _)

end Framer

namespace Session

open Framer

variable {queueDepth eventDepth : Nat} {s s' : Session queueDepth eventDepth} {a : Action}

/-- Between two actions there is nothing to tell the channel. -/
theorem Sound.settle_eq (hs : s.Sound) : s.station.settle = s.station := by
  obtain ⟨⟨f, channel, kept, held, issued⟩, accepted, popped⟩ := s
  obtain ⟨config, pool, enabled, nextTicket, queue, transmission, receiver, reporter, orders⟩ := f
  obtain rfl : orders = [] := hs.settled
  rfl

theorem step_receive {f : Framer queueDepth eventDepth} {data : Bytes}
    (h : s.framer.received data = .ok f) : s.step (.receive data) =
      .ok { s with station := Station.settle { s.station with endpoint := f } } := by
  have hstation : s.station.receive data =
      (s.framer.received data).map fun endpoint => Station.settle { s.station with endpoint } := rfl
  rw [step, hstation, h]
  rfl

theorem enabled_settle (st : Station (Framer queueDepth eventDepth)) :
    st.settle.channel.enabled = (st.channel.obeyAll st.endpoint.switches.reverse).enabled := by
  rw [switches, ← List.filter_reverse]
  exact Channel.enabled_obeyAll _ rfl

/-- Telling the channel of writes neither opens nor closes it. -/
theorem sends_settle {f : Framer queueDepth eventDepth}
    {st : Station (Framer queueDepth eventDepth)} (hsettled : f.orders = [])
    (h : f.Sends st.endpoint) :
    f.Sends st.settle.endpoint ∧ st.settle.channel.enabled = st.channel.enabled := by
  have hnone : st.endpoint.switches = [] := by
    rw [h.switches_eq, switches, hsettled]
    rfl
  have htold : st.endpoint.Sends st.settle.endpoint :=
    sends_of_eq rfl rfl hnone.symm rfl rfl rfl rfl
  refine ⟨h.trans htold, (enabled_settle st).trans ?_⟩
  rw [hnone]
  rfl

theorem sends_popEvent {f f' : Framer queueDepth eventDepth} {event : LinkEvent}
    (h : f.popEvent? = some (event, f')) : f.Sends f' := by
  obtain ⟨⟨_, events⟩, -, heq⟩ := Option.map_eq_some_iff.1 h
  cases heq
  exact sends_of_eq rfl rfl rfl rfl rfl rfl rfl

/-- What the application sends, takes and holds and what the channel completes is a matter of the
send path. -/
theorem Sound.sends_step (hs : s.Sound) (ha : a.isOptional) (hstep : s.step a = .ok s') :
    s.framer.Sends s'.framer ∧ s'.station.channel.enabled = s.station.channel.enabled := by
  have hrefl : s.framer.Sends s.framer ∧
      s.station.channel.enabled = s.station.channel.enabled := ⟨.refl _, rfl⟩
  cases a with
  | enable => cases ha
  | disable => cases ha
  | receive data => cases ha
  | transactionEnd => cases ha
  | send contentType packet =>
      simp only [step] at hstep
      split at hstep
      · obtain ⟨⟨answer, f⟩, hsend, hstep⟩ := exists_of_bind_eq_ok hstep
        cases answer with
        | ok ticket =>
            cases hstep
            exact sends_settle hs.settled (sends_send hsend)
        | error rejected =>
            cases hstep
            exact sends_settle hs.settled (sends_send hsend)
      · cases hstep
        exact hrefl
  | pop =>
      simp only [step] at hstep
      split at hstep
      · cases hstep
        exact hrefl
      · rename_i hpop
        cases hstep
        exact ⟨sends_popEvent hpop, rfl⟩
  | complete result =>
      cases hout : s.station.channel.outstanding with
      | nil =>
          simp only [step, Station.complete, Station.takeWrite?, hout, Option.map_none] at hstep
          cases hstep
          exact hrefl
      | cons w owed =>
          obtain ⟨f, fault, hcomplete⟩ : ∃ f fault,
              Endpoint.writeComplete s.station.endpoint w.block result = (f, fault) := ⟨_, _, rfl⟩
          simp only [step, Station.complete, Station.takeWrite?, hout, Option.map_some,
            Station.report, hcomplete] at hstep
          cases fault with
          | none =>
              cases hstep
              have hnext : (s.framer.writeComplete w.block result).1 = f :=
                congrArg Prod.fst hcomplete
              exact sends_settle hs.settled (hnext ▸ sends_writeComplete s.framer w.block result)
          | some fault => cases hstep
  | deed deed =>
      cases hstep
      exact ⟨sends_of_eq rfl rfl rfl rfl rfl rfl rfl, rfl⟩

end Session

end DockLink
