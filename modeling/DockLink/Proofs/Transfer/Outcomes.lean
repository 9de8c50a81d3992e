import DockLink.Proofs.Transfer.Session

/-!
# The outcomes of packets

Every packet that is accepted has one outcome, and the outcomes come in the order in which the
packets were accepted. What is accepted and has no outcome yet is on the channel or in the queue. The
steps of an outline keep this account: a step that ends packets reports them, oldest first.
-/

namespace DockLink

/-- The ticket of which an event is the outcome. -/
def LinkEvent.ticket? : LinkEvent → Option Ticket
  | .sent ticket => some ticket
  | .sendFailed ticket _ => some ticket
  | _ => none

def Report.ticket? (r : Report) : Option Ticket := r.bare.ticket?

/-- Whether a report tells of what became of a packet that was accepted. -/
def Report.isOutcome (r : Report) : Bool := r.ticket?.isSome

/-- Whether a report tells of what came in. -/
def Report.isReception (r : Report) : Bool := r.ticket?.isNone

@[simp]
theorem LinkEvent.ticket?_bare (event : LinkEvent) : event.bare.ticket? = event.ticket? := by
  cases event with
  | received contentType packet => rfl
  | sent ticket => rfl
  | sendFailed ticket error => rfl
  | receiveFailed error consecutive => rfl

/-- A packet that was not sent. -/
def Report.failed (error : LinkError) (ticket : Ticket) : Report := .sendFailed ticket error

theorem Report.failed_not_reception (error : LinkError) (tickets : List Ticket) :
    ∀ r ∈ tickets.map (Report.failed error), r.isReception = false := by
  intro r hr
  obtain ⟨ticket, -, rfl⟩ := List.mem_map.1 hr
  rfl

theorem Report.eq_of_mem_failed {tickets : List Ticket} {ticket : Ticket} {error error' : LinkError}
    (h : .sendFailed ticket error ∈ tickets.map (Report.failed error')) : error = error' := by
  obtain ⟨t, -, heq⟩ := List.mem_map.1 h
  cases heq
  rfl

namespace Board

variable {b b₁ b₂ : Board} {reports reports₁ reports₂ : List Report}

/-- The tickets of the outcomes that were reported, oldest first. -/
def outcomes (b : Board) : List Ticket := b.record.reverse.filterMap LinkEvent.ticket?

/-- A board is given reports, of which some may find no room. -/
def Gains (b : Board) (reports : List Report) (b' : Board) : Prop :=
  ∃ kept, kept.Sublist reports ∧ b'.record = (reports.map Report.bare).reverse ++ b.record ∧
    b'.ring = b.ring ++ kept

theorem gains_nil (hrecord : b₁.record = b.record) (hring : b₁.ring = b.ring) : b.Gains [] b₁ :=
  ⟨[], List.Sublist.refl _, hrecord, hring.trans (List.append_nil _).symm⟩

theorem Gains.trans (h₁ : b.Gains reports₁ b₁) (h₂ : b₁.Gains reports₂ b₂) :
    b.Gains (reports₁ ++ reports₂) b₂ := by
  obtain ⟨kept₁, hsub₁, hrecord₁, hring₁⟩ := h₁
  obtain ⟨kept₂, hsub₂, hrecord₂, hring₂⟩ := h₂
  refine ⟨kept₁ ++ kept₂, hsub₁.append hsub₂, ?_, ?_⟩
  · rw [hrecord₂, hrecord₁, List.map_append, List.reverse_append, List.append_assoc]
  · rw [hring₂, hring₁, List.append_assoc]

theorem Gains.outcomes (h : b.Gains reports b₁) :
    b₁.outcomes = b.outcomes ++ reports.filterMap Report.ticket? := by
  obtain ⟨kept, -, hrecord, -⟩ := h
  rw [Board.outcomes, hrecord, List.reverse_append, List.reverse_reverse, List.filterMap_append,
    List.filterMap_map]
  rfl

theorem gains_emit (b : Board) (report : Report) : b.Gains [report] (b.emit report) := by
  unfold emit
  split
  · exact ⟨[report], List.Sublist.refl _, rfl, rfl⟩
  · exact ⟨[], List.nil_sublist _, rfl, (List.append_nil _).symm⟩

theorem gains_sendFailed (b : Board) (ticket : Ticket) (error : LinkError) :
    b.Gains [.sendFailed ticket error] (b.sendFailed ticket error) :=
  (gains_nil rfl rfl).trans (gains_emit _ _)

theorem gains_receiveFailed (b : Board) (error : LinkError) :
    ∃ consecutive, b.Gains [.receiveFailed error consecutive] (b.receiveFailed error) :=
  ⟨_, (gains_nil rfl rfl).trans (gains_emit _ _)⟩

/-- What the receive path puts out is no outcome. -/
theorem gains_absorb (config : Framer.Config) (b : Board) (seen : Decoder.Seen) :
    ∃ reports, reports.filterMap Report.ticket? = [] ∧ b.Gains reports (b.absorb config seen) := by
  cases seen with
  | blob => exact ⟨[], rfl, gains_nil rfl rfl⟩
  | fault error =>
      obtain ⟨consecutive, h⟩ := b.gains_receiveFailed error
      exact ⟨_, rfl, h⟩
  | packet content =>
      simp only [absorb]
      split
      · obtain ⟨consecutive, h⟩ := b.gains_receiveFailed .lengthOutOfRange
        exact ⟨_, rfl, h⟩
      · exact ⟨_, rfl, (gains_nil rfl rfl).trans (gains_emit _ _)⟩

theorem gains_absorbAll (config : Framer.Config) (seen : List Decoder.Seen) (b : Board) :
    ∃ reports, reports.filterMap Report.ticket? = [] ∧
      b.Gains reports (seen.foldl (Board.absorb config) b) := by
  induction seen generalizing b with
  | nil => exact ⟨[], rfl, gains_nil rfl rfl⟩
  | cons x rest ih =>
      obtain ⟨reports₁, hnone₁, h₁⟩ := b.gains_absorb config x
      obtain ⟨reports₂, hnone₂, h₂⟩ := ih (b.absorb config x)
      exact ⟨reports₁ ++ reports₂, by rw [List.filterMap_append, hnone₁, hnone₂]; rfl, h₁.trans h₂⟩

end Board

def Flight.tickets : Flight → List Ticket
  | .sending p _ _ => [p.ticket]
  | _ => []

namespace Outline

variable {o o₁ o₂ : Outline} {p : Parcel} {rest : List Parcel} {reports reports₁ reports₂ : List Report}

/-- The tickets of the packets that are not through yet, oldest first. -/
def pending (o : Outline) : List Ticket := o.flight.tickets ++ o.waiting.map Parcel.ticket

/-- A step that ends the packets of which it reports the outcome. -/
structure Ends (o : Outline) (reports : List Report) (o' : Outline) : Prop where
  config_eq : o'.config = o.config
  nextTicket_eq : o'.nextTicket = o.nextTicket
  gains : o.board.Gains reports o'.board
  pending_eq : o.pending = reports.filterMap Report.ticket? ++ o'.pending

theorem Ends.refl (o : Outline) : o.Ends [] o := ⟨rfl, rfl, Board.gains_nil rfl rfl, rfl⟩

theorem Ends.trans (h₁ : o.Ends reports₁ o₁) (h₂ : o₁.Ends reports₂ o₂) :
    o.Ends (reports₁ ++ reports₂) o₂ := by
  refine ⟨h₂.config_eq.trans h₁.config_eq, h₂.nextTicket_eq.trans h₁.nextTicket_eq,
    h₁.gains.trans h₂.gains, ?_⟩
  rw [h₁.pending_eq, h₂.pending_eq, List.filterMap_append, List.append_assoc]

/-! ## Sending -/

theorem ends_giveUp (hflight : o.flight.tickets = []) (hwaiting : o.waiting = p :: rest)
    (error : LinkError) :
    o.Ends [.sendFailed p.ticket error] ({ o with waiting := rest }.giveUp p error) := by
  refine ⟨rfl, rfl, Board.gains_sendFailed _ _ _, ?_⟩
  simp only [pending, giveUp, hflight, hwaiting]
  rfl

theorem ends_miss (hflight : o.flight.tickets = []) (hwaiting : o.waiting = p :: rest) :
    o.Ends [.sendFailed p.ticket .outOfMemory] ({ o with waiting := rest }.miss p) := by
  have h := ends_giveUp (o := o.count fun s =>
    { s with allocationFailures := s.allocationFailures + 1 }) hflight hwaiting .outOfMemory
  exact ⟨h.config_eq, h.nextTicket_eq, (Board.gains_nil rfl rfl).trans h.gains, h.pending_eq⟩

theorem ends_start (hidle : o.flight = .idle) (hwaiting : o.waiting = p :: rest) :
    o.Ends [] ({ o with waiting := rest }.start p) := by
  unfold start
  split
  · rename_i hcut
    exact absurd hcut (Blob.cut_ne_nil _ _)
  · refine ⟨rfl, rfl, Board.gains_nil rfl rfl, ?_⟩
    simp only [pending, hidle, hwaiting]
    rfl

/-- The packets that find no memory are reported, and the next one is on the channel. -/
theorem ends_fill (misses : Nat) (o : Outline) :
    ∃ missed : List Ticket, o.Ends (missed.map (Report.failed .outOfMemory)) (o.fill misses) := by
  by_cases hidle : o.flight = .idle
  · cases hwaiting : o.waiting with
    | nil => exact ⟨[], by rw [fill_of_empty hwaiting]; exact Ends.refl o⟩
    | cons p rest =>
        cases misses with
        | zero => exact ⟨[], by rw [fill_zero_cons hidle hwaiting]; exact ends_start hidle hwaiting⟩
        | succ misses =>
            -- A miss leaves the channel free, so the next packet is tried.
            have hmiss := ends_miss (by rw [hidle]; rfl) hwaiting
            obtain ⟨missed, hfill⟩ := ends_fill misses ({ o with waiting := rest }.miss p)
            refine ⟨p.ticket :: missed, ?_⟩
            rw [fill_succ_cons hidle hwaiting]
            exact hmiss.trans hfill
  · exact ⟨[], by rw [fill_of_busy hidle]; exact Ends.refl o⟩

/-- The packet on the channel goes on or is reported, as failed only if the channel cut its blob. -/
theorem ends_land (o : Outline) (result : WriteResult) :
    ∃ reports, o.Ends reports (o.land result) ∧ (∀ r ∈ reports, r.isReception = false) ∧
      (o.Wrote result → ∀ ticket error, .sendFailed ticket error ∉ reports) := by
  cases hflight : o.flight with
  | idle =>
      simp only [land, hflight]
      refine ⟨[], ⟨rfl, rfl, Board.gains_nil rfl rfl, ?_⟩, List.forall_mem_nil _,
        fun _ _ _ => List.not_mem_nil⟩
      simp only [pending, hflight]
      rfl
  | cancelled =>
      simp only [land, hflight]
      refine ⟨[], ⟨rfl, rfl, Board.gains_nil rfl rfl, ?_⟩, List.forall_mem_nil _,
        fun _ _ _ => List.not_mem_nil⟩
      simp only [pending, hflight]
      rfl
  | sending p left expected =>
      by_cases hresult : result = .written expected
      · simp only [land, hflight, if_pos hresult]
        cases left with
        | cons blob left =>
            refine ⟨[], ⟨rfl, rfl, Board.gains_nil rfl rfl, ?_⟩, List.forall_mem_nil _,
              fun _ _ _ => List.not_mem_nil⟩
            simp only [pending, hflight]
            rfl
        | nil =>
            refine ⟨[.sent p.ticket],
              ⟨rfl, rfl, (Board.gains_nil rfl rfl).trans (Board.gains_emit _ _), ?_⟩,
              List.forall_mem_singleton.2 rfl, fun _ _ _ h => ?_⟩
            · simp only [pending, hflight]
              rfl
            · cases List.mem_singleton.1 h
      · simp only [land, hflight, if_neg hresult]
        refine ⟨[.sendFailed p.ticket .channelAborted],
          ⟨rfl, rfl, (Board.gains_nil rfl rfl).trans (Board.gains_sendFailed _ _ _), ?_⟩,
          List.forall_mem_singleton.2 rfl, fun hwrote => absurd (hwrote p left expected hflight) hresult⟩
        simp only [pending, hflight]
        rfl

theorem ends_complete (misses : Nat) (o : Outline) (result : WriteResult) :
    ∃ reports, o.Ends reports (o.complete misses result) ∧ (∀ r ∈ reports, r.isReception = false) ∧
      (o.Wrote result → ∀ ticket error, .sendFailed ticket error ∈ reports → error = .outOfMemory) := by
  obtain ⟨reports, hland, houtcomes, hsent⟩ := ends_land o result
  obtain ⟨missed, hfill⟩ := ends_fill misses (o.land result)
  rw [complete_eq_fill]
  refine ⟨_, hland.trans hfill, ?_, ?_⟩
  · rw [List.forall_mem_append]
    exact ⟨houtcomes, Report.failed_not_reception _ _⟩
  · intro hwrote ticket error hmem
    rcases List.mem_append.1 hmem with hmem | hmem
    · exact absurd hmem (hsent hwrote ticket error)
    · exact Report.eq_of_mem_failed hmem

/-! ## Closing -/

/-- The packet on the channel is given up, before the queued ones. -/
theorem ends_cancel (o : Outline) : ∃ reports, o.Ends reports o.cancel ∧ o.cancel.flight.tickets = [] := by
  cases hflight : o.flight with
  | sending p left expected =>
      simp only [cancel, hflight]
      refine ⟨[.sendFailed p.ticket .disconnected], ⟨rfl, rfl, Board.gains_sendFailed _ _ _, ?_⟩, rfl⟩
      simp only [pending, hflight]
      rfl
  | idle =>
      simp only [cancel, hflight]
      exact ⟨[], Ends.refl o, rfl⟩
  | cancelled =>
      simp only [cancel, hflight]
      exact ⟨[], Ends.refl o, rfl⟩

theorem flush_cons (hwaiting : o.waiting = p :: rest) :
    o.flush = ({ o with waiting := rest }.giveUp p .disconnected).flush := by
  unfold flush
  rw [hwaiting]
  rfl

theorem ends_flush (hflight : o.flight.tickets = []) : ∃ reports, o.Ends reports o.flush := by
  suffices h : ∀ (rest : List Parcel) (o : Outline), o.flight.tickets = [] → o.waiting = rest →
      ∃ reports, o.Ends reports o.flush from h o.waiting o hflight rfl
  intro rest
  induction rest with
  | nil =>
      intro o hflight hwaiting
      have hflush : o.flush = o := by
        obtain ⟨config, enabled, nextTicket, waiting, flight, reading, board, writes⟩ := o
        obtain rfl : waiting = [] := hwaiting
        rfl
      exact ⟨[], by rw [hflush]; exact Ends.refl o⟩
  | cons p rest ih =>
      intro o hflight hwaiting
      obtain ⟨reports, hflush⟩ := ih ({ o with waiting := rest }.giveUp p .disconnected) hflight rfl
      rw [flush_cons hwaiting]
      exact ⟨_, (ends_giveUp hflight hwaiting .disconnected).trans hflush⟩

theorem ends_disable (o : Outline) : ∃ reports, o.Ends reports o.disable := by
  unfold disable
  split
  · obtain ⟨reports₁, hcancel, hflight⟩ :=
      ends_cancel { o with enabled := false, reading := .expect {} [] }
    obtain ⟨reports₂, hflush⟩ := ends_flush hflight
    have h := hcancel.trans hflush
    exact ⟨_, h.config_eq, h.nextTicket_eq, h.gains, h.pending_eq⟩
  · exact ⟨[], Ends.refl o⟩

theorem ends_enable (o : Outline) : o.Ends [] o.enable := by
  unfold enable
  split
  · exact Ends.refl o
  · exact ⟨rfl, rfl, Board.gains_nil rfl rfl, rfl⟩

/-! ## Receiving -/

theorem ends_absorb (o : Outline) (seen : List Decoder.Seen) (reading : Decoder.State) :
    ∃ reports, reports.filterMap Report.ticket? = [] ∧ o.Ends reports (o.absorb seen reading) := by
  obtain ⟨reports, hnone, hgains⟩ := Board.gains_absorbAll o.config seen o.board
  exact ⟨reports, hnone, rfl, rfl, hgains, by rw [hnone]; rfl⟩

theorem ends_transactionEnd (o : Outline) :
    ∃ reports, reports.filterMap Report.ticket? = [] ∧ o.Ends reports o.transactionEnd := by
  unfold transactionEnd
  split
  · exact ⟨[], rfl, rfl, rfl, Board.gains_nil rfl rfl, rfl⟩
  · split
    · obtain ⟨consecutive, hgains⟩ := o.board.gains_receiveFailed .channelAborted
      exact ⟨_, rfl, rfl, rfl, hgains, rfl⟩
    · exact ⟨[], rfl, rfl, rfl, Board.gains_nil rfl rfl, rfl⟩

end Outline

/-- The tickets are given in the order of their numbers, which come round. -/
def Ticket.nth (n : Nat) : Ticket := ⟨UInt16.ofNat n⟩

theorem Ticket.nth_succ (n : Nat) : nth (n + 1) = ⟨(nth n).number + 1⟩ := by
  simp [nth]

namespace Course

variable {c c' : Course} {a : Action} {o : Outline}

/-- The events that did not find the queue full, oldest first. -/
def reports (c : Course) : List Report := c.popped ++ c.outline.board.ring

theorem reports_pop {report : Report} {ring : List Report}
    (next : c.outline.board.ring = report :: ring) : (c.popped ++ [report]) ++ ring = c.reports := by
  rw [reports, next, List.append_assoc]
  rfl

/-- The account that a course keeps: what was accepted has its outcome or is not through yet. -/
structure Accounted (c : Course) : Prop where
  tickets_eq : c.accepted.map Acceptance.ticket = c.outline.board.outcomes ++ c.outline.pending
  numbered : c.accepted.map Acceptance.ticket = (List.range c.accepted.length).map Ticket.nth
  nextTicket_eq : c.outline.nextTicket = Ticket.nth c.accepted.length
  told : (c.reports.map Report.bare).Sublist c.outline.board.record.reverse

theorem Accounted.ends (h : c.Accounted) {ended : List Report} (hends : c.outline.Ends ended o) :
    Accounted { c with outline := o } where
  tickets_eq := by
    show c.accepted.map Acceptance.ticket = o.board.outcomes ++ o.pending
    rw [h.tickets_eq, hends.gains.outcomes, hends.pending_eq, List.append_assoc]
  numbered := h.numbered
  nextTicket_eq := hends.nextTicket_eq.trans h.nextTicket_eq
  told := by
    obtain ⟨kept, hkept, hrecord, hring⟩ := hends.gains
    show ((c.popped ++ o.board.ring).map Report.bare).Sublist o.board.record.reverse
    rw [hrecord, hring, List.reverse_append, List.reverse_reverse, ← List.append_assoc,
      List.map_append]
    exact h.told.append (hkept.map Report.bare)

theorem Accounted.settle (h : c.Accounted) : c.settle.Accounted :=
  ⟨h.tickets_eq, h.numbered, h.nextTicket_eq, h.told⟩

theorem Accounted.accept (h : c.Accounted) {a : Acceptance} (hticket : a.ticket = c.outline.nextTicket)
    (stream : Bytes) :
    Accounted { c with outline := c.outline.accept stream, accepted := c.accepted ++ [a] } where
  tickets_eq := by
    show (c.accepted ++ [a]).map Acceptance.ticket =
      c.outline.board.outcomes ++ (c.outline.accept stream).pending
    rw [List.map_append, h.tickets_eq, List.append_assoc]
    simp [Outline.pending, Outline.accept, hticket]
  numbered := by
    rw [List.map_append, h.numbered, List.length_append, List.length_singleton, List.range_succ,
      List.map_append, List.map_singleton, List.map_singleton, hticket, h.nextTicket_eq]
  nextTicket_eq := by
    show (⟨c.outline.nextTicket.number + 1⟩ : Ticket) = Ticket.nth (c.accepted ++ [a]).length
    rw [List.length_append, List.length_singleton, Ticket.nth_succ, h.nextTicket_eq]
  told := h.told

/-- No step loses a packet, and none reports one twice or out of turn. -/
theorem Step.accounted (hstep : Step c a c') (h : c.Accounted) : c'.Accounted := by
  cases hstep with
  | enable => exact h.ends (Outline.ends_enable _)
  | disable =>
      obtain ⟨reports, hends⟩ := Outline.ends_disable c.outline
      exact h.ends hends
  | @accept sent packet misses enabled ticket length_le =>
      have haccept := h.accept ticket (sent.parcel c.outline.config).stream
      -- The packet enters the account first, even if it is given up at once.
      obtain ⟨missed, hends⟩ := Outline.ends_fill misses (c.outline.accept _)
      exact (haccept.ends hends).settle
  | receive enabled takes =>
      obtain ⟨reports, -, hends⟩ := Outline.ends_absorb c.outline _ _
      exact h.ends hends
  | transactionEnd =>
      obtain ⟨reports, -, hends⟩ := Outline.ends_transactionEnd c.outline
      exact h.ends hends
  | pop next =>
      refine ⟨h.tickets_eq, h.numbered, h.nextTicket_eq, ?_⟩
      rw [reports, reports_pop next]
      exact h.told
  | complete misses result busy =>
      obtain ⟨reports, hends, -⟩ := Outline.ends_complete misses c.outline result
      exact (h.ends hends).settle
  | deaf => exact h
  | stay => exact h

theorem Run.accounted {actions : List Action} (hrun : Run c actions c') (h : c.Accounted) :
    c'.Accounted := by
  induction hrun with
  | done => exact h
  | step first run ih => exact ih (first.accounted h)

end Course

namespace Framer

variable {queueDepth eventDepth : Nat}

/-- The tickets of the outcomes that were reported, oldest first. A dropped event counts. -/
def outcomes (f : Framer queueDepth eventDepth) : List Ticket :=
  f.reporter.record.reverse.filterMap LinkEvent.ticket?

def Transmission.tickets : Transmission → List Ticket
  | .sending outgoing _ _ => [outgoing.ticket]
  | _ => []

/-- The tickets of the packet on the channel and of the queued ones, oldest first. -/
def pendingTickets (f : Framer queueDepth eventDepth) : List Ticket :=
  f.transmission.tickets ++ f.queue.toList.map Outgoing.ticket

theorem length_pendingTickets (f : Framer queueDepth eventDepth) :
    f.pendingTickets.length = f.pending := by
  rw [pendingTickets, pending, List.length_append, List.length_map, BoundedQueue.length_toList,
    Nat.add_comm]
  cases f.transmission with
  | idle => rfl
  | sending o segments expected => rfl
  | cancelled => rfl

theorem outcomes_outline (f : Framer queueDepth eventDepth) :
    f.outline.board.outcomes = f.outcomes := by
  show (f.reporter.record.map LinkEvent.bare).reverse.filterMap _ = _
  rw [← List.map_reverse, List.filterMap_map, outcomes]
  congr 1
  funext event
  exact event.ticket?_bare

theorem pending_outline (f : Framer queueDepth eventDepth) :
    f.outline.pending = f.pendingTickets := by
  show (f.transmission.flight f.pool).tickets ++ (f.queue.toList.map _).map _ = _
  rw [List.map_map, pendingTickets]
  cases f.transmission with
  | idle => rfl
  | sending o segments expected => rfl
  | cancelled => rfl

end Framer

namespace Session

variable {queueDepth eventDepth : Nat} {f : Framer queueDepth eventDepth}

/-- The events that did not find the queue full: those that the application took, and those that
wait for it. -/
def reports (s : Session queueDepth eventDepth) : List Report :=
  s.popped ++ s.framer.reporter.events.toList.map (LinkEvent.report s.framer.pool)

theorem accounted_start {config : Framer.Config} {pool : Pool}
    (hf : Framer.ofConfig config pool = .ok f) : (start f).course.Accounted := by
  rw [course_start hf]
  exact ⟨rfl, rfl, rfl, List.Sublist.refl _⟩

/-- However the application and the channel act, a session does not fault, and the tickets that were
accepted are those of the outcomes that were reported, in the same order, followed by those of the
packets that are not through yet. -/
theorem run_start_accounted {config : Framer.Config} {classes : List (Nat × Nat)} {pool : Pool}
    (hpool : Pool.ofClasses classes = .ok pool) (hclasses : ∀ c ∈ classes, 1 ≤ c.1 ∧ c.2 ≤ 255)
    (hf : Framer.ofConfig config pool = .ok f) (actions : List Action) :
    ∃ s, (start f).run actions = .ok s ∧
      s.accepted.map Acceptance.ticket = s.framer.outcomes ++ s.framer.pendingTickets ∧
      s.framer.pendingTickets.length = s.framer.pending ∧
      s.accepted.map Acceptance.ticket = (List.range s.accepted.length).map Ticket.nth ∧
      (s.reports.filterMap Report.ticket?).Sublist s.framer.outcomes := by
  obtain ⟨s, hrun, -, hcourse⟩ :=
    (sound_start (Pool.sound_of_ofClasses hpool hclasses) hf).run_follows actions
  have haccounted := hcourse.accounted (accounted_start hf)
  refine ⟨s, hrun, ?_, s.framer.length_pendingTickets, haccounted.numbered, ?_⟩
  · rw [← Framer.outcomes_outline, ← Framer.pending_outline]
    exact haccounted.tickets_eq
  · have htold := haccounted.told.filterMap LinkEvent.ticket?
    rw [List.filterMap_map] at htold
    rw [← Framer.outcomes_outline]
    exact htold

/-- A framer with room for two packets and one event. -/
def smallFramer : Framer 2 1 :=
  { config := { maxPayload := 4, maxPacket := 8 }, pool := ⟨#[.fresh 16 2]⟩
    receiver := { maxPayload := 4, maxLength := 8 } }

/-- Four packets without content. The first two are given up when the framer is closed, the third is
cut by the channel, and the fourth is on the channel. -/
def busyActions : List Action :=
  [.enable, .send {} .empty, .send {} .empty, .disable, .enable, .send {} .empty, .send {} .empty,
    .complete (.written 6), .complete .aborted]

theorem busyActions_accounted : ∃ s, (start smallFramer).run busyActions = .ok s ∧
    s.framer.outcomes = [⟨0⟩, ⟨1⟩, ⟨2⟩] ∧ s.framer.pendingTickets = [⟨3⟩] ∧
    s.reports = [.sendFailed ⟨0⟩ .disconnected] ∧
    s.accepted.map Acceptance.ticket = s.framer.outcomes ++ s.framer.pendingTickets := by
  have hpool : Pool.ofClasses [(16, 2)] = .ok ⟨#[.fresh 16 2]⟩ := rfl
  have hf : Framer.ofConfig { maxPayload := 4, maxPacket := 8 } ⟨#[.fresh 16 2]⟩ =
      .ok smallFramer := rfl
  obtain ⟨s, hrun, haccounted, -⟩ := run_start_accounted hpool (by decide) hf busyActions
  have hvalue : ((start smallFramer).run busyActions).toOption.map
      (fun s => (s.framer.outcomes, s.framer.pendingTickets, s.reports)) =
      some ([⟨0⟩, ⟨1⟩, ⟨2⟩], [⟨3⟩], [.sendFailed ⟨0⟩ .disconnected]) := by
    decide +kernel
  rw [hrun] at hvalue
  obtain ⟨houtcomes, hrest⟩ := Prod.mk.inj (Option.some.inj hvalue)
  obtain ⟨hpending, hreports⟩ := Prod.mk.inj hrest
  exact ⟨s, hrun, houtcomes, hpending, hreports, haccounted⟩

end Session

end DockLink
