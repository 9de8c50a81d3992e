import DockLink.Proofs.Memory.Holder
import DockLink.Proofs.Transfer.Operating
import DockLink.Transfer.Supervision

/-!
# Sessions

A session is a station at work: the application opens, closes, sends, takes events and uses the
blocks it holds, and the channel brings bytes and completes its writes, each once, in order and with
its own block. Everything may happen in any order. A session never faults, and what happens to it is
a step of its course, which speaks of plain data only.
-/

namespace DockLink

variable {queueDepth eventDepth : Nat}

/-- A packet that was accepted for sending, as the application saw it. -/
structure Acceptance where
  ticket : Ticket
  contentType : ContentType
  content : Bytes
deriving DecidableEq

/-- The packet on the wire. -/
def Acceptance.parcel (config : Framer.Config) (a : Acceptance) : Parcel :=
  { ticket := a.ticket, stream := config.tagBytes a.contentType ++ a.content }

/-- What happens at a station. -/
inductive Action where
  | enable
  | disable
  | send (contentType : ContentType) (packet : Packet)
  | receive (data : Bytes)
  | transactionEnd
  /-- The application takes an event. -/
  | pop
  /-- The channel completes its oldest write. -/
  | complete (result : WriteResult)
  | deed (deed : Deed)
deriving DecidableEq

/-- Whether an action may leave a session as it was. -/
def Action.isOptional : Action → Bool
  | .send _ _ | .pop | .complete _ | .deed _ => true
  | _ => false

/-- A station, with what the application was told. -/
structure Session (queueDepth eventDepth : Nat) where
  station : Station (Framer queueDepth eventDepth)
  /-- The packets that were accepted, oldest first. -/
  accepted : List Acceptance := []
  /-- The events that the application took, oldest first. -/
  popped : List Report := []

/-- The blocks of a packet, one handle for each chunk. -/
def Packet.blocks (p : Packet) : List Block := p.chunks.map Chunk.block

/-- The blocks of an event's packet. -/
def LinkEvent.blocks : LinkEvent → List Block
  | .received _ packet => packet.blocks
  | _ => []

theorem LinkEvent.coe_blocks (event : LinkEvent) : (event.blocks : Multiset Block) = event.handles := by
  cases event with
  | received contentType packet => rfl
  | sent ticket => rfl
  | sendFailed ticket error => rfl
  | receiveFailed error consecutive => rfl

namespace Session

def framer (s : Session queueDepth eventDepth) : Framer queueDepth eventDepth := s.station.endpoint

/-- A session that begins with a framer, and whose application holds nothing. -/
def start (f : Framer queueDepth eventDepth) : Session queueDepth eventDepth :=
  { station := { endpoint := f } }

/-- Hands a packet to the framer. One that is not accepted comes back. -/
def send (s : Session queueDepth eventDepth) (contentType : ContentType) (packet : Packet) :
    Except Fault (Session queueDepth eventDepth) := do
  let held := s.station.held.diff packet.blocks
  let (result, f) ← s.framer.send contentType packet
  match result with
  | .ok ticket =>
    let acceptance := { ticket, contentType, content := packet.content s.framer.pool }
    return { s with
      station := { s.station with endpoint := f, held }.settle
      accepted := s.accepted ++ [acceptance] }
  | .error (_, packet) =>
    return { s with station := { s.station with endpoint := f, held := packet.blocks ++ held }.settle }

/-- Takes an event out of the framer, with the handles of its packet. -/
def take (s : Session queueDepth eventDepth) (event : LinkEvent) (f : Framer queueDepth eventDepth) :
    Session queueDepth eventDepth :=
  { s with
    station := { s.station with endpoint := f, held := event.blocks ++ s.station.held }
    popped := s.popped ++ [event.report s.framer.pool] }

/-- The application uses its blocks. -/
def use (s : Session queueDepth eventDepth) (held : List Block) (pool : Pool) :
    Session queueDepth eventDepth :=
  { s with station := { s.station.withPool pool with held } }

/-- What happens next. The application can only send a packet of blocks that it holds, and the
channel can only complete a write that it owes; otherwise nothing happens. -/
def step (s : Session queueDepth eventDepth) :
    Action → Except Fault (Session queueDepth eventDepth)
  | .enable => .ok { s with station := s.station.act Framer.enable }
  | .disable => .ok { s with station := s.station.act Framer.disable }
  | .send contentType packet =>
    if packet.Valid s.framer.pool ∧ packet.handles ≤ (s.station.held : Multiset Block) then
      s.send contentType packet
    else .ok s
  | .receive data => (s.station.receive data).map fun station => { s with station }
  | .transactionEnd => .ok { s with station := s.station.transactionEnd }
  | .pop =>
    match s.framer.popEvent? with
    | none => .ok s
    | some (event, f) => .ok (s.take event f)
  | .complete result =>
    match s.station.complete fun _ => result with
    | none => .ok s
    | some (station, none) => .ok { s with station }
    | some (_, some fault) => .error fault
  | .deed deed =>
    .ok (s.use (deed.apply s.station.held s.framer.pool).1 (deed.apply s.station.held s.framer.pool).2)

def run (s : Session queueDepth eventDepth) :
    List Action → Except Fault (Session queueDepth eventDepth)
  | [] => .ok s
  | action :: rest => do run (← s.step action) rest

/-- What holds of a session between two actions. -/
structure Sound (s : Session queueDepth eventDepth) : Prop where
  framer : s.framer.Sound s.station.channel.outstanding s.station.held
  settled : s.framer.orders = []

end Session

/-- What a session comes to. -/
structure Course where
  outline : Outline
  accepted : List Acceptance
  popped : List Report
  /-- The bytes of every write, oldest first. -/
  issued : List Bytes

namespace Course

/-- The channel is told of the writes. -/
def settle (c : Course) : Course :=
  { c with outline := { c.outline with writes := [] }, issued := c.issued ++ c.outline.writes }

theorem settle_of_nil {c : Course} (h : c.outline.writes = []) : c.settle = c := by
  obtain ⟨outline, accepted, popped, issued⟩ := c
  obtain ⟨config, enabled, nextTicket, waiting, flight, reading, board, writes⟩ := outline
  obtain rfl : writes = [] := h
  simp only [settle, List.append_nil]

/-- The steps of a course, each with the action that brings it about. -/
inductive Step : Course → Action → Course → Prop where
  | enable (c : Course) : Step c .enable { c with outline := c.outline.enable }
  | disable (c : Course) : Step c .disable { c with outline := c.outline.disable }
  | accept {c : Course} {a : Acceptance} {packet : Packet} (misses : Nat)
      (enabled : c.outline.enabled) (ticket : a.ticket = c.outline.nextTicket)
      (length_le : a.content.length ≤ c.outline.config.maxPacket) :
      Step c (.send a.contentType packet)
        (settle { c with
          outline := (c.outline.accept (a.parcel c.outline.config).stream).fill misses
          accepted := c.accepted ++ [a] })
  | receive {c : Course} {data : Bytes} {seen : List Decoder.Seen} {reading : Decoder.State}
      (enabled : c.outline.enabled)
      (takes : c.outline.reading.Takes c.outline.limits data seen reading) :
      Step c (.receive data) { c with outline := c.outline.absorb seen reading }
  | transactionEnd (c : Course) : Step c .transactionEnd { c with outline := c.outline.transactionEnd }
  | pop {c : Course} {report : Report} {ring : List Report}
      (next : c.outline.board.ring = report :: ring) :
      Step c .pop { c with
        outline := { c.outline with board := { c.outline.board with ring } }
        popped := c.popped ++ [report] }
  | complete {c : Course} (misses : Nat) (result : WriteResult) (busy : c.outline.flight ≠ .idle) :
      Step c (.complete result) (settle { c with outline := c.outline.complete misses result })
  /-- Bytes that come in while the framer is closed. -/
  | deaf {c : Course} (data : Bytes) (closed : c.outline.enabled = false) : Step c (.receive data) c
  /-- An action that cannot be done, or does not show. -/
  | stay (c : Course) {a : Action} (optional : a.isOptional) : Step c a c

/-- A run of steps. -/
inductive Run : Course → List Action → Course → Prop where
  | done (c : Course) : Run c [] c
  | step {c c₁ c' : Course} {a : Action} {rest : List Action} (first : Step c a c₁)
      (run : Run c₁ rest c') : Run c (a :: rest) c'

end Course

/-- What the session comes to. -/
def Session.course (s : Session queueDepth eventDepth) : Course :=
  { outline := s.framer.outline
    accepted := s.accepted
    popped := s.popped
    issued := s.station.issued.reverse }

/-! ## Telling the channel -/

theorem Channel.outstanding_obeyAll (orders : List Order) (c : Channel) :
    (c.obeyAll orders).outstanding = c.outstanding ++ orders.filterMap Order.write? := by
  induction orders generalizing c with
  | nil => exact (List.append_nil _).symm
  | cons o rest ih =>
      rw [obeyAll, List.foldl_cons]
      refine (ih (c.obey o)).trans ?_
      cases o with
      | write w => simp [obey, Order.write?]
      | enable => rfl
      | disable => rfl
      | abortRx => rfl
      | abortTx => rfl

theorem Station.filterMap_bytesOf? (pool : Pool) (orders : List Order) :
    orders.filterMap (bytesOf? pool) = (orders.filterMap Order.write?).map (Write.bytes pool) := by
  rw [List.map_filterMap]
  congr 1
  funext o
  cases o with
  | write w => rfl
  | enable => rfl
  | disable => rfl
  | abortRx => rfl
  | abortTx => rfl

namespace Session

variable {s s' : Session queueDepth eventDepth} {f f' : Framer queueDepth eventDepth}
  {st : Station (Framer queueDepth eventDepth)} {owed : List Write} {rest : Multiset Block}

/-- When the channel is told, what the framer owed it is outstanding. -/
theorem sound_settle (hf : st.endpoint.Sound st.channel.outstanding st.held)
    (accepted : List Acceptance) (popped : List Report) :
    Sound { station := st.settle, accepted, popped } where
  framer := by
    have hchannel : st.settle.channel.outstanding =
        st.channel.outstanding ++ st.endpoint.ordered := Channel.outstanding_obeyAll _ _
    have hwrites : st.channel.outstanding ++ st.endpoint.ordered ++ ([] : List Write) =
        st.channel.outstanding ++ st.endpoint.ordered := List.append_nil _
    exact {
      check := hf.check
      limits := hf.limits
      pool := hf.pool.cast (by
        rw [hchannel]
        show _ = _ + Framer.lent (st.channel.outstanding ++ st.endpoint.ordered ++ []) + _
        rw [hwrites]
        rfl)
      queue := hf.queue
      transmission := by
        rw [hchannel]
        show Framer.Transmission.Valid _ _
          (st.channel.outstanding ++ st.endpoint.ordered ++ []) _
        rw [hwrites]
        exact hf.transmission
      receiver := hf.receiver
      reporter := hf.reporter }
  settled := rfl

theorem course_settle (st : Station (Framer queueDepth eventDepth)) (accepted : List Acceptance)
    (popped : List Report) :
    course { station := st.settle, accepted, popped } =
      Course.settle { outline := st.endpoint.outline, accepted, popped, issued := st.issued.reverse } := by
  have hissued : st.settle.issued.reverse =
      st.issued.reverse ++ st.endpoint.ordered.map (Write.bytes st.endpoint.pool) := by
    show (((st.endpoint.orders.reverse).filterMap
      (Station.bytesOf? st.endpoint.pool)).reverse ++ st.issued).reverse = _
    rw [List.reverse_append, List.reverse_reverse, Station.filterMap_bytesOf?]
    rfl
  rw [course, hissued]
  rfl

theorem Sound.ordered_nil (hs : s.Sound) : s.framer.ordered = [] := by
  rw [Framer.ordered, hs.settled]
  rfl

theorem Sound.writes_nil (hs : s.Sound) : s.course.outline.writes = [] := by
  show s.framer.ordered.map _ = []
  rw [hs.ordered_nil, List.map_nil]

/-- What a step of the framer makes of the session, once the channel is told. -/
theorem Sound.settled_of_goes {o : Outline} {held : List Block} {channel : Channel}
    (hgoes : s.framer.Goes owed rest o f') (howed : channel.outstanding = owed)
    (hheld : (held : Multiset Block) = rest) (accepted : List Acceptance) :
    Sound { s with
        station := { s.station with endpoint := f', channel, held }.settle, accepted } ∧
      course { s with
        station := { s.station with endpoint := f', channel, held }.settle, accepted } =
          Course.settle { s.course with outline := o, accepted } := by
  subst howed hheld
  refine ⟨sound_settle hgoes.sound _ _, (course_settle _ _ _).trans ?_⟩
  show Course.settle { s.course with outline := f'.outline, accepted } = _
  rw [hgoes.outline_eq]

/-- A step of the framer that gives the channel no write is a step of the outline. -/
theorem Sound.unwritten {o : Outline} (hs : s.Sound)
    (hgoes : s.framer.Goes s.station.channel.outstanding s.station.held o f')
    (hwrites : o.writes = s.framer.outline.writes) :
    Sound { s with station := { s.station with endpoint := f' }.settle } ∧
      course { s with station := { s.station with endpoint := f' }.settle } =
        { s.course with outline := o } := by
  obtain ⟨hsound, hcourse⟩ := settled_of_goes hgoes rfl rfl s.accepted
  have hnil : o.writes = [] := hwrites.trans hs.writes_nil
  exact ⟨hsound, hcourse.trans (Course.settle_of_nil hnil)⟩

/-- An action leads on, and shows as a step of the course. -/
def Follows (s : Session queueDepth eventDepth) (a : Action) : Prop :=
  ∃ s', s.step a = .ok s' ∧ s'.Sound ∧ Course.Step s.course a s'.course

theorem Sound.enable_follows (hs : s.Sound) : s.Follows .enable := by
  obtain ⟨hsound, hcourse⟩ := hs.unwritten hs.framer.enable (Outline.writes_enable _)
  exact ⟨_, rfl, hsound, hcourse ▸ .enable s.course⟩

theorem Sound.disable_follows (hs : s.Sound) : s.Follows .disable := by
  obtain ⟨hsound, hcourse⟩ := hs.unwritten hs.framer.disable (Outline.writes_disable _)
  exact ⟨_, rfl, hsound, hcourse ▸ .disable s.course⟩

theorem Sound.transactionEnd_follows (hs : s.Sound) : s.Follows .transactionEnd := by
  obtain ⟨hsound, hcourse⟩ := hs.unwritten hs.framer.transactionEnd (Outline.writes_transactionEnd _)
  exact ⟨_, rfl, hsound, hcourse ▸ .transactionEnd s.course⟩

theorem Sound.receive_follows (hs : s.Sound) (data : Bytes) : s.Follows (.receive data) := by
  obtain ⟨f', hreceived, hdone⟩ := hs.framer.received data
  have hstep : s.step (.receive data) =
      .ok { s with station := { s.station with endpoint := f' }.settle } := by
    show (((s.framer.received data).map _).map _) = _
    rw [hreceived]
    rfl
  cases henabled : s.framer.enabled with
  | false =>
      rw [henabled] at hdone
      obtain rfl := hdone
      obtain ⟨hsound, hcourse⟩ := hs.unwritten ⟨hs.framer, Pool.Keeps.refl _ _, rfl⟩ rfl
      exact ⟨_, hstep, hsound, hcourse ▸ .deaf (c := s.course) data henabled⟩
  | true =>
      rw [henabled, if_pos rfl] at hdone
      obtain ⟨seen, reading, htakes, hgoes⟩ := hdone
      obtain ⟨hsound, hcourse⟩ := hs.unwritten hgoes rfl
      exact ⟨_, hstep, hsound, hcourse ▸ .receive (c := s.course) henabled htakes⟩

theorem Sound.send_follows (hs : s.Sound) (contentType : ContentType) (packet : Packet) :
    s.Follows (.send contentType packet) := by
  by_cases hown : packet.Valid s.framer.pool ∧ packet.handles ≤ (s.station.held : Multiset Block)
  · obtain ⟨hvalid, hle⟩ := hown
    -- The handles of the packet are among those of the application; the others stay with it.
    have hheld : packet.handles + ((s.station.held.diff packet.blocks : List Block) : Multiset Block) =
        s.station.held := by
      rw [← Multiset.coe_sub, add_comm]
      exact Multiset.sub_add_cancel hle
    have hstep : s.step (.send contentType packet) = s.send contentType packet :=
      if_pos ⟨hvalid, hle⟩
    obtain ⟨error, f', hsend, hgoes⟩ | ⟨f', misses, hsend, henabled, hlength, hgoes⟩ :=
      (hs.framer.cast hheld.symm).send hvalid contentType
    · have hback : ((packet.blocks ++ s.station.held.diff packet.blocks : List Block) :
          Multiset Block) = packet.handles + (s.station.held.diff packet.blocks : List Block) := rfl
      obtain ⟨hsound, hcourse⟩ := settled_of_goes hgoes rfl hback s.accepted
      refine ⟨_, hstep.trans ?_, hsound, ?_⟩
      · rw [Session.send, hsend]
        rfl
      · rw [hcourse]
        exact (Course.settle_of_nil hs.writes_nil).symm ▸ .stay _ rfl
    · let a : Acceptance :=
        { ticket := s.framer.nextTicket, contentType, content := packet.content s.framer.pool }
      obtain ⟨hsound, hcourse⟩ := settled_of_goes hgoes rfl rfl (s.accepted ++ [a])
      have hlength' : a.content.length ≤ s.course.outline.config.maxPacket :=
        hvalid.length_content.trans_le hlength
      refine ⟨_, hstep.trans ?_, hsound, ?_⟩
      · rw [Session.send, hsend]
        rfl
      · rw [hcourse]
        exact Course.Step.accept (c := s.course) (a := a) misses henabled rfl hlength'
  · exact ⟨s, if_neg hown, hs, .stay _ rfl⟩

theorem Sound.pop_follows (hs : s.Sound) : s.Follows .pop := by
  cases hp : s.framer.popEvent? with
  | none => exact ⟨s, by simp only [step, hp], hs, .stay _ rfl⟩
  | some popped =>
      obtain ⟨event, f'⟩ := popped
      obtain ⟨hsound, horders, ring, hring, houtline⟩ := hs.framer.popEvent hp
      have hheld : event.handles + (s.station.held : Multiset Block) = (s.take event f').station.held := by
        rw [← event.coe_blocks, Multiset.coe_add]
        rfl
      have hcourse : (s.take event f').course = { s.course with
          outline := { s.course.outline with board := { s.course.outline.board with ring } }
          popped := s.course.popped ++ [event.report s.framer.pool] } := by
        rw [course, show (s.take event f').framer.outline = _ from houtline]
        rfl
      refine ⟨s.take event f', by simp only [step, hp], ⟨hsound.cast hheld, ?_⟩, ?_⟩
      · exact horders.trans hs.settled
      · rw [hcourse]
        exact Course.Step.pop (c := s.course) hring

/-- The channel completes the oldest write that it owes. -/
theorem Sound.completes (hs : s.Sound) {w : Write} {owed : List Write}
    (hout : s.station.channel.outstanding = w :: owed) (result : WriteResult) :
    ∃ s' misses, s.step (.complete result) = .ok s' ∧ s'.Sound ∧
      s.course.outline.flight ≠ .idle ∧ s'.course =
        Course.settle { s.course with outline := s.course.outline.complete misses result } := by
  have hframer := hs.framer
  rw [hout] at hframer
  obtain ⟨f', misses, hcomplete, hgoes⟩ := hframer.writeComplete hs.ordered_nil result
  have hreport : Endpoint.writeComplete s.station.endpoint w.block result = (f', none) := hcomplete
  have howed : ({ s.station.channel with outstanding := owed } : Channel).outstanding = owed := rfl
  obtain ⟨hsound, hcourse⟩ := settled_of_goes hgoes howed rfl s.accepted
  -- The channel owes a block only while something is on it.
  have hbusy : s.course.outline.flight ≠ .idle := by
    intro hidle
    have hnil := hframer.owes_nil (Framer.Transmission.flight_eq_idle_iff.1 hidle)
    cases hnil.1
  refine ⟨_, misses, ?_, hsound, hbusy, hcourse⟩
  simp only [step, Station.complete, Station.takeWrite?, hout, Option.map_some, Station.report,
    hreport]

theorem Sound.complete_follows (hs : s.Sound) (result : WriteResult) :
    s.Follows (.complete result) := by
  cases hout : s.station.channel.outstanding with
  | nil =>
      have hstep : s.step (.complete result) = .ok s := by
        simp only [step, Station.complete, Station.takeWrite?, hout, Option.map_none]
      exact ⟨s, hstep, hs, .stay _ rfl⟩
  | cons w owed =>
      obtain ⟨s', misses, hstep, hsound, hbusy, hcourse⟩ := hs.completes hout result
      refine ⟨s', hstep, hsound, ?_⟩
      rw [hcourse]
      exact Course.Step.complete (c := s.course) misses result hbusy

theorem Sound.deed_follows (hs : s.Sound) (deed : Deed) : s.Follows (.deed deed) := by
  have hpool : s.framer.pool.Sound ((s.station.held : Multiset Block) +
      (s.framer.handles + Framer.lent (s.station.channel.outstanding ++ s.framer.ordered))) :=
    hs.framer.pool.cast (add_comm _ _)
  obtain ⟨hsound, hkeeps⟩ := deed.apply_spec hpool
  obtain ⟨hframer, houtline⟩ := hs.framer.withPool (hsound.cast (add_comm _ _)) hkeeps
  have hcourse : (s.use (deed.apply s.station.held s.framer.pool).1
      (deed.apply s.station.held s.framer.pool).2).course = s.course := by
    rw [course, show (s.use _ _).framer.outline = _ from houtline]
    rfl
  refine ⟨_, rfl, ⟨hframer, hs.settled⟩, ?_⟩
  rw [hcourse]
  exact .stay _ rfl

/-- No action faults, and each is a step of the course. -/
theorem Sound.follows (hs : s.Sound) (a : Action) : s.Follows a := by
  cases a with
  | enable => exact hs.enable_follows
  | disable => exact hs.disable_follows
  | send contentType packet => exact hs.send_follows contentType packet
  | receive data => exact hs.receive_follows data
  | transactionEnd => exact hs.transactionEnd_follows
  | pop => exact hs.pop_follows
  | complete result => exact hs.complete_follows result
  | deed deed => exact hs.deed_follows deed

/-- However actions follow on each other, none faults, and they make a run of the course. -/
theorem Sound.run_follows (actions : List Action) {s : Session queueDepth eventDepth}
    (hs : s.Sound) :
    ∃ s', s.run actions = .ok s' ∧ s'.Sound ∧ Course.Run s.course actions s'.course := by
  induction actions generalizing s with
  | nil => exact ⟨s, rfl, hs, .done _⟩
  | cons a rest ih =>
      obtain ⟨s₁, hstep, hs₁, hcourse⟩ := hs.follows a
      obtain ⟨s', hrun, hs', hcourse'⟩ := ih hs₁
      refine ⟨s', ?_, hs', .step hcourse hcourse'⟩
      rw [run, hstep]
      exact hrun

/-- A framer that was just made, over a pool of which nobody holds a block. -/
theorem sound_start {config : Framer.Config} {pool : Pool} (hpool : pool.Sound 0)
    (hf : Framer.ofConfig config pool = .ok f) : (start f).Sound := by
  refine ⟨Framer.sound_ofConfig hpool hf, ?_⟩
  obtain ⟨-, rfl⟩ := Framer.ofConfig_eq_ok hf
  rfl

theorem course_start {config : Framer.Config} {pool : Pool}
    (hf : Framer.ofConfig config pool = .ok f) :
    (start f).course =
      { outline := .fresh config eventDepth, accepted := [], popped := [], issued := [] } := by
  rw [← Framer.outline_ofConfig hf]
  rfl

end Session

end DockLink
