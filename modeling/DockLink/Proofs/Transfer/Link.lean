import DockLink.Proofs.Transfer.Demands
import Mathlib.Data.List.Infix

/-!
# From one framer to another

Two stations with the same configuration, of which one is told of what the other writes: in slices
cut anywhere, with transactions that end between blobs, while the writes are completed in full. What
is accepted at one end then comes out at the other. Everything else may happen in between, at both
ends.
-/

namespace DockLink

open Decoder

/-- Two stations. -/
structure Link (queueDepth eventDepth queueDepth' eventDepth' : Nat) where
  sender : Session queueDepth eventDepth
  receiver : Session queueDepth' eventDepth'
  /-- The number of bytes that the receiver was told of. -/
  reported : Nat := 0

/-- What happens on a link. -/
inductive LinkAction where
  /-- Something else happens to the sender than that it is closed or a write is completed. -/
  | sender (action : Action)
  /-- Something else happens to the receiver than that it is closed or told of input. -/
  | receiver (action : Action)
  /-- The sender's oldest write is completed in full. -/
  | complete
  /-- The receiver is told of the next bytes that the sender wrote, at most `n` of them. -/
  | report (n : Nat)
  /-- The receiver's transaction ends, if it is between two blobs. -/
  | transactionEnd
deriving DecidableEq

/-- Whether an action leaves the sender's channel alone. -/
def Action.isSending : Action → Bool
  | .disable | .complete _ => false
  | _ => true

/-- A session that was opened. -/
def Session.opened {queueDepth eventDepth : Nat} (f : Framer queueDepth eventDepth) :
    Session queueDepth eventDepth :=
  { (start f) with station := (start f).station.act Framer.enable }

namespace Link

variable {queueDepth eventDepth queueDepth' eventDepth' : Nat}

def start (f : Framer queueDepth eventDepth) (f' : Framer queueDepth' eventDepth') :
    Link queueDepth eventDepth queueDepth' eventDepth' :=
  { sender := .opened f, receiver := .opened f' }

variable (l : Link queueDepth eventDepth queueDepth' eventDepth')

/-- The blobs that the sender wrote, oldest first. -/
def blobs : List Bytes := l.sender.station.issued.reverse

/-- The bytes that the sender wrote. -/
def written : Bytes := l.blobs.flatten

/-- The receiver was told of whole blobs. -/
def AtBoundary : Prop := ∃ blobs ∈ l.blobs.inits, l.reported = blobs.flatten.length

instance : Decidable l.AtBoundary :=
  inferInstanceAs (Decidable (∃ blobs ∈ l.blobs.inits, l.reported = blobs.flatten.length))

def actSender (action : Action) : Except Fault (Link queueDepth eventDepth queueDepth' eventDepth') :=
  (l.sender.step action).map fun sender => { l with sender }

def actReceiver (action : Action) :
    Except Fault (Link queueDepth eventDepth queueDepth' eventDepth') :=
  (l.receiver.step action).map fun receiver => { l with receiver }

/-- The next bytes for the receiver. -/
def next (n : Nat) : Bytes := (l.written.drop l.reported).take n

def step : LinkAction → Except Fault (Link queueDepth eventDepth queueDepth' eventDepth')
  | .sender action => if action.isSending then l.actSender action else .ok l
  | .receiver action => if action.isOwn then l.actReceiver action else .ok l
  | .complete =>
    match l.sender.station.channel.outstanding with
    | [] => .ok l
    | w :: _ => l.actSender (.complete (.written w.length))
  | .report n =>
    (l.actReceiver (.receive (l.next n))).map fun l' =>
      { l' with reported := l.reported + (l.next n).length }
  | .transactionEnd => if l.AtBoundary then l.actReceiver .transactionEnd else .ok l

def run (l : Link queueDepth eventDepth queueDepth' eventDepth') :
    List LinkAction → Except Fault (Link queueDepth eventDepth queueDepth' eventDepth')
  | [] => .ok l
  | action :: rest => do run (← l.step action) rest

/-- The blocks that the framers ask for in a step, each with its pool at that moment. -/
def demandsOf : LinkAction → List Demand
  | .sender action => if action.isSending then l.sender.demands action else []
  | .receiver action => if action.isOwn then l.receiver.demands action else []
  | .complete =>
    match l.sender.station.channel.outstanding with
    | [] => []
    | w :: _ => l.sender.demands (.complete (.written w.length))
  | .report n => l.receiver.demands (.receive (l.next n))
  | .transactionEnd => []

/-- The blocks that the framers ask for in a run. -/
def demands (l : Link queueDepth eventDepth queueDepth' eventDepth') : List LinkAction → List Demand
  | [] => []
  | action :: rest =>
    l.demandsOf action ++
      match l.step action with
      | .error _ => []
      | .ok l => l.demands rest

end Link

/-! ## The sender's side -/

namespace Course

variable {config : Framer.Config} {c c' : Course} {a : Action}

theorem Step.issued_prefix (hstep : Step c a c') : c.issued <+: c'.issued := by
  cases hstep with
  | enable => exact List.prefix_rfl
  | disable => exact List.prefix_rfl
  | accept misses enabled ticket length_le => exact List.prefix_append _ _
  | receive enabled takes => exact List.prefix_rfl
  | transactionEnd => exact List.prefix_rfl
  | pop next => exact List.prefix_rfl
  | complete misses result busy => exact List.prefix_append _ _
  | deaf => exact List.prefix_rfl
  | stay => exact List.prefix_rfl

theorem goesOn_of_isSending (h : a.isSending) : c.GoesOn a := by
  cases a with
  | disable => cases h
  | complete result => cases h
  | enable => trivial
  | send contentType packet => trivial
  | receive data => trivial
  | transactionEnd => trivial
  | pop => trivial
  | deed deed => trivial

theorem filter_isOutcome_of_sent {reports : List Report}
    (h : ∀ ticket error, .sendFailed ticket error ∉ reports) :
    reports.filter Report.isOutcome = (reports.filterMap Report.ticket?).map .sent := by
  induction reports with
  | nil => rfl
  | cons r rest ih =>
      have hrest := ih fun ticket error hmem => h ticket error (List.mem_cons_of_mem _ hmem)
      cases r with
      | sent ticket => exact congrArg (Report.sent ticket :: ·) hrest
      | received contentType content => exact hrest
      | receiveFailed error consecutive => exact hrest
      | sendFailed ticket error => exact absurd (List.mem_cons_self ..) (h ticket error)

/-- A sender that is through with everything has sent everything. -/
theorem Sending.outcomes_eq (h : c.Sending config) (haccounted : c.Accounted)
    (hmem : c.outline.board.InMemory) (hall : c.AllTold) (hpending : c.outline.pending = []) :
    c.reports.filter Report.isOutcome = c.accepted.map fun a => .sent a.ticket := by
  have hrecord : c.reports.map Report.bare = c.outline.board.record.reverse := by
    refine haccounted.told.eq_of_length ?_
    rw [List.length_map, List.length_reverse]
    exact hall
  have hsent : ∀ ticket error, .sendFailed ticket error ∉ c.reports := by
    intro ticket error hreport
    have hevent : LinkEvent.sendFailed ticket error ∈ c.outline.board.record := by
      rw [← List.mem_reverse, ← hrecord]
      exact List.mem_map_of_mem (f := Report.bare) hreport
    obtain rfl := h.undisturbed _ hevent ticket error rfl
    exact hmem _ hevent rfl
  have htickets : c.reports.filterMap Report.ticket? = c.accepted.map Acceptance.ticket := by
    rw [haccounted.tickets_eq, hpending, List.append_nil, Board.outcomes, ← hrecord,
      List.filterMap_map]
    rfl
  rw [filter_isOutcome_of_sent hsent, htickets, List.map_map]
  rfl

/-- The blobs of all packets that were accepted give the packets back. -/
theorem whole_accepted {pool : Pool} (hcheck : config.check pool = .ok ())
    {accepted : List Acceptance} (hlength : ∀ a ∈ accepted, a.content.length ≤ config.maxPacket) :
    Whole { maxPayload := config.maxPayload, maxLength := config.maxStream } {}
      (accepted.flatMap (Acceptance.blobs config)) (accepted.flatMap (Acceptance.seen config)) {} := by
  induction accepted with
  | nil => exact .nil {}
  | cons a rest ih =>
      rw [List.forall_mem_cons] at hlength
      exact (Acceptance.whole_blobs hcheck hlength.1).append (ih hlength.2)

end Course

namespace Session

variable {queueDepth eventDepth : Nat} {s : Session queueDepth eventDepth}

/-- The oldest write is of the blob on the channel. -/
theorem Sound.wrote (hs : s.Sound) {w : Write} {rest : List Write}
    (hout : s.station.channel.outstanding = w :: rest) :
    s.course.outline.Wrote (.written w.length) := by
  intro p left expected hflight
  have hvalid := hs.framer.transmission
  rw [hout, hs.ordered_nil, List.append_nil] at hvalid
  have hflight' : s.framer.transmission.flight s.framer.pool = .sending p left expected := hflight
  cases ht : s.framer.transmission with
  | idle => rw [ht] at hflight'; cases hflight'
  | cancelled => rw [ht] at hflight'; cases hflight'
  | sending o segments expected' =>
      rw [ht] at hvalid hflight'
      obtain ⟨-, -, -, w', hw, hcarries⟩ := hvalid
      cases hflight'
      cases hw
      rw [hcarries.length_eq]

/-- No event found the queue full. -/
def AllTold (s : Session queueDepth eventDepth) : Prop :=
  s.reports.length = s.framer.reporter.record.length

theorem AllTold.course (h : s.AllTold) : s.course.AllTold :=
  h.trans (List.length_map LinkEvent.bare).symm

theorem opened_spec {config : Framer.Config} {pool : Pool} {f : Framer queueDepth eventDepth}
    (hpool : pool.Sound 0) (hf : Framer.ofConfig config pool = .ok f) :
    (opened f).Sound ∧ (opened f).course =
      { outline := (Outline.fresh config eventDepth).enable, accepted := [], popped := [], issued := [] } := by
  obtain ⟨hsound, hcourse⟩ := (sound_start hpool hf).unwritten
    (sound_start hpool hf).framer.enable (Outline.writes_enable _)
  have houtline : (start f).framer.outline = .fresh config eventDepth := Framer.outline_ofConfig hf
  rw [houtline] at hcourse
  exact ⟨hsound, hcourse⟩

/-- Nothing is on the channel if no write is owed. -/
theorem Sound.idle (hs : s.Sound) (hout : s.station.channel.outstanding = []) :
    s.course.outline.flight = .idle := by
  have hvalid := hs.framer.transmission
  rw [hout, hs.ordered_nil, List.append_nil] at hvalid
  refine Framer.Transmission.flight_eq_idle_iff.2 ?_
  cases ht : s.framer.transmission with
  | idle => rfl
  | cancelled =>
      rw [ht] at hvalid
      obtain ⟨w, hw⟩ := hvalid
      cases hw
  | sending o segments expected =>
      rw [ht] at hvalid
      obtain ⟨-, -, -, w, hw, -⟩ := hvalid
      cases hw

end Session

namespace Link

variable {queueDepth eventDepth queueDepth' eventDepth' : Nat}
  {l : Link queueDepth eventDepth queueDepth' eventDepth'} {config : Framer.Config}

/-- What holds of a link at every moment. -/
structure Holds (config : Framer.Config) (l : Link queueDepth eventDepth queueDepth' eventDepth') :
    Prop where
  sender : l.sender.Sound
  receiver : l.receiver.Sound
  senderAccounted : l.sender.course.Accounted
  receiverAccounted : l.receiver.course.Accounted
  sending : l.sender.course.Sending config
  reported_le : l.reported ≤ l.written.length
  receiving : l.sender.course.outline.board.InMemory → l.receiver.course.outline.board.InMemory →
    l.receiver.course.Receiving config (l.written.take l.reported)

theorem Holds.check (h : l.Holds config) : config.check l.sender.framer.pool = .ok () := by
  rw [← h.sending.config_eq]
  exact h.sender.framer.check

theorem Holds.actSender (h : l.Holds config) {a : Action} (hgoes : l.sender.course.GoesOn a) :
    ∃ l', l.actSender a = .ok l' ∧ l'.Holds config := by
  obtain ⟨sender, hstep, hsound, hcourse⟩ := h.sender.follows a
  obtain ⟨more, hmore⟩ := hcourse.issued_prefix
  have hwritten : written { l with sender } = l.written ++ more.flatten := by
    show sender.course.issued.flatten = _
    rw [← hmore, List.flatten_append]
    rfl
  refine ⟨{ l with sender }, by rw [Link.actSender, hstep]; rfl, ?_⟩
  exact {
    sender := hsound
    receiver := h.receiver
    senderAccounted := hcourse.accounted h.senderAccounted
    receiverAccounted := h.receiverAccounted
    sending := hcourse.sending hgoes h.sending
    reported_le := by
      rw [hwritten, List.length_append]
      exact h.reported_le.trans (Nat.le_add_right _ _)
    receiving := by
      intro hmem hmem'
      -- What is written from now on does not change what the receiver heard.
      rw [hwritten, List.take_append_of_le_length h.reported_le]
      exact h.receiving (hcourse.inMemory_before hmem) hmem' }

theorem Holds.actReceiver (h : l.Holds config) {a : Action} {reported : Nat}
    (hreported : reported ≤ l.written.length)
    (hreceiving : ∀ c, Course.Step l.receiver.course a c → l.sender.course.outline.board.InMemory →
      c.outline.board.InMemory → c.Receiving config (l.written.take reported)) :
    ∃ receiver, l.actReceiver a = .ok { l with receiver } ∧
      Holds config { l with receiver, reported } := by
  obtain ⟨receiver, hstep, hsound, hcourse⟩ := h.receiver.follows a
  refine ⟨receiver, by rw [Link.actReceiver, hstep]; rfl, ?_⟩
  exact {
    sender := h.sender
    receiver := hsound
    senderAccounted := h.senderAccounted
    receiverAccounted := hcourse.accounted h.receiverAccounted
    sending := h.sending
    reported_le := hreported
    receiving := hreceiving _ hcourse }

/-- While there is memory, the blobs that were written are the first of those of all accepted
packets. -/
theorem Holds.blobs_prefix (h : l.Holds config) (hmem : l.sender.course.outline.board.InMemory) :
    l.blobs <+: l.sender.accepted.flatMap (Acceptance.blobs config) :=
  ⟨_, h.sending.script_eq hmem⟩

/-- A receiver that was told of whole blobs waits for the next one. -/
theorem Holds.reading_eq (h : l.Holds config) (hboundary : l.AtBoundary)
    (hmem : l.sender.course.outline.board.InMemory)
    (hmem' : l.receiver.course.outline.board.InMemory) :
    ∃ p, l.receiver.course.outline.reading = .expect p [] := by
  obtain ⟨told, htold, hreported⟩ := hboundary
  obtain ⟨more, hmore⟩ := (List.mem_inits _ _).1 htold
  obtain ⟨left, hleft⟩ := h.blobs_prefix hmem
  have hheard : l.written.take l.reported = told.flatten := by
    rw [written, ← hmore, List.flatten_append, hreported, List.take_left]
  have hwhole := Course.whole_accepted h.check h.sending.length_le
  -- What was told is a front part of the blobs of all packets, so it is read to its end.
  have hsplit : told ++ (more ++ left) =
      l.sender.course.accepted.flatMap (Acceptance.blobs config) := by
    rw [← List.append_assoc, hmore]
    exact hleft
  rw [← hsplit] at hwhole
  obtain ⟨seen, p, hread⟩ := hwhole.of_append
  obtain ⟨hconfig, -, seen', hpush, -⟩ := h.receiving hmem hmem'
  have hscan : (State.expect {} []).push l.receiver.course.outline.limits
      (l.written.take l.reported) = (seen, .expect p []) := by
    rw [hheard, Outline.limits, hconfig]
    exact hread.scan_flatten
  exact ⟨p, (Prod.mk.inj (hpush.symm.trans hscan)).2⟩

theorem Holds.report (h : l.Holds config) (n : Nat) :
    ∃ l', l.step (.report n) = .ok l' ∧ l'.Holds config := by
  have hlength : l.reported + (l.next n).length ≤ l.written.length := by
    have := h.reported_le
    rw [next, List.length_take, List.length_drop]
    omega
  have hheard : l.written.take (l.reported + (l.next n).length) =
      l.written.take l.reported ++ l.next n := by
    rw [List.take_add, next, List.length_take, ← List.take_eq_take_min]
  obtain ⟨receiver, hact, hholds⟩ := h.actReceiver (a := .receive (l.next n)) hlength (by
    intro c hstep hmem hmem'
    have hreceiving := h.receiving hmem (hstep.inMemory_before hmem')
    rw [hheard]
    cases hstep with
    | receive enabled takes => exact hreceiving.receive h.receiverAccounted takes hmem'
    | deaf data closed => exact absurd hreceiving.enabled (by rw [closed]; nofun)
    | stay optional => cases optional)
  refine ⟨{ l with receiver, reported := l.reported + (l.next n).length }, ?_, hholds⟩
  rw [Link.step, hact]
  rfl

theorem Holds.transactionEnd (h : l.Holds config) :
    ∃ l', l.step .transactionEnd = .ok l' ∧ l'.Holds config := by
  by_cases hboundary : l.AtBoundary
  · obtain ⟨receiver, hact, hholds⟩ := h.actReceiver (a := .transactionEnd) h.reported_le (by
      intro c hstep hmem hmem'
      have hbefore := hstep.inMemory_before hmem'
      have hreceiving := h.receiving hmem hbefore
      obtain ⟨p, hreading⟩ := h.reading_eq hboundary hmem hbefore
      cases hstep with
      | transactionEnd =>
          rw [Outline.transactionEnd_of_expect hreading]
          exact hreceiving
      | stay optional => cases optional)
    exact ⟨{ l with receiver }, (if_pos hboundary).trans hact, hholds⟩
  · exact ⟨l, if_neg hboundary, h⟩

theorem Holds.step (h : l.Holds config) (a : LinkAction) :
    ∃ l', l.step a = .ok l' ∧ l'.Holds config := by
  cases a with
  | sender a =>
      by_cases hsending : a.isSending
      · obtain ⟨l', hact, hl'⟩ := h.actSender (Course.goesOn_of_isSending hsending)
        exact ⟨l', (if_pos hsending).trans hact, hl'⟩
      · exact ⟨l, if_neg hsending, h⟩
  | receiver a =>
      by_cases hown : a.isOwn
      · obtain ⟨receiver, hact, hholds⟩ := h.actReceiver h.reported_le fun c hstep hmem hmem' =>
          hstep.receiving hown h.receiverAccounted (h.receiving hmem (hstep.inMemory_before hmem'))
        exact ⟨{ l with receiver }, (if_pos hown).trans hact, hholds⟩
      · exact ⟨l, if_neg hown, h⟩
  | complete =>
      cases hout : l.sender.station.channel.outstanding with
      | nil => exact ⟨l, by simp only [Link.step, hout], h⟩
      | cons w rest =>
          obtain ⟨l', hact, hl'⟩ := h.actSender (a := .complete (.written w.length))
            (h.sender.wrote hout)
          exact ⟨l', by simpa only [Link.step, hout] using hact, hl'⟩
  | report n => exact h.report n
  | transactionEnd => exact h.transactionEnd

theorem Holds.run (actions : List LinkAction)
    {l : Link queueDepth eventDepth queueDepth' eventDepth'} (h : l.Holds config) :
    ∃ l', l.run actions = .ok l' ∧ l'.Holds config := by
  induction actions generalizing l with
  | nil => exact ⟨l, rfl, h⟩
  | cons a rest ih =>
      obtain ⟨l₁, hstep, h₁⟩ := h.step a
      obtain ⟨l', hrun, h'⟩ := ih h₁
      refine ⟨l', ?_, h'⟩
      rw [Link.run, hstep]
      exact hrun

/-! ## Memory -/

/-- No event at either end tells of missing memory. -/
def InMemory (l : Link queueDepth eventDepth queueDepth' eventDepth') : Prop :=
  l.sender.framer.InMemory ∧ l.receiver.framer.InMemory

theorem inMemory_actSender {l' : Link queueDepth eventDepth queueDepth' eventDepth'} {a : Action}
    (hs : l.sender.Sound) (hact : l.actSender a = .ok l') :
    l'.InMemory ↔ l.InMemory ∧ ∀ d ∈ l.sender.demands a, d.Met := by
  obtain ⟨sender, hstep, rfl⟩ := exists_of_map_eq_ok hact
  rw [InMemory, InMemory, hs.inMemory_step hstep, and_right_comm]

theorem inMemory_actReceiver {l' : Link queueDepth eventDepth queueDepth' eventDepth'} {a : Action}
    (hs : l.receiver.Sound) (hact : l.actReceiver a = .ok l') :
    l'.InMemory ↔ l.InMemory ∧ ∀ d ∈ l.receiver.demands a, d.Met := by
  obtain ⟨receiver, hstep, rfl⟩ := exists_of_map_eq_ok hact
  rw [InMemory, InMemory, hs.inMemory_step hstep, and_assoc]

theorem inMemory_sender {l' : Link queueDepth eventDepth queueDepth' eventDepth'} {a : Action}
    (hs : l.sender.Sound)
    (hstep : (if a.isSending then l.actSender a else .ok l) = Except.ok l') :
    l'.InMemory ↔
      l.InMemory ∧ ∀ d ∈ (if a.isSending then l.sender.demands a else []), d.Met := by
  by_cases hsending : a.isSending
  · rw [if_pos hsending] at hstep ⊢
    exact inMemory_actSender hs hstep
  · rw [if_neg hsending] at hstep
    cases hstep
    exact Demand.iff_of_nil (if_neg hsending) Iff.rfl

theorem inMemory_receiver {l' : Link queueDepth eventDepth queueDepth' eventDepth'} {a : Action}
    (hs : l.receiver.Sound)
    (hstep : (if a.isOwn then l.actReceiver a else .ok l) = Except.ok l') :
    l'.InMemory ↔
      l.InMemory ∧ ∀ d ∈ (if a.isOwn then l.receiver.demands a else []), d.Met := by
  by_cases hown : a.isOwn
  · rw [if_pos hown] at hstep ⊢
    exact inMemory_actReceiver hs hstep
  · rw [if_neg hown] at hstep
    cases hstep
    exact Demand.iff_of_nil (if_neg hown) Iff.rfl

theorem Holds.inMemory_step {l' : Link queueDepth eventDepth queueDepth' eventDepth'}
    {a : LinkAction} (h : l.Holds config) (hstep : l.step a = .ok l') :
    l'.InMemory ↔ l.InMemory ∧ ∀ d ∈ l.demandsOf a, d.Met := by
  cases a with
  | sender a => exact inMemory_sender h.sender hstep
  | receiver a => exact inMemory_receiver h.receiver hstep
  | complete =>
      cases hout : l.sender.station.channel.outstanding with
      | nil =>
          simp only [Link.step, hout] at hstep
          cases hstep
          refine Demand.iff_of_nil ?_ Iff.rfl
          simp only [demandsOf, hout]
      | cons w rest =>
          simp only [Link.step, hout] at hstep
          simp only [demandsOf, hout]
          exact inMemory_actSender h.sender hstep
  | report n =>
      obtain ⟨l₁, hact, rfl⟩ := exists_of_map_eq_ok hstep
      exact inMemory_actReceiver h.receiver hact
  | transactionEnd =>
      by_cases hboundary : l.AtBoundary
      · rw [Link.step, if_pos hboundary] at hstep
        exact inMemory_actReceiver h.receiver hstep
      · rw [Link.step, if_neg hboundary] at hstep
        cases hstep
        exact Demand.iff_of_nil rfl Iff.rfl

/-- Events tell of missing memory exactly if a pool had no room for a block that was asked for. -/
theorem Holds.inMemory_run (actions : List LinkAction)
    {l l' : Link queueDepth eventDepth queueDepth' eventDepth'} (h : l.Holds config)
    (hrun : l.run actions = .ok l') :
    l'.InMemory ↔ l.InMemory ∧ ∀ d ∈ l.demands actions, d.Met := by
  induction actions generalizing l with
  | nil =>
      cases hrun
      exact Demand.iff_of_nil rfl Iff.rfl
  | cons a rest ih =>
      obtain ⟨l₁, hstep, hrest⟩ := exists_of_bind_eq_ok hrun
      obtain ⟨l₂, hstep₂, h₁⟩ := h.step a
      cases hstep.symm.trans hstep₂
      rw [ih h₁ hrest, h.inMemory_step hstep, demands, hstep, List.forall_mem_append, and_assoc]

theorem inMemory_start {pool pool' : Pool} {f : Framer queueDepth eventDepth}
    {f' : Framer queueDepth' eventDepth'} (hpool : pool.Sound 0) (hpool' : pool'.Sound 0)
    (hf : Framer.ofConfig config pool = .ok f) (hf' : Framer.ofConfig config pool' = .ok f') :
    (start f f').InMemory := by
  constructor
  · rw [← Session.inMemory_course, show (start f f').sender.course = _ from
      (Session.opened_spec hpool hf).2]
    nofun
  · rw [← Session.inMemory_course, show (start f f').receiver.course = _ from
      (Session.opened_spec hpool' hf').2]
    nofun

/-- When everything is written and told, everything has come through. -/
theorem Holds.delivers (h : l.Holds config) (hdone : l.sender.station.channel.outstanding = [])
    (htold : l.reported = l.written.length) (hmem : l.sender.course.outline.board.InMemory)
    (hmem' : l.receiver.course.outline.board.InMemory) (hall : l.sender.course.AllTold)
    (hall' : l.receiver.course.AllTold) :
    l.receiver.course.reports.filter Report.isReception =
        l.sender.accepted.map (Acceptance.report config) ∧
      l.sender.course.reports.filter Report.isOutcome =
        l.sender.accepted.map fun a => .sent a.ticket := by
  have hidle := h.sender.idle hdone
  have hwaiting := h.sending.busy hidle
  have hpending : l.sender.course.outline.pending = [] := by
    rw [Outline.pending, hidle, hwaiting]
    rfl
  have hscript : l.sender.course.outline.script = [] := by
    rw [Outline.script, h.sender.writes_nil, hidle, hwaiting]
    rfl
  have hblobs : l.blobs = l.sender.accepted.flatMap (Acceptance.blobs config) := by
    have hall := h.sending.script_eq hmem
    rw [hscript, List.append_nil] at hall
    exact hall
  refine ⟨?_, h.sending.outcomes_eq h.senderAccounted hmem hall hpending⟩
  obtain ⟨hconfig, -, seen, hpush, hreports⟩ := h.receiving hmem hmem'
  have hwhole := (Course.whole_accepted h.check h.sending.length_le).scan_flatten
  have hscan : (State.expect {} []).push l.receiver.course.outline.limits
      (l.written.take l.reported) =
        (l.sender.accepted.flatMap (Acceptance.seen config), .expect {} []) := by
    rw [htold, List.take_length, written, hblobs, Outline.limits, hconfig]
    exact hwhole
  obtain rfl := (Prod.mk.inj (hpush.symm.trans hscan)).1
  rw [hreports Acceptance.clean_flatMap_seen hall', Acceptance.report?_flatMap_seen]

theorem start_holds {pool pool' : Pool} {f : Framer queueDepth eventDepth}
    {f' : Framer queueDepth' eventDepth'} (hpool : pool.Sound 0) (hpool' : pool'.Sound 0)
    (hf : Framer.ofConfig config pool = .ok f) (hf' : Framer.ofConfig config pool' = .ok f') :
    (start f f').Holds config := by
  obtain ⟨hsender, hcourse⟩ := Session.opened_spec hpool hf
  obtain ⟨hreceiver, hcourse'⟩ := Session.opened_spec hpool' hf'
  have hwritten : (start f f').written = [] := by
    show (Session.opened f).course.issued.flatten = []
    rw [hcourse]
    rfl
  exact {
    sender := hsender
    receiver := hreceiver
    senderAccounted := by
      show (Session.opened f).course.Accounted
      rw [hcourse]
      exact ⟨rfl, rfl, rfl, List.Sublist.refl _⟩
    receiverAccounted := by
      show (Session.opened f').course.Accounted
      rw [hcourse']
      exact ⟨rfl, rfl, rfl, List.Sublist.refl _⟩
    sending := by
      show (Session.opened f).course.Sending config
      rw [hcourse]
      exact ⟨rfl, nofun, fun _ => rfl, fun _ => rfl, nofun⟩
    reported_le := Nat.zero_le _
    receiving := by
      intro hmem hmem'
      show (Session.opened f').course.Receiving config _
      rw [hwritten, hcourse', List.take_nil]
      exact ⟨rfl, rfl, [], scan_nil {}, fun _ _ => rfl⟩ }

/-- Packets that are accepted at one end of a link come out at the other. Nothing faults, whatever
happens. If in the end all that was written is told and completed, each pool had room for a block
whenever its framer asked for one, and no event found a queue full, then the receiver reported each
accepted packet once, in order, with its content and, if packets carry one, its content type, and no
fault; and the sender reported each as sent. -/
theorem run_start_delivers {classes classes' : List (Nat × Nat)} {pool pool' : Pool}
    {f : Framer queueDepth eventDepth} {f' : Framer queueDepth' eventDepth'}
    (hpool : Pool.ofClasses classes = .ok pool) (hclasses : ∀ c ∈ classes, 1 ≤ c.1 ∧ c.2 ≤ 255)
    (hpool' : Pool.ofClasses classes' = .ok pool')
    (hclasses' : ∀ c ∈ classes', 1 ≤ c.1 ∧ c.2 ≤ 255)
    (hf : Framer.ofConfig config pool = .ok f) (hf' : Framer.ofConfig config pool' = .ok f')
    (actions : List LinkAction) :
    ∃ l, (start f f').run actions = .ok l ∧
      (l.sender.station.channel.outstanding = [] → l.reported = l.written.length →
        (∀ d ∈ (start f f').demands actions, d.Met) → l.sender.AllTold → l.receiver.AllTold →
        l.receiver.reports.filter Report.isReception =
            l.sender.accepted.map (Acceptance.report config) ∧
          l.sender.reports.filter Report.isOutcome =
            l.sender.accepted.map fun a => .sent a.ticket) := by
  have hsound := Pool.sound_of_ofClasses hpool hclasses
  have hsound' := Pool.sound_of_ofClasses hpool' hclasses'
  have hstart := start_holds hsound hsound' hf hf'
  obtain ⟨l, hrun, hholds⟩ := hstart.run actions
  refine ⟨l, hrun, ?_⟩
  intro hdone htold hmet hall hall'
  obtain ⟨hmem, hmem'⟩ :=
    (hstart.inMemory_run actions hrun).2 ⟨inMemory_start hsound hsound' hf hf', hmet⟩
  exact hholds.delivers hdone htold (l.sender.inMemory_course.2 hmem)
    (l.receiver.inMemory_course.2 hmem') hall.course hall'.course

/-- A framer whose blobs carry one byte, so that a content type takes two of them. -/
def byteFramer : Framer 2 2 :=
  { config := { maxPayload := 1, maxPacket := 3, tagged := true }, pool := ⟨#[.fresh 8 8]⟩
    receiver := { maxPayload := 1, maxLength := 5 } }

/-- A packet of two bytes and one without content, told in slices that do not fit the blobs. -/
def byteActions : List LinkAction :=
  [.sender (.deed (.allocate 2)), .sender (.deed (.write ⟨0, 0⟩ 0 [7, 8])),
    .sender (.send ⟨0x1234⟩ { chunks := [⟨⟨0, 0⟩, 0, 2⟩], length := 2 }),
    .sender (.send ⟨5⟩ .empty), .report 3, .transactionEnd, .complete, .report 11, .transactionEnd,
    .complete, .complete, .complete, .complete, .complete, .receiver .pop, .report 20, .report 20]

theorem byteActions_delivered : ∃ l, (start byteFramer byteFramer).run byteActions = .ok l ∧
    l.receiver.reports = [.received ⟨0x1234⟩ [7, 8], .received ⟨5⟩ []] ∧
    l.receiver.reports.filter Report.isReception =
      l.sender.accepted.map (Acceptance.report byteFramer.config) ∧
    l.sender.reports.filter Report.isOutcome = l.sender.accepted.map fun a => .sent a.ticket := by
  have hpool : Pool.ofClasses [(8, 8)] = .ok ⟨#[.fresh 8 8]⟩ := rfl
  have hf : Framer.ofConfig byteFramer.config ⟨#[.fresh 8 8]⟩ = .ok byteFramer := rfl
  obtain ⟨l, hrun, hdelivers⟩ :=
    run_start_delivers hpool (by decide) hpool (by decide) hf hf byteActions
  have hmet : ∀ d ∈ (start byteFramer byteFramer).demands byteActions, d.Met := by
    decide +kernel
  have hvalue : ((start byteFramer byteFramer).run byteActions).toOption.map (fun l => decide
      (l.sender.station.channel.outstanding = [] ∧ l.reported = l.written.length ∧
        l.sender.reports.length = l.sender.framer.reporter.record.length ∧
        l.receiver.reports.length = l.receiver.framer.reporter.record.length ∧
        l.receiver.reports = [.received ⟨0x1234⟩ [7, 8], .received ⟨5⟩ []])) = some true := by
    decide +kernel
  rw [hrun] at hvalue
  obtain ⟨hdone, htold, hall, hall', hreports⟩ := of_decide_eq_true (Option.some.inj hvalue)
  exact ⟨l, hrun, hreports, hdelivers hdone htold hmet hall hall'⟩

end Link

end DockLink
