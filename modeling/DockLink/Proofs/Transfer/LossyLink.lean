import DockLink.Proofs.Transfer.Hearing
import DockLink.Proofs.Transfer.Link
import DockLink.Proofs.Transfer.Progress

/-!
# From one framer to another over a channel that loses blobs

The two stations of a link, of which the channel loses some blobs as a whole: it aborts the write,
and the other end sees no byte of it, only that a transaction ends. What a lost blob was to complete
is then not dropped there, but stands in front of the next packet.
-/

namespace DockLink

open Decoder

theorem Course.goesOnOver_of_isSending {lost : Losses} {c : Course} {a : Action} (h : a.isSending) :
    c.GoesOnOver lost a := by
  cases a with
  | disable => cases h
  | complete result => cases h
  | enable => trivial
  | send contentType packet => trivial
  | receive data => trivial
  | transactionEnd => trivial
  | pop => trivial
  | deed deed => trivial

/-- The bytes at the front of signals. -/
def Signal.front : List Signal → Bytes
  | .byte b :: rest => b :: front rest
  | _ => []

theorem Signal.front_prefix (signals : List Signal) : (front signals).map .byte <+: signals := by
  induction signals with
  | nil => exact List.prefix_rfl
  | cons signal rest ih =>
      cases signal with
      | byte b => exact (List.prefix_cons_inj _).2 ih
      | transactionEnd => exact List.nil_prefix

namespace Link

variable {queueDepth eventDepth queueDepth' eventDepth' : Nat}

section Steps

variable (lost : Losses) (l : Link queueDepth eventDepth queueDepth' eventDepth')

/-- What the receiver is to be told of all that was written. -/
def signals : List Signal := lost.signals 0 l.blobs

/-- The next bytes for the receiver, up to the end of a transaction. -/
def nextOver (n : Nat) : Bytes := (Signal.front ((l.signals lost).drop l.reported)).take n

/-- What happens on a link over a channel that loses blobs. The channel gives the writes back in
order, those that it loses as aborted. The receiver is told of the rest, and of a transaction that
ends in the place of each lost blob; `reported` counts these too. -/
def stepOver : LinkAction → Except Fault (Link queueDepth eventDepth queueDepth' eventDepth')
  | .sender action => if action.isSending then l.actSender action else .ok l
  | .receiver action => if action.isOwn then l.actReceiver action else .ok l
  | .complete =>
    match l.sender.station.channel.outstanding with
    | [] => .ok l
    | w :: rest =>
      l.actSender (.complete (lost.result (l.blobs.length - (w :: rest).length) w.length))
  | .report n =>
    (l.actReceiver (.receive (l.nextOver lost n))).map fun l' =>
      { l' with reported := l.reported + (l.nextOver lost n).length }
  | .transactionEnd =>
    if (l.signals lost)[l.reported]? = some .transactionEnd then
      (l.actReceiver .transactionEnd).map fun l' => { l' with reported := l.reported + 1 }
    else .ok l

def runOver (l : Link queueDepth eventDepth queueDepth' eventDepth') :
    List LinkAction → Except Fault (Link queueDepth eventDepth queueDepth' eventDepth')
  | [] => .ok l
  | action :: rest => do runOver (← l.stepOver lost action) rest

/-- The blocks that the framers ask for in a step, each with its pool at that moment. -/
def demandsOfOver : LinkAction → List Demand
  | .sender action => if action.isSending then l.sender.demands action else []
  | .receiver action => if action.isOwn then l.receiver.demands action else []
  | .complete =>
    match l.sender.station.channel.outstanding with
    | [] => []
    | w :: rest =>
      l.sender.demands (.complete (lost.result (l.blobs.length - (w :: rest).length) w.length))
  | .report n => l.receiver.demands (.receive (l.nextOver lost n))
  | .transactionEnd => []

/-- The blocks that the framers ask for in a run. -/
def demandsOver (l : Link queueDepth eventDepth queueDepth' eventDepth') :
    List LinkAction → List Demand
  | [] => []
  | action :: rest =>
    l.demandsOfOver lost action ++
      match l.stepOver lost action with
      | .error _ => []
      | .ok l => l.demandsOver rest

end Steps

variable {l : Link queueDepth eventDepth queueDepth' eventDepth'} {config : Framer.Config}
  {lost : Losses}

structure HoldsOver (config : Framer.Config) (lost : Losses)
    (l : Link queueDepth eventDepth queueDepth' eventDepth') : Prop where
  sender : l.sender.Sound
  receiver : l.receiver.Sound
  sending : l.sender.course.SendingOver config lost
  reported_le : l.reported ≤ (l.signals lost).length
  hearing : l.receiver.course.outline.board.InMemory →
    l.receiver.course.Hearing config ((l.signals lost).take l.reported)

theorem HoldsOver.actSender (h : l.HoldsOver config lost) {a : Action}
    (hgoes : l.sender.course.GoesOnOver lost a) :
    ∃ l', l.actSender a = .ok l' ∧ l'.HoldsOver config lost := by
  obtain ⟨sender, hstep, hsound, hcourse⟩ := h.sender.follows a
  obtain ⟨more, hmore⟩ := hcourse.issued_prefix
  have hsignals : signals lost { l with sender } =
      l.signals lost ++ lost.signals (0 + l.blobs.length) more := by
    show lost.signals 0 sender.course.issued = _
    rw [← hmore, Losses.signals_append]
    rfl
  refine ⟨{ l with sender }, by rw [Link.actSender, hstep]; rfl, ?_⟩
  exact {
    sender := hsound
    receiver := h.receiver
    sending := hcourse.sendingOver hgoes h.sending
    reported_le := by
      rw [hsignals, List.length_append]
      exact h.reported_le.trans (Nat.le_add_right _ _)
    hearing := by
      -- What is written from now on does not change what the receiver heard.
      rw [hsignals, List.take_append_of_le_length h.reported_le]
      exact h.hearing }

theorem HoldsOver.actReceiver (h : l.HoldsOver config lost) {a : Action} {reported : Nat}
    (hreported : reported ≤ (l.signals lost).length)
    (hhearing : ∀ c, Course.Step l.receiver.course a c → c.outline.board.InMemory →
      c.Hearing config ((l.signals lost).take reported)) :
    ∃ receiver, l.actReceiver a = .ok { l with receiver } ∧
      HoldsOver config lost { l with receiver, reported } := by
  obtain ⟨receiver, hstep, hsound, hcourse⟩ := h.receiver.follows a
  refine ⟨receiver, by rw [Link.actReceiver, hstep]; rfl, ?_⟩
  exact {
    sender := h.sender
    receiver := hsound
    sending := h.sending
    reported_le := hreported
    hearing := hhearing _ hcourse }

theorem HoldsOver.report (h : l.HoldsOver config lost) (n : Nat) :
    ∃ l', l.stepOver lost (.report n) = .ok l' ∧ l'.HoldsOver config lost := by
  have hfront : (l.nextOver lost n).map .byte <+: (l.signals lost).drop l.reported :=
    ((List.take_prefix n _).map Signal.byte).trans (Signal.front_prefix _)
  have hheard : (l.signals lost).take (l.reported + (l.nextOver lost n).length) =
      (l.signals lost).take l.reported ++ (l.nextOver lost n).map .byte := by
    have htake := List.prefix_iff_eq_take.1 hfront
    rw [List.length_map] at htake
    rw [List.take_add, ← htake]
  have hlength : l.reported + (l.nextOver lost n).length ≤ (l.signals lost).length := by
    have hle := hfront.length_le
    have := h.reported_le
    rw [List.length_map, List.length_drop] at hle
    omega
  obtain ⟨receiver, hact, hholds⟩ := h.actReceiver (a := .receive (l.nextOver lost n)) hlength (by
    intro c hstep hmem
    rw [hheard]
    exact hstep.hearing_receive (h.hearing (hstep.inMemory_before hmem)) hmem)
  refine ⟨{ l with receiver, reported := l.reported + (l.nextOver lost n).length }, ?_, hholds⟩
  rw [stepOver, hact]
  rfl

theorem HoldsOver.transactionEnd (h : l.HoldsOver config lost) :
    ∃ l', l.stepOver lost .transactionEnd = .ok l' ∧ l'.HoldsOver config lost := by
  by_cases hnext : (l.signals lost)[l.reported]? = some .transactionEnd
  · obtain ⟨hlength, hget⟩ := List.getElem?_eq_some_iff.1 hnext
    have hle : l.reported + 1 ≤ (l.signals lost).length := hlength
    obtain ⟨receiver, hact, hholds⟩ := h.actReceiver (a := .transactionEnd) hle (by
      intro c hstep hmem
      rw [List.take_succ_eq_append_getElem hlength, hget]
      exact hstep.hearing_transactionEnd (h.hearing (hstep.inMemory_before hmem)))
    refine ⟨{ l with receiver, reported := l.reported + 1 }, ?_, hholds⟩
    rw [stepOver, if_pos hnext, hact]
    rfl
  · exact ⟨l, if_neg hnext, h⟩

theorem HoldsOver.meets (h : l.HoldsOver config lost) {w : Write} {rest : List Write}
    (hout : l.sender.station.channel.outstanding = w :: rest) :
    l.sender.course.outline.Meets lost l.sender.course.issued.length
      (lost.result (l.blobs.length - (w :: rest).length) w.length) := by
  intro p left expected hflight
  have hone := h.sender.length_outstanding
  rw [hout, List.length_cons] at hone
  obtain rfl : rest = [] := by
    refine List.eq_nil_of_length_eq_zero ?_
    split at hone
    · omega
    · omega
  have hlength : w.length = expected :=
    WriteResult.written.inj (h.sender.wrote hout p left expected hflight)
  rw [h.sender.writes_nil, hlength]
  rfl

theorem HoldsOver.step (h : l.HoldsOver config lost) (a : LinkAction) :
    ∃ l', l.stepOver lost a = .ok l' ∧ l'.HoldsOver config lost := by
  cases a with
  | sender a =>
      by_cases hsending : a.isSending
      · obtain ⟨l', hact, hl'⟩ := h.actSender (Course.goesOnOver_of_isSending hsending)
        exact ⟨l', (if_pos hsending).trans hact, hl'⟩
      · exact ⟨l, if_neg hsending, h⟩
  | receiver a =>
      by_cases hown : a.isOwn
      · obtain ⟨receiver, hact, hholds⟩ := h.actReceiver h.reported_le fun c hstep hmem =>
          hstep.hearing hown (h.hearing (hstep.inMemory_before hmem))
        exact ⟨{ l with receiver }, (if_pos hown).trans hact, hholds⟩
      · exact ⟨l, if_neg hown, h⟩
  | complete =>
      cases hout : l.sender.station.channel.outstanding with
      | nil => exact ⟨l, by simp only [stepOver, hout], h⟩
      | cons w rest =>
          obtain ⟨l', hact, hl'⟩ := h.actSender (a := .complete _) (h.meets hout)
          exact ⟨l', by simpa only [stepOver, hout] using hact, hl'⟩
  | report n => exact h.report n
  | transactionEnd => exact h.transactionEnd

theorem HoldsOver.run (actions : List LinkAction)
    {l : Link queueDepth eventDepth queueDepth' eventDepth'} (h : l.HoldsOver config lost) :
    ∃ l', l.runOver lost actions = .ok l' ∧ l'.HoldsOver config lost := by
  induction actions generalizing l with
  | nil => exact ⟨l, rfl, h⟩
  | cons a rest ih =>
      obtain ⟨l₁, hstep, h₁⟩ := h.step a
      obtain ⟨l', hrun, h'⟩ := ih h₁
      refine ⟨l', ?_, h'⟩
      rw [runOver, hstep]
      exact hrun

theorem HoldsOver.inMemory_step {l' : Link queueDepth eventDepth queueDepth' eventDepth'}
    {a : LinkAction} (h : l.HoldsOver config lost) (hstep : l.stepOver lost a = .ok l') :
    l'.InMemory ↔ l.InMemory ∧ ∀ d ∈ l.demandsOfOver lost a, d.Met := by
  cases a with
  | sender a => exact inMemory_sender h.sender hstep
  | receiver a => exact inMemory_receiver h.receiver hstep
  | complete =>
      cases hout : l.sender.station.channel.outstanding with
      | nil =>
          simp only [stepOver, hout] at hstep
          cases hstep
          refine Demand.iff_of_nil ?_ Iff.rfl
          simp only [demandsOfOver, hout]
      | cons w rest =>
          simp only [stepOver, hout] at hstep
          simp only [demandsOfOver, hout]
          exact inMemory_actSender h.sender hstep
  | report n =>
      obtain ⟨l₁, hact, rfl⟩ := exists_of_map_eq_ok hstep
      exact inMemory_actReceiver h.receiver hact
  | transactionEnd =>
      by_cases hnext : (l.signals lost)[l.reported]? = some .transactionEnd
      · rw [stepOver, if_pos hnext] at hstep
        obtain ⟨l₁, hact, rfl⟩ := exists_of_map_eq_ok hstep
        exact inMemory_actReceiver h.receiver hact
      · rw [stepOver, if_neg hnext] at hstep
        cases hstep
        exact Demand.iff_of_nil rfl Iff.rfl

/-- Events tell of missing memory exactly if a pool had no room for a block that was asked for. -/
theorem HoldsOver.inMemory_run (actions : List LinkAction)
    {l l' : Link queueDepth eventDepth queueDepth' eventDepth'} (h : l.HoldsOver config lost)
    (hrun : l.runOver lost actions = .ok l') :
    l'.InMemory ↔ l.InMemory ∧ ∀ d ∈ l.demandsOver lost actions, d.Met := by
  induction actions generalizing l with
  | nil =>
      cases hrun
      exact Demand.iff_of_nil rfl Iff.rfl
  | cons a rest ih =>
      obtain ⟨l₁, hstep, hrest⟩ := exists_of_bind_eq_ok hrun
      obtain ⟨l₂, hstep₂, h₁⟩ := h.step a
      cases hstep.symm.trans hstep₂
      rw [ih h₁ hrest, h.inMemory_step hstep, demandsOver, hstep, List.forall_mem_append, and_assoc]

theorem HoldsOver.splices (h : l.HoldsOver config lost)
    (hmem : l.sender.course.outline.board.InMemory)
    (hmem' : l.receiver.course.outline.board.InMemory) {contentType : ContentType} {content : Bytes}
    (hreport : .received contentType content ∈ l.receiver.course.reports) :
    ∃ stream, Board.unpack config stream = some (contentType, content) ∧
      Spliced config (lost.trips config 0 l.sender.accepted) l.blobs stream := by
  obtain ⟨-, -, seen, hlisten, hreports⟩ := h.hearing hmem'
  have hpacket : (contentType, content) ∈ l.receiver.course.reports.filterMap Report.packet? :=
    List.mem_filterMap.2 ⟨_, hreport, rfl⟩
  obtain ⟨stream, hstream, hunpack⟩ := List.mem_filterMap.1 (hreports.subset hpacket)
  have hall : stream ∈ packets ((State.expect {} []).listen config.limits (l.signals lost)).1 := by
    rw [← List.take_append_drop l.reported (l.signals lost), State.listen_append, hlisten,
      packets_append]
    exact List.mem_append_left _ hstream
  have hcheck : config.check l.sender.framer.pool = .ok () := by
    rw [← h.sending.config_eq]
    exact h.sender.framer.check
  obtain ⟨hpayload, -⟩ := Framer.Config.of_check hcheck
  have hwritten : l.blobs <+: lost.plan 0 (l.sender.accepted.map (Acceptance.blobs config)) :=
    ⟨_, h.sending.plan_eq hmem⟩
  exact ⟨stream, hunpack, (stands_fresh config []).trips l.sender.accepted hpayload.2 hpayload.1
    lost hwritten hall⟩

theorem start_holdsOver {pool pool' : Pool} {f : Framer queueDepth eventDepth}
    {f' : Framer queueDepth' eventDepth'} (hpool : pool.Sound 0) (hpool' : pool'.Sound 0)
    (hf : Framer.ofConfig config pool = .ok f) (hf' : Framer.ofConfig config pool' = .ok f')
    (lost : Losses) : (start f f').HoldsOver config lost := by
  obtain ⟨hsender, hcourse⟩ := Session.opened_spec hpool hf
  obtain ⟨hreceiver, hcourse'⟩ := Session.opened_spec hpool' hf'
  exact {
    sender := hsender
    receiver := hreceiver
    sending := by
      show (Session.opened f).course.SendingOver config lost
      rw [hcourse]
      exact ⟨rfl, fun _ => Outline.prospect_of_left rfl⟩
    reported_le := Nat.zero_le _
    hearing := by
      intro hmem
      show (Session.opened f').course.Hearing config _
      rw [hcourse']
      exact ⟨rfl, rfl, [], rfl, List.Sublist.refl _⟩ }

/-- What comes out at the other end of a channel that loses some blobs. Nothing faults. If each pool
had room for a block whenever its framer asked for one, a packet that the receiver reports ends with
all of a packet that was accepted and of which no blob was lost. In front of it stand those blobs
that came through of the packets just before it, of which a later blob was lost; if there are none,
it is the accepted packet. -/
theorem run_start_splices {classes classes' : List (Nat × Nat)} {pool pool' : Pool}
    {f : Framer queueDepth eventDepth} {f' : Framer queueDepth' eventDepth'}
    (hpool : Pool.ofClasses classes = .ok pool) (hclasses : ∀ c ∈ classes, 1 ≤ c.1 ∧ c.2 ≤ 255)
    (hpool' : Pool.ofClasses classes' = .ok pool')
    (hclasses' : ∀ c ∈ classes', 1 ≤ c.1 ∧ c.2 ≤ 255)
    (hf : Framer.ofConfig config pool = .ok f) (hf' : Framer.ofConfig config pool' = .ok f')
    (lost : Losses) (actions : List LinkAction) :
    ∃ l, (start f f').runOver lost actions = .ok l ∧
      ((∀ d ∈ (start f f').demandsOver lost actions, d.Met) → ∀ contentType content,
        .received contentType content ∈ l.receiver.reports →
          ∃ old cut t rest, lost.trips config 0 l.sender.accepted = old ++ cut ++ t :: rest ∧
            t.packet ∈ l.sender.accepted ∧
            (old ++ cut ++ [t]).flatMap (Trip.written config) <+: l.blobs ∧
            (∀ c ∈ cut, ¬c.Complete config) ∧ t.Complete config ∧
            config.tagBytes contentType ++ content =
              cut.flatMap (Trip.beginning config) ++ t.stream config ∧
            ((∀ c ∈ cut, c.arrived = 0) →
              .received contentType content = t.packet.report config)) := by
  have hsound := Pool.sound_of_ofClasses hpool hclasses
  have hsound' := Pool.sound_of_ofClasses hpool' hclasses'
  have hstart := start_holdsOver hsound hsound' hf hf' lost
  obtain ⟨l, hrun, hholds⟩ := hstart.run actions
  refine ⟨l, hrun, fun hmet contentType content hreport => ?_⟩
  obtain ⟨hmem, hmem'⟩ :=
    (hstart.inMemory_run actions hrun).2 ⟨inMemory_start hsound hsound' hf hf', hmet⟩
  obtain ⟨stream, hunpack, before, t, rest, htrips, hwritten, hcomplete, old, cut, rfl, hcut,
    rfl⟩ := hholds.splices (l.sender.inMemory_course.2 hmem) (l.receiver.inMemory_course.2 hmem')
      hreport
  have ht : t ∈ lost.trips config 0 l.sender.accepted := by
    rw [htrips]
    exact List.mem_append_right _ (List.mem_cons_self ..)
  refine ⟨old, cut, t, rest, htrips, Losses.mem_of_trips ht, hwritten, hcut, hcomplete,
    Board.tagBytes_of_unpack hunpack, fun hnone => ?_⟩
  have hfront : cut.flatMap (Trip.beginning config) = [] := by
    refine List.flatMap_eq_nil_iff.2 fun c hc => ?_
    rw [Trip.beginning, hnone c hc, Nat.zero_mul, List.take_zero]
  rw [hfront, List.nil_append] at hunpack
  have heq := hunpack.symm.trans (Board.unpack_tagBytes t.packet.contentType t.packet.content)
  obtain ⟨rfl, rfl⟩ := Prod.mk.inj (Option.some.inj heq)
  rfl

/-- A framer whose blobs carry four bytes. -/
def plainFramer : Framer 3 15 :=
  { config := { maxPayload := 4, maxPacket := 8 }, pool := ⟨#[.fresh 16 8]⟩
    receiver := { maxPayload := 4, maxLength := 8 } }

/-- A packet of two blobs, of which the second is to be lost, and a packet of one blob. -/
def lossyActions : List LinkAction :=
  [.sender (.deed (.allocate 6)), .sender (.deed (.write ⟨0, 0⟩ 0 [1, 2, 3, 4, 5, 6])),
    .sender (.send {} { chunks := [⟨⟨0, 0⟩, 0, 6⟩], length := 6 }),
    .sender (.deed (.allocate 1)), .sender (.deed (.write ⟨0, 2⟩ 0 [9])),
    .sender (.send {} { chunks := [⟨⟨0, 2⟩, 0, 1⟩], length := 1 }),
    .report 6, .report 6, .complete, .transactionEnd, .complete, .report 20, .complete]

/-- What is received is no packet that was accepted, although the pools had room for every block and
no event found a queue full. -/
theorem lossyActions_received :
    ∃ l, (start plainFramer plainFramer).runOver (· == 1) lossyActions = .ok l ∧
      (∀ d ∈ (start plainFramer plainFramer).demandsOver (· == 1) lossyActions, d.Met) ∧
      l.sender.AllTold ∧ l.receiver.AllTold ∧
      .received {} [1, 2, 3, 4, 9] ∈ l.receiver.reports ∧
      ∀ a ∈ l.sender.accepted, a.content ≠ [1, 2, 3, 4, 9] := by
  have hmet : ∀ d ∈ (start plainFramer plainFramer).demandsOver (· == 1) lossyActions, d.Met := by
    decide +kernel
  have hvalue : ((start plainFramer plainFramer).runOver (· == 1) lossyActions).toOption.map
      (fun l => decide
        (l.sender.reports.length = l.sender.framer.reporter.record.length ∧
          l.receiver.reports.length = l.receiver.framer.reporter.record.length ∧
          .received {} [1, 2, 3, 4, 9] ∈ l.receiver.reports ∧
          ∀ a ∈ l.sender.accepted, a.content ≠ [1, 2, 3, 4, 9])) = some true := by
    decide +kernel
  cases hrun : (start plainFramer plainFramer).runOver (· == 1) lossyActions with
  | error fault =>
      rw [hrun] at hvalue
      cases hvalue
  | ok l =>
      rw [hrun] at hvalue
      obtain ⟨hall, hall', hreport, hother⟩ := of_decide_eq_true (Option.some.inj hvalue)
      exact ⟨l, rfl, hmet, hall, hall', hreport, hother⟩

theorem lossyActions_splices :
    ∃ l, (start plainFramer plainFramer).runOver (· == 1) lossyActions = .ok l ∧
      ∃ old cut t rest,
        Losses.trips (· == 1) plainFramer.config 0 l.sender.accepted = old ++ cut ++ t :: rest ∧
        (∀ c ∈ cut, ¬c.Complete plainFramer.config) ∧ t.Complete plainFramer.config ∧
        [1, 2, 3, 4, 9] =
          cut.flatMap (Trip.beginning plainFramer.config) ++ t.stream plainFramer.config := by
  have hpool : Pool.ofClasses [(16, 8)] = .ok ⟨#[.fresh 16 8]⟩ := rfl
  have hf : Framer.ofConfig plainFramer.config ⟨#[.fresh 16 8]⟩ = .ok plainFramer := rfl
  obtain ⟨l, hrun, hsplices⟩ :=
    run_start_splices hpool (by decide) hpool (by decide) hf hf (· == 1) lossyActions
  have hmet : ∀ d ∈ (start plainFramer plainFramer).demandsOver (· == 1) lossyActions, d.Met := by
    decide +kernel
  have hvalue : ((start plainFramer plainFramer).runOver (· == 1) lossyActions).toOption.map
      (fun l => decide (.received {} [1, 2, 3, 4, 9] ∈ l.receiver.reports)) = some true := by
    decide +kernel
  rw [hrun] at hvalue
  have hreport := of_decide_eq_true (Option.some.inj hvalue)
  obtain ⟨old, cut, t, rest, htrips, -, -, hcut, hcomplete, hsplice, -⟩ := hsplices hmet _ _ hreport
  exact ⟨l, hrun, old, cut, t, rest, htrips, hcut, hcomplete, hsplice⟩

end Link

end DockLink
