import DockLink.Proofs.Transfer.TwinSessions
import DockLink.Proofs.Transfer.Guarding
import DockLink.Proofs.Transfer.Silence

/-!
# Closed framers

A framer that was closed takes nothing in: what the channel reports is without effect, not because
it is checked everywhere but because nothing is left that it could act on. What still happens is
that the application takes the events that wait, and that the channel gives back the block of a
packet that was given up.
-/

namespace DockLink

variable {queueDepth eventDepth : Nat}

/-- Whether an action is a report of the channel about what comes in. -/
def Action.isInput : Action → Bool
  | .receive _ | .transactionEnd => true
  | _ => false

/-- Whether an action may take an event or complete a write. -/
def Action.isCleanup : Action → Bool
  | .pop | .complete _ => true
  | _ => false

namespace Session

variable {s s' t : Session queueDepth eventDepth} {a : Action}

/-! ## Size classes -/

theorem keeps_send (hs : s.Sound) {contentType : ContentType} {packet : Packet}
    (hstep : s.step (.send contentType packet) = .ok s') :
    s.framer.pool.Keeps s'.framer.pool 0 := by
  simp only [step] at hstep
  split at hstep
  · rename_i hown
    have hheld : packet.handles +
        ((s.station.held.diff packet.blocks : List Block) : Multiset Block) = s.station.held := by
      rw [← Multiset.coe_sub, add_comm]
      exact Multiset.sub_add_cancel hown.2
    obtain ⟨error, f, hsend, hgoes⟩ | ⟨f, misses, hsend, -, -, hgoes⟩ :=
      (hs.framer.cast hheld.symm).send hown.1 contentType
    · rw [Session.send, hsend] at hstep
      cases hstep
      exact hgoes.keeps.sizes
    · rw [Session.send, hsend] at hstep
      cases hstep
      exact hgoes.keeps.sizes
  · cases hstep
    exact Pool.Keeps.refl _ _

theorem keeps_pop (hstep : s.step .pop = .ok s') : s.framer.pool.Keeps s'.framer.pool 0 := by
  simp only [step] at hstep
  split at hstep
  · cases hstep
    exact Pool.Keeps.refl _ _
  · rename_i event f hpop
    cases hstep
    obtain ⟨⟨_, events⟩, -, heq⟩ := Option.map_eq_some_iff.1 hpop
    cases heq
    exact Pool.Keeps.refl _ _

theorem keeps_complete (hs : s.Sound) {result : WriteResult}
    (hstep : s.step (.complete result) = .ok s') : s.framer.pool.Keeps s'.framer.pool 0 := by
  cases hout : s.station.channel.outstanding with
  | nil =>
      cases hstep.symm.trans (step_complete_nil hout result)
      exact Pool.Keeps.refl _ _
  | cons w owed =>
      have hframer := hs.framer
      rw [hout] at hframer
      obtain ⟨f, misses, hcomplete, hgoes⟩ := hframer.writeComplete hs.ordered_nil result
      have hnext := hstep.symm.trans (step_complete_cons hout result)
      rw [hcomplete] at hnext
      cases hnext
      exact hgoes.keeps.sizes

/-- No action changes the size classes of the pool. -/
theorem Sound.keeps_step (hs : s.Sound) (hstep : s.step a = .ok s') :
    s.framer.pool.Keeps s'.framer.pool 0 := by
  cases a with
  | enable =>
      cases hstep
      exact hs.framer.enable.keeps.sizes
  | disable =>
      cases hstep
      exact hs.framer.disable.keeps.sizes
  | transactionEnd =>
      cases hstep
      exact hs.framer.transactionEnd.keeps.sizes
  | receive data =>
      obtain ⟨f, hreceived, hdone⟩ := hs.framer.received data
      cases hstep.symm.trans (step_receive hreceived)
      split at hdone
      · obtain ⟨seen, reading, -, hgoes⟩ := hdone
        exact hgoes.keeps.sizes
      · subst hdone
        exact Pool.Keeps.refl _ _
  | send contentType packet => exact keeps_send hs hstep
  | pop => exact keeps_pop hstep
  | complete result => exact keeps_complete hs hstep
  | deed deed =>
      cases hstep
      have hpool : s.framer.pool.Sound ((s.station.held : Multiset Block) +
          (s.framer.handles + Framer.lent (s.station.channel.outstanding ++ s.framer.ordered))) :=
        hs.framer.pool.cast (add_comm _ _)
      exact (deed.apply_spec hpool).2.sizes

/-- No run changes the size classes of the pool. -/
theorem Regular.run (actions : List Action) {s : Session queueDepth eventDepth} (h : s.Regular) :
    ∃ s', s.run actions = .ok s' ∧ s'.Regular ∧ s.framer.pool.Keeps s'.framer.pool 0 ∧
      s'.framer.config = s.framer.config := by
  induction actions generalizing s with
  | nil => exact ⟨s, rfl, h, Pool.Keeps.refl _ _, rfl⟩
  | cons a rest ih =>
      obtain ⟨s₁, hstep, h₁, hcourse⟩ := h.step a
      obtain ⟨s', hrun, h', hkeeps, hconfig⟩ := ih h₁
      refine ⟨s', ?_, h', (h.sound.keeps_step hstep).trans hkeeps, hconfig.trans hcourse.config_eq⟩
      rw [Session.run, hstep]
      exact hrun

/-! ## A closed session -/

/-- What the application holds is of no interest to the channel. -/
theorem Sound.settle_held (hs : s.Sound) (held : List Block) :
    Station.settle { s.station with held } = { s.station with held } := by
  obtain ⟨⟨f, channel, kept, before, issued⟩, accepted, popped⟩ := s
  obtain ⟨config, pool, enabled, nextTicket, queue, transmission, receiver, reporter, orders⟩ := f
  obtain rfl : orders = [] := hs.settled
  rfl

/-- A session that is closed, so that nothing waits and nothing was received in part. -/
structure Shut (s : Session queueDepth eventDepth) : Prop where
  regular : s.Regular
  closed : s.framer.enabled = false

namespace Shut

theorem queue_nil (h : s.Shut) : s.framer.queue.toList = [] :=
  List.map_eq_nil_iff.1 (h.regular.orderly.closed h.closed).1

/-- The channel owes nothing, or the block of a packet that was given up. -/
theorem transmission_cases (h : s.Shut) :
    (s.framer.transmission = .idle ∧ s.station.channel.outstanding = []) ∨
      ∃ w, s.framer.transmission = .cancelled ∧ s.station.channel.outstanding = [w] := by
  have hvalid := h.regular.sound.framer.transmission
  rw [h.regular.sound.ordered_nil, List.append_nil] at hvalid
  have hflight : (s.framer.transmission.flight s.framer.pool).tickets = [] :=
    (h.regular.orderly.closed h.closed).2
  cases ht : s.framer.transmission with
  | idle =>
      rw [ht] at hvalid
      exact Or.inl ⟨rfl, hvalid⟩
  | cancelled =>
      rw [ht] at hvalid
      obtain ⟨w, hw⟩ := hvalid
      exact Or.inr ⟨w, rfl, hw⟩
  | sending o segments expected =>
      rw [ht] at hflight
      cases hflight

theorem step_disable (h : s.Shut) : s.step .disable = .ok s := by
  have hsame : s.framer.disable = s.framer := if_neg (by rw [h.closed]; exact Bool.false_ne_true)
  have hstation : s.station.act Framer.disable = s.station.settle := by
    show Station.settle { s.station with endpoint := s.framer.disable } = _
    rw [hsame]
    rfl
  rw [step, hstation, h.regular.sound.settle_eq]

theorem transactionEnd_eq (h : s.Shut) : s.framer.transactionEnd = s.framer := by
  obtain ⟨hphase, hpacket⟩ := h.regular.gated.clear h.closed
  obtain ⟨⟨f, channel, kept, held, issued⟩, accepted, popped⟩ := s
  obtain ⟨config, pool, enabled, nextTicket, queue, transmission, receiver, reporter, orders⟩ := f
  obtain ⟨maxPayload, maxLength, phase, packet⟩ := receiver
  obtain rfl : phase = .idle := hphase
  rfl

/-- What the channel reports as received has no effect at all. -/
theorem step_input (h : s.Shut) (ha : a.isInput) : s.step a = .ok s := by
  have hstation := h.regular.sound.settle_eq
  cases a with
  | receive data =>
      have hreceived : s.framer.received data = .ok s.framer :=
        if_neg (by rw [h.closed]; exact Bool.false_ne_true)
      rw [step_receive hreceived]
      exact congrArg (fun station => Except.ok { s with station }) hstation
  | transactionEnd =>
      have hend : s.station.transactionEnd = s.station.settle := by
        show Station.settle { s.station with endpoint := s.framer.transactionEnd } = _
        rw [h.transactionEnd_eq]
        rfl
      rw [step, hend, hstation]
  | _ => cases ha

/-- A packet that is handed in comes back as it is. -/
theorem send_eq (h : s.Shut) (contentType : ContentType) (packet : Packet) :
    ∃ e, s.framer.send contentType packet = .ok (.error (e, packet), s.framer) := by
  by_cases hlong : packet.length > s.framer.config.maxPacket
  · exact ⟨.tooLong, by rw [Framer.send, if_pos hlong]; rfl⟩
  · refine ⟨.disconnected, ?_⟩
    rw [Framer.send, if_neg hlong, if_pos (by rw [h.closed]; rfl)]
    rfl

theorem writeComplete_eq (h : s.Shut) (ht : s.framer.transmission = .cancelled) (block : Block)
    (result : WriteResult) :
    s.framer.writeComplete block result =
      (Framer.releaseBlock { s.framer with transmission := .idle } block, none) := by
  have hlength : s.framer.queue.length = 0 := by
    rw [← BoundedQueue.length_toList, h.queue_nil]
    rfl
  have hnext : (Framer.releaseBlock { s.framer with transmission := .idle } block).startNext =
      .ok (Framer.releaseBlock { s.framer with transmission := .idle } block) := by
    show Framer.startUpTo s.framer.queue.length _ = _
    rw [hlength]
    rfl
  simp only [Framer.writeComplete, ht, Framer.takeBack, hnext]

end Shut

/-- Closing shuts a session, whatever was under way. -/
theorem Regular.shuts (h : s.Regular) : ∃ s', s.step .disable = .ok s' ∧ s'.Shut := by
  obtain ⟨s', hstep, hs', -⟩ := h.step .disable
  cases hstep
  refine ⟨_, rfl, hs', ?_⟩
  show s.framer.disable.enabled = false
  by_cases henabled : s.framer.enabled = true
  · exact (Framer.sends_disable henabled).enabled_eq
  · have hsame : s.framer.disable = s.framer := if_neg henabled
    rw [hsame]
    exact Bool.eq_false_iff.2 henabled

/-- What the events that wait and the writes that are owed come to while a session stays closed. -/
structure Winds (s : Session queueDepth eventDepth) (actions : List Action)
    (s' : Session queueDepth eventDepth) : Prop where
  shut : s'.Shut
  outstanding : s.station.channel.outstanding = [] ∨ (∃ result, .complete result ∈ actions) →
    s'.station.channel.outstanding = []
  events : s'.framer.reporter.events.toList.length ≤
    s.framer.reporter.events.toList.length - actions.count .pop

namespace Winds

variable {actions actions' : List Action}

theorem trans (h₁ : s.Winds actions s') (h₂ : s'.Winds actions' t) :
    s.Winds (actions ++ actions') t where
  shut := h₂.shut
  outstanding hdone := by
    rcases hdone with hnil | ⟨result, hmem⟩
    · exact h₂.outstanding (Or.inl (h₁.outstanding (Or.inl hnil)))
    · rcases List.mem_append.1 hmem with hmem | hmem
      · exact h₂.outstanding (Or.inl (h₁.outstanding (Or.inr ⟨result, hmem⟩)))
      · exact h₂.outstanding (Or.inr ⟨result, hmem⟩)
  events := by
    have hevents₁ := h₁.events
    have hevents₂ := h₂.events
    rw [List.count_append]
    omega

theorem nil (h : s.Shut) : s.Winds [] s where
  shut := h
  outstanding hdone := by
    rcases hdone with hnil | ⟨result, hmem⟩
    · exact hnil
    · cases hmem
  events := Nat.le_refl _

/-- An action that leaves the events and the writes alone. -/
theorem of_eq (hs' : s'.Shut) (ha : a.isCleanup = false)
    (hout : s'.station.channel.outstanding = s.station.channel.outstanding)
    (hevents : s'.framer.reporter.events.toList = s.framer.reporter.events.toList) :
    s.Winds [a] s' where
  shut := hs'
  outstanding hdone := by
    rcases hdone with hnil | ⟨result, hmem⟩
    · rw [hout, hnil]
    · obtain rfl := List.mem_singleton.1 hmem
      cases ha
  events := by
    have hnone : Action.pop ∉ [a] := by
      intro hmem
      obtain rfl := List.mem_singleton.1 hmem
      cases ha
    rw [hevents, List.count_eq_zero.2 hnone]
    exact Nat.le_refl _

end Winds

namespace Shut

/-- The session stays closed until it is opened. -/
theorem next (h : s.Shut) (ha : a ≠ .enable) (hstep : s.step a = .ok s') : s'.Shut := by
  obtain ⟨s₁, hstep₁, hregular, hcourse⟩ := h.regular.step a
  cases hstep.symm.trans hstep₁
  refine ⟨hregular, ?_⟩
  by_cases hdisable : a = .disable
  · subst hdisable
    cases hstep.symm.trans h.step_disable
    exact h.closed
  · have htraffic : a.isTraffic := by
      cases a with
      | enable => exact absurd rfl ha
      | disable => exact absurd rfl hdisable
      | _ => rfl
    exact (hcourse.enabled_eq htraffic).trans h.closed

theorem winds_send (h : s.Shut) (hs' : s'.Shut) {contentType : ContentType} {packet : Packet}
    (hstep : s.step (.send contentType packet) = .ok s') :
    s.Winds [.send contentType packet] s' := by
  simp only [step] at hstep
  split at hstep
  · obtain ⟨e, hsend⟩ := h.send_eq contentType packet
    rw [Session.send, hsend] at hstep
    obtain rfl := Except.ok.inj hstep
    have hstation := h.regular.sound.settle_held (packet.blocks ++ s.station.held.diff packet.blocks)
    refine .of_eq hs' rfl ?_ ?_
    · exact congrArg (fun station => station.channel.outstanding) hstation
    · exact congrArg (fun station => station.endpoint.reporter.events.toList) hstation
  · cases hstep
    exact .of_eq hs' rfl rfl rfl

theorem winds_pop (hs' : s'.Shut) (hstep : s.step .pop = .ok s') : s.Winds [.pop] s' := by
  have hnever : (∃ result, Action.complete result ∈ [Action.pop]) → False := by
    rintro ⟨result, hmem⟩
    cases List.mem_singleton.1 hmem
  simp only [step] at hstep
  split at hstep
  · rename_i hnone
    cases hstep
    have hnil : s.framer.reporter.events.toList = [] :=
      (s.framer.reporter.events.pop?_eq_none_iff_toList).1 (Option.map_eq_none_iff.1 hnone)
    refine ⟨hs', fun hdone => hdone.elim id fun hmem => (hnever hmem).elim, ?_⟩
    rw [hnil]
    exact Nat.zero_le _
  · rename_i event f hpop
    cases hstep
    obtain ⟨⟨_, events⟩, hevents, heq⟩ := Option.map_eq_some_iff.1 hpop
    cases heq
    refine ⟨hs', fun hdone => hdone.elim id fun hmem => (hnever hmem).elim, ?_⟩
    rw [(BoundedQueue.toList_of_pop? hevents).1, List.length_cons]
    exact Nat.le_refl _

theorem winds_complete (h : s.Shut) (hs' : s'.Shut) {result : WriteResult}
    (hstep : s.step (.complete result) = .ok s') : s.Winds [.complete result] s' := by
  rcases h.transmission_cases with ⟨-, hout⟩ | ⟨w, ht, hout⟩
  · cases hstep.symm.trans (step_complete_nil hout result)
    exact ⟨hs', fun _ => hout, Nat.le_refl _⟩
  · have hnext := hstep.symm.trans (step_complete_cons hout result)
    rw [h.writeComplete_eq ht] at hnext
    obtain rfl := Except.ok.inj hnext
    refine ⟨hs', fun _ => ?_, Nat.le_refl _⟩
    show (Channel.obeyAll { s.station.channel with outstanding := [] }
      s.framer.orders.reverse).outstanding = []
    rw [h.regular.sound.settled]
    rfl

theorem winds_step (h : s.Shut) (ha : a ≠ .enable) (hstep : s.step a = .ok s') :
    s.Winds [a] s' := by
  have hs' := h.next ha hstep
  cases a with
  | enable => exact absurd rfl ha
  | disable =>
      cases hstep.symm.trans h.step_disable
      exact .of_eq hs' rfl rfl rfl
  | receive data =>
      cases hstep.symm.trans (h.step_input (a := .receive data) rfl)
      exact .of_eq hs' rfl rfl rfl
  | transactionEnd =>
      cases hstep.symm.trans (h.step_input (a := .transactionEnd) rfl)
      exact .of_eq hs' rfl rfl rfl
  | send contentType packet => exact h.winds_send hs' hstep
  | pop => exact winds_pop hs' hstep
  | complete result => exact h.winds_complete hs' hstep
  | deed deed =>
      cases hstep
      exact .of_eq hs' rfl rfl rfl

/-- Whatever happens to a closed session, and whatever of it the channel reports as received, it
winds down and stays closed. -/
theorem run (actions : List Action) {s : Session queueDepth eventDepth} (h : s.Shut)
    (hclosed : .enable ∉ actions) :
    ∃ s', s.run actions = .ok s' ∧ s.run (actions.filter fun a => !a.isInput) = .ok s' ∧
      s.Winds actions s' := by
  induction actions generalizing s with
  | nil => exact ⟨s, rfl, rfl, .nil h⟩
  | cons a rest ih =>
      rw [List.mem_cons, not_or] at hclosed
      obtain ⟨s₁, hstep, -⟩ := h.regular.step a
      have hfirst := h.winds_step (Ne.symm hclosed.1) hstep
      obtain ⟨s', hrun, hfiltered, hrest⟩ := ih hfirst.shut hclosed.2
      refine ⟨s', ?_, ?_, hfirst.trans hrest⟩
      · rw [Session.run, hstep]
        exact hrun
      · cases hinput : a.isInput with
        | true =>
            cases hstep.symm.trans (h.step_input hinput)
            rw [List.filter_cons_of_neg (by rw [hinput]; exact Bool.false_ne_true)]
            exact hfiltered
        | false =>
            rw [List.filter_cons_of_pos (by rw [hinput]; rfl), Session.run, hstep]
            exact hfiltered

end Shut

/-! ## Winding down -/

/-- The channel owes nothing, and no event waits. -/
structure Drained (s : Session queueDepth eventDepth) : Prop where
  outstanding : s.station.channel.outstanding = []
  events : s.framer.reporter.events.toList = []

namespace Winds

/-- A completion of the write that is owed, and a pop for each event that waits, are enough. -/
theorem drained {actions : List Action} (h : s.Winds actions s')
    (howed : s.station.channel.outstanding = [] ∨ ∃ result, .complete result ∈ actions)
    (hpops : s.framer.reporter.events.length ≤ actions.count .pop) : s'.Drained where
  outstanding := h.outstanding howed
  events := by
    have hlength := s.framer.reporter.events.length_toList
    have hevents := h.events
    exact List.eq_nil_of_length_eq_zero (by omega)

end Winds

end Session

end DockLink
