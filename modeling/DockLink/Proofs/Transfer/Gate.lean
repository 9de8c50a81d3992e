import DockLink.Proofs.Transfer.Progress
import DockLink.Proofs.Transfer.Separation

/-!
# Opening and closing

Opening a framer opens its channel, and closing it closes the channel; nothing else does. Closing
fails every packet that is pending, oldest first, and drops what was received in part, and a closed
framer takes in nothing new.
-/

namespace DockLink

/-- Whether an action leaves it to others to open and close the framer. -/
def Action.isTraffic : Action → Bool
  | .enable | .disable => false
  | _ => true

/-- Nothing was received in part. -/
def Receiver.IsClear (r : Receiver) : Prop := r.phase = .idle ∧ r.packet = none

namespace Receiver

variable {r : Receiver}

theorem isClear_reset (r : Receiver) (pool : Pool) : (r.reset pool).1.IsClear := ⟨rfl, rfl⟩

theorem IsClear.transactionEnd (h : r.IsClear) (pool : Pool) :
    (r.transactionEnd pool).2.1.IsClear := by
  unfold Receiver.transactionEnd
  split
  · exact isClear_reset r pool
  · exact ⟨rfl, h.2⟩

end Receiver

namespace Framer

variable {queueDepth eventDepth : Nat} {f : Framer queueDepth eventDepth}

/-- A packet that was not sent because the framer was closed. -/
def Outgoing.disconnected (ticket : Ticket) : LinkEvent := .sendFailed ticket .disconnected

@[simp]
theorem queue_cancel (f : Framer queueDepth eventDepth) : f.cancel.queue = f.queue := by
  unfold cancel
  split
  · rfl
  · rfl

theorem record_cancel (f : Framer queueDepth eventDepth) :
    f.cancel.reporter.record =
      (f.transmission.tickets.map Outgoing.disconnected).reverse ++ f.reporter.record := by
  cases ht : f.transmission with
  | idle => simp only [cancel, ht]; rfl
  | cancelled => simp only [cancel, ht]; rfl
  | sending o segments expected =>
      simp only [cancel, ht]
      exact record_giveUp _ o .disconnected

theorem record_flushUpTo (n : Nat) {f : Framer queueDepth eventDepth} (hn : f.queue.length ≤ n) :
    (flushUpTo n f).reporter.record =
      ((f.queue.toList.map Outgoing.ticket).map Outgoing.disconnected).reverse ++
        f.reporter.record := by
  induction n generalizing f with
  | zero =>
      have hnil : f.queue.toList = [] :=
        List.eq_nil_of_length_eq_zero (f.queue.length_toList.trans (Nat.le_zero.1 hn))
      rw [hnil]
      rfl
  | succ n ih =>
      unfold flushUpTo
      split
      · rename_i hnone
        rw [f.queue.pop?_eq_none_iff_toList.1 hnone]
        rfl
      · rename_i o queue hpop
        obtain ⟨hlist, hlength⟩ := BoundedQueue.toList_of_pop? hpop
        have hrest : queue.length ≤ n := by omega
        rw [ih (f := giveUp { f with queue } o .disconnected) hrest, record_giveUp, hlist,
          List.map_cons, List.map_cons, List.reverse_cons, List.append_assoc]
        rfl

/-- What is closed first, before the pending packets are given up. -/
def shut (f : Framer queueDepth eventDepth) : Framer queueDepth eventDepth :=
  ((({ f with enabled := false }.order .abortRx).order .abortTx).order .disable).resetReceiver

theorem disable_of_enabled (h : f.enabled) : f.disable = f.shut.cancel.flush := if_pos h

theorem sends_disable (h : f.enabled) : f.shut.Sends f.disable := by
  rw [disable_of_enabled h]
  exact (sends_cancel _).trans (sends_flushUpTo _ _)

/-- Closing reports every pending packet as failed, and nothing else. -/
theorem record_disable (h : f.enabled) : f.disable.reporter.record =
    (f.pendingTickets.map Outgoing.disconnected).reverse ++ f.reporter.record := by
  have hqueue : f.shut.cancel.queue = f.queue := queue_cancel f.shut
  rw [disable_of_enabled h, flush, record_flushUpTo _ (Nat.le_refl _), record_cancel, hqueue,
    pendingTickets, List.map_append, List.reverse_append, List.append_assoc]
  rfl

/-- Bytes are no order, and nothing to a closed framer. -/
theorem received_cases {f' : Framer queueDepth eventDepth} {data : Bytes}
    (h : f.received data = .ok f') :
    f'.orders = f.orders ∧ f'.enabled = f.enabled ∧ (f.enabled = false → f' = f) := by
  unfold received at h
  split at h
  · rename_i henabled
    obtain ⟨⟨receiver, pool, reporter⟩, -, h⟩ := exists_of_bind_eq_ok h
    cases h
    exact ⟨rfl, rfl, fun hclosed => absurd (henabled.symm.trans hclosed) nofun⟩
  · cases h
    exact ⟨rfl, rfl, fun _ => rfl⟩

theorem transactionEnd_spares (f : Framer queueDepth eventDepth) :
    f.transactionEnd.orders = f.orders ∧ f.transactionEnd.enabled = f.enabled ∧
      f.transactionEnd.receiver = (f.receiver.transactionEnd f.pool).2.1 := by
  unfold transactionEnd
  simp only
  split
  · split
    · exact ⟨rfl, rfl, rfl⟩
    · exact ⟨rfl, rfl, rfl⟩
  · exact ⟨rfl, rfl, rfl⟩

end Framer

namespace Course

variable {c c' : Course} {a : Action}

/-- Traffic leaves the framer open or closed. -/
theorem Step.enabled_eq (hstep : Step c a c') (ha : a.isTraffic) :
    c'.outline.enabled = c.outline.enabled := by
  cases hstep with
  | enable => cases ha
  | disable => cases ha
  | accept misses => exact Outline.enabled_fill misses _
  | receive => rfl
  | transactionEnd => exact Outline.enabled_transactionEnd _
  | pop => rfl
  | complete misses result => exact Outline.enabled_complete misses _ result
  | deaf => rfl
  | stay => rfl

end Course

namespace Session

variable {queueDepth eventDepth : Nat} {s s' : Session queueDepth eventDepth}
  {f : Framer queueDepth eventDepth} {a : Action}

/-- A channel that is open as long as its framer, which when closed has received nothing in part. -/
structure Gated (s : Session queueDepth eventDepth) : Prop where
  channel_eq : s.station.channel.enabled = s.framer.enabled
  clear : s.framer.enabled = false → s.framer.receiver.IsClear

theorem Gated.sends (h : s.Gated) (hsends : s.framer.Sends s'.framer)
    (hchannel : s'.station.channel.enabled = s.station.channel.enabled) : s'.Gated where
  channel_eq := by rw [hchannel, hsends.enabled_eq, h.channel_eq]
  clear hclosed := by
    rw [hsends.receiver_eq]
    exact h.clear (hsends.enabled_eq ▸ hclosed)

/-- A step of the framer that gives no orders. -/
theorem Gated.unordered (h : s.Gated) (hs : s.Sound) (horders : f.orders = s.framer.orders)
    (henabled : f.enabled = s.framer.enabled)
    (hclear : f.enabled = false → f.receiver.IsClear) :
    Gated { s with station := Station.settle { s.station with endpoint := f } } where
  channel_eq := by
    have hnone : f.switches = [] := by
      rw [Framer.switches, horders, hs.settled]
      rfl
    refine (enabled_settle _).trans ?_
    rw [hnone]
    exact h.channel_eq.trans henabled.symm
  clear := hclear

theorem Gated.unmoved (h : s.Gated) (hs : s.Sound) (hsame : f = s.framer) :
    Gated { s with station := Station.settle { s.station with endpoint := f } } := by
  subst hsame
  exact h.unordered hs rfl rfl h.clear

theorem Gated.enable (h : s.Gated) (hs : s.Sound) :
    Gated { s with station := s.station.act Framer.enable } := by
  by_cases henabled : s.framer.enabled
  · have hsame : s.framer.enable = s.framer := if_pos henabled
    exact h.unmoved hs hsame
  · have hopen : s.framer.enable = Framer.order { s.framer.resetReceiver with
        reporter := { s.framer.reporter with faults := 0 }, enabled := true } .enable :=
      if_neg henabled
    have henabled' : s.framer.enable.enabled = true := congrArg Framer.enabled hopen
    have hswitches : s.framer.enable.switches = [.enable] := by
      have horders : s.framer.enable.orders = .enable :: s.framer.orders :=
        congrArg Framer.orders hopen
      rw [Framer.switches, horders, hs.settled]
      rfl
    refine ⟨(enabled_settle _).trans ?_, fun hclosed => ?_⟩
    · show (s.station.channel.obeyAll s.framer.enable.switches.reverse).enabled =
        s.framer.enable.enabled
      rw [hswitches, henabled']
      rfl
    · cases henabled'.symm.trans hclosed

theorem Gated.disable (h : s.Gated) (hs : s.Sound) :
    Gated { s with station := s.station.act Framer.disable } := by
  by_cases henabled : s.framer.enabled
  · have hsends := Framer.sends_disable henabled
    have henabled' : s.framer.disable.enabled = false := hsends.enabled_eq
    have hswitches : s.framer.disable.switches = [.disable, .abortTx, .abortRx] := by
      have horders : s.framer.shut.orders =
          .disable :: .abortTx :: .abortRx :: s.framer.orders := rfl
      rw [hsends.switches_eq, Framer.switches, horders, hs.settled]
      rfl
    refine ⟨(enabled_settle _).trans ?_, fun _ => ?_⟩
    · show (s.station.channel.obeyAll s.framer.disable.switches.reverse).enabled =
        s.framer.disable.enabled
      rw [hswitches, henabled']
      rfl
    · show s.framer.disable.receiver.IsClear
      rw [hsends.receiver_eq]
      exact s.framer.receiver.isClear_reset s.framer.pool
  · have hsame : s.framer.disable = s.framer := if_neg henabled
    exact h.unmoved hs hsame

theorem Gated.receive (h : s.Gated) (hs : s.Sound) {data : Bytes}
    (hstep : s.step (.receive data) = .ok s') : s'.Gated := by
  obtain ⟨f, hreceived, -⟩ := hs.framer.received data
  obtain rfl := Except.ok.inj (hstep.symm.trans (step_receive hreceived))
  obtain ⟨horders, henabled, hsame⟩ := Framer.received_cases hreceived
  refine h.unordered hs horders henabled fun hclosed => ?_
  rw [hsame (henabled.symm.trans hclosed)]
  exact h.clear (henabled.symm.trans hclosed)

theorem Gated.transactionEnd (h : s.Gated) (hs : s.Sound) :
    Gated { s with station := s.station.transactionEnd } := by
  obtain ⟨horders, henabled, hreceiver⟩ := s.framer.transactionEnd_spares
  refine h.unordered hs horders henabled fun hclosed => ?_
  have hclear := (h.clear (henabled.symm.trans hclosed)).transactionEnd s.framer.pool
  rwa [← hreceiver] at hclear

theorem Gated.step (h : s.Gated) (hs : s.Sound) (hstep : s.step a = .ok s') : s'.Gated := by
  cases a with
  | enable =>
      cases hstep
      exact h.enable hs
  | disable =>
      cases hstep
      exact h.disable hs
  | receive data => exact h.receive hs hstep
  | transactionEnd =>
      cases hstep
      exact h.transactionEnd hs
  | _ =>
      obtain ⟨hsends, hchannel⟩ := hs.sends_step rfl hstep
      exact h.sends hsends hchannel

end Session

end DockLink
