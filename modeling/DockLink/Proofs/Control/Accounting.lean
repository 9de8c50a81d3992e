import DockLink.Proofs.Control.Reading

/-!
# The blocks of a service

The accounts of a service list its blocks by those who hold them: a block leaves the decoder for the
queue or goes back to the pool, and leaves the queue for the application; a response is the
channel's until it is completed, also when its transaction has ended long ago. The pool counts
exactly the handles in the accounts.
-/

namespace DockLink

variable {depth : Nat}

namespace Responder

variable {r : Responder depth}

theorem orders_post (r : Responder depth) (result : Received) :
    (r.post result).orders = r.orders := by
  unfold post
  split
  · rfl
  · rfl

/-- The end of a transaction cancels a response if, and only if, there is one. -/
theorem orders_transactionEnd (r : Responder depth) :
    r.transactionEnd.orders = if 0 < r.responses then .abortTx :: r.orders else r.orders := by
  have horders : (if r.responses > 0 then r.order .abortTx else r).orders =
      if 0 < r.responses then .abortTx :: r.orders else r.orders := by
    split
    · rfl
    · rfl
  rw [← horders, transactionEnd]
  generalize (if r.responses > 0 then r.order .abortTx else r) = aborted
  obtain ⟨error, decoder, pool⟩ := aborted.decoder.transactionEnd aborted.pool
  cases error with
  | none => rfl
  | some error => exact orders_post _ _

end Responder

namespace Service

variable {s s' : Service depth} {r : Responder depth}

/-- The handles to the blocks of a service, by those who hold them. A block that is held twice is
listed twice. -/
structure Accounts where
  /-- The blocks of the responses that are not completed. -/
  lent : Multiset Block
  /-- The block of the blob that is coming in. -/
  incoming : Multiset Block
  /-- The chunks of the packets that wait in the queue. -/
  waiting : Multiset Block
  /-- The application's own. -/
  held : Multiset Block

def Accounts.total (a : Accounts) : Multiset Block := a.lent + a.incoming + a.waiting + a.held

def accounts (s : Service depth) : Accounts where
  lent := (s.station.channel.outstanding.map Write.block : List Block)
  incoming := s.responder.decoder.handles
  waiting := (s.responder.requests.toList.map Received.handles).sum
  held := s.station.held

theorem Sound.counts (hs : s.Sound) : s.responder.pool.Sound s.accounts.total := by
  have htotal : s.responder.handles + Framer.lent s.station.channel.outstanding + s.station.held =
      s.accounts.total := by
    simp only [Accounts.total, accounts, Responder.handles, Framer.lent]
    abel
  have hpool := hs.responder.pool
  rw [hs.ordered_nil, List.append_nil] at hpool
  exact hpool.cast htotal

theorem Sound.responses_eq (hs : s.Sound) :
    s.responder.responses = s.station.channel.outstanding.length := by
  rw [hs.responder.responses, hs.ordered_nil, List.append_nil]

theorem incoming_of_heard (hheard : s.docket.heard = some []) : s.accounts.incoming = 0 := by
  show s.responder.decoder.handles = 0
  rw [Decoder.handles, (heard_eq_nil_iff s).1 hheard]
  rfl

theorem Sound.channel_transactionEnd (hs : s.Sound) (hstep : s.step .transactionEnd = .ok s') :
    s'.station.channel =
      if 0 < s.station.channel.outstanding.length
      then { s.station.channel with txAborts := s.station.channel.txAborts + 1 }
      else s.station.channel := by
  cases hstep
  show s.station.channel.obeyAll s.responder.transactionEnd.orders.reverse = _
  rw [Responder.orders_transactionEnd, hs.settled, hs.responses_eq]
  split
  · rfl
  · rfl

/-- However transactions, responses, late completions and the application follow on each other, a
service counts the responses that are not completed, and the pool the handles that the accounts
list. The end of a transaction cancels a response if, and only if, one is not completed; after it,
and when the channel is closed, the decoder holds no block. -/
theorem run_start_accounts {classes : List (Nat × Nat)} {pool : Pool} {limit : Nat}
    (hpool : Pool.ofClasses classes = .ok pool) (hclasses : ∀ c ∈ classes, 1 ≤ c.1 ∧ c.2 ≤ 255)
    (hr : Responder.ofPool pool limit = .ok r) (history : List ServiceAction) :
    ∃ s, (start r).run history = .ok s ∧
      s.responder.responses = s.station.channel.outstanding.length ∧
      (∀ b, (s.responder.pool.refCount b).toNat = s.accounts.total.count b) ∧
      (∃ s', s.step .transactionEnd = .ok s' ∧ s'.accounts.incoming = 0 ∧
        s'.station.channel =
          if 0 < s.station.channel.outstanding.length
          then { s.station.channel with txAborts := s.station.channel.txAborts + 1 }
          else s.station.channel) ∧
      ∃ s', s.step .disable = .ok s' ∧ s'.accounts.incoming = 0 := by
  obtain ⟨hstart, -⟩ := sound_start (Pool.sound_of_ofClasses hpool hclasses) hr
  obtain ⟨s, hrun, hs, -⟩ := hstart.run_goesOn history
  obtain ⟨ended, hend, -, hheard, -⟩ := hs.transactionEnd
  obtain ⟨closed, hclose, -, hheard', -⟩ := hs.disable
  exact ⟨s, hrun, hs.responses_eq, hs.counts.refCount_eq,
    ⟨ended, hend, incoming_of_heard hheard, hs.channel_transactionEnd hend⟩,
    closed, hclose, incoming_of_heard hheard'⟩

/-- A response is on the channel while the next transaction brings the first byte of a blob. -/
def overlappingActions : List ServiceAction :=
  [.enable, .receive [0], .respond 2 fun _ => .ok [7, 8], .receive [], .transactionEnd, .pop,
    .receive [3, 0x34, 0x12, 2, 0, 7]]

theorem overlappingActions_accounts :
    ∃ s, (start smallResponder).run overlappingActions = .ok s ∧ s.responder.responses = 1 ∧
      s.station.channel.txAborts = 1 ∧ s.accounts.lent = {⟨0, 0⟩} ∧
      s.accounts.incoming = {⟨0, 1⟩} ∧
      (∀ b, (s.responder.pool.refCount b).toNat = s.accounts.total.count b) ∧
      ∃ s', s.step .transactionEnd = .ok s' ∧ s'.accounts.incoming = 0 ∧
        s'.station.channel.txAborts = 2 := by
  have hpool : Pool.ofClasses [(16, 2)] = .ok ⟨#[.fresh 16 2]⟩ := rfl
  have hr : Responder.ofPool ⟨#[.fresh 16 2]⟩ 8 = .ok smallResponder := rfl
  obtain ⟨s, hrun, -, hcounts, ⟨s', hstep, hincoming, hchannel⟩, -⟩ :=
    run_start_accounts hpool (by decide) hr overlappingActions
  have hvalue : ((start smallResponder).run overlappingActions).toOption.map (fun s =>
      decide (s.responder.responses = 1 ∧ s.station.channel.txAborts = 1 ∧
        s.station.channel.outstanding.length = 1 ∧ s.accounts.lent = {⟨0, 0⟩} ∧
        s.accounts.incoming = {⟨0, 1⟩})) = some true := by
    decide +kernel
  rw [hrun] at hvalue
  obtain ⟨hresponses, haborts, hlength, hlent, hblob⟩ := of_decide_eq_true (Option.some.inj hvalue)
  rw [hlength, if_pos Nat.one_pos] at hchannel
  refine ⟨s, hrun, hresponses, haborts, hlent, hblob, hcounts, s', hstep, hincoming, ?_⟩
  rw [hchannel, haborts]

end Service

end DockLink
