import DockLink.Proofs.Memory.Allocation
import DockLink.Proofs.Transfer.Bench
import DockLink.Proofs.Transfer.Downtime

/-!
# Opening a framer again

When the write that was out has come back and the events are taken, a closed framer differs from one
that was just made in its tickets and its counters only. So once both are open, and their pools have
the same free slots, nothing that is done to both tells them apart.
-/

namespace DockLink

variable {queueDepth eventDepth : Nat}

namespace Framer

variable {f f' : Framer queueDepth eventDepth} {config : Config}

/-- A framer as it is right after it was opened. Its tickets, its counters and its pool may be any. -/
structure Opened (config : Config) (f : Framer queueDepth eventDepth) : Prop where
  config_eq : f.config = config
  enabled : f.enabled = true
  queue : f.queue.toList = []
  transmission : f.transmission = .idle
  receiver : f.receiver = { maxPayload := config.maxPayload, maxLength := config.maxStream }
  events : f.reporter.events.toList = []
  faults : f.reporter.faults = 0
  orders : f.orders = []

/-- Two framers in the same state, the queues compared as lists. Their tickets, counters and pools
may differ. -/
structure SameState (f f' : Framer queueDepth eventDepth) : Prop where
  config_eq : f.config = f'.config
  enabled_eq : f.enabled = f'.enabled
  queue_eq : f.queue.toList = f'.queue.toList
  transmission_eq : f.transmission = f'.transmission
  receiver_eq : f.receiver = f'.receiver
  events_eq : f.reporter.events.toList = f'.reporter.events.toList
  faults_eq : f.reporter.faults = f'.reporter.faults
  orders_eq : f.orders = f'.orders

namespace Opened

theorem sameState (h : f.Opened config) (h' : f'.Opened config) : f.SameState f' where
  config_eq := h.config_eq.trans h'.config_eq.symm
  enabled_eq := h.enabled.trans h'.enabled.symm
  queue_eq := h.queue.trans h'.queue.symm
  transmission_eq := h.transmission.trans h'.transmission.symm
  receiver_eq := h.receiver.trans h'.receiver.symm
  events_eq := h.events.trans h'.events.symm
  faults_eq := h.faults.trans h'.faults.symm
  orders_eq := h.orders.trans h'.orders.symm

/-- It has no handles. -/
theorem handles_eq (h : f.Opened config) : f.handles = 0 := by
  rw [handles, outbound, h.queue, h.transmission, h.receiver, Reporter.handles, h.events]
  rfl

/-- Nothing of the one is tied to anything of the other. -/
theorem alike (h : f.Opened config) (h' : f'.Opened config) :
    Alike (f.nextTicket.number - f'.nextTicket.number) 0 0 0 0 0 f f' where
  config_eq := h.config_eq.trans h'.config_eq.symm
  enabled_eq := h.enabled.trans h'.enabled.symm
  ticket_eq := by
    rw [Ticket.later, UInt16.add_comm, UInt16.sub_add_cancel]
  queue := by
    rw [h.queue, h'.queue]
    exact .nil
  transmission := by
    rw [h.transmission, h'.transmission]
    exact .idle
  receiver := by
    rw [h.receiver, h'.receiver]
    exact .intro config.maxPayload config.maxStream (.header []) .none
  reporter := by
    refine ⟨?_, h.faults.trans h'.faults.symm⟩
    rw [h.events, h'.events]
    exact .nil
  orders := by
    rw [h.orders, h'.orders]
    exact .nil

end Opened

end Framer

/-- A bench that is set up now. What happens from now on is noted. -/
def Bench.setUp (s : Session queueDepth eventDepth) (goods : List Chunk) :
    Bench queueDepth eventDepth :=
  { session := { station := { s.station with issued := [] } }, goods }

namespace Session

variable {s s' t : Session queueDepth eventDepth} {config : Framer.Config}
  {classes : List (Nat × Nat)} {pool : Pool} {f : Framer queueDepth eventDepth}

/-- A session whose framer was just opened, and whose channel owes nothing. -/
structure Opened (config : Framer.Config) (s : Session queueDepth eventDepth) : Prop where
  sound : s.Sound
  framer : s.framer.Opened config
  channel : s.station.channel.enabled = true
  outstanding : s.station.channel.outstanding = []

/-- Goods that are the same on both sides, of blocks that are also shared alike. Other blocks that
the applications hold have nothing to do with them. -/
def Stocked (s s' : Session queueDepth eventDepth) (goods goods' : List Chunk) : Prop :=
  ∃ (l : List Bond) (own own' : Multiset Block),
    goods = l.map Bond.leftChunk ∧ goods' = l.map Bond.rightChunk ∧
      (s.station.held : Multiset Block) = (l : Multiset Bond).map Bond.left + own ∧
      (s'.station.held : Multiset Block) = (l : Multiset Bond).map Bond.right + own' ∧
      Pool.Matched own own' s.framer.pool s'.framer.pool l

theorem Stocked.nil (s s' : Session queueDepth eventDepth) : s.Stocked s' [] [] :=
  ⟨[], s.station.held, s'.station.held, rfl, rfl, (zero_add _).symm, (zero_add _).symm,
    ⟨nofun, nofun, nofun, nofun, nofun⟩⟩

namespace Opened

/-- All handles are the application's. -/
theorem sound_pool (h : s.Opened config) : s.framer.pool.Sound s.station.held := by
  have hpool := h.sound.framer.pool
  rw [h.framer.handles_eq, h.outstanding, h.sound.ordered_nil] at hpool
  exact hpool.cast (zero_add _)

/-- Benches that are set up with goods that are the same are in the same state. -/
theorem paired (h : s.Opened config) (h' : s'.Opened config)
    (hcapacity : ∀ i, (s.framer.pool.bucket i).capacity = (s'.framer.pool.bucket i).capacity)
    (hfree : s.framer.pool.freeCounts = s'.framer.pool.freeCounts) {goods goods' : List Chunk}
    (hgoods : s.Stocked s' goods goods') :
    ∃ own own', Bench.Paired (s.framer.nextTicket.number - s'.framer.nextTicket.number) own own'
      (.setUp s goods) (.setUp s' goods') := by
  obtain ⟨l, own, own', hg, hg', hheld, hheld', hmatched⟩ := hgoods
  have htwins : Pool.Twins own own' s.framer.pool s'.framer.pool l :=
    .of_freeCounts (hheld ▸ h.sound_pool) (hheld' ▸ h'.sound_pool) hcapacity hfree hmatched
  have hframers : Framer.Paired (s.framer.nextTicket.number - s'.framer.nextTicket.number) own own'
      (0 + l) s.framer s'.framer :=
    ⟨0, 0, 0, 0, 0, h.framer.alike h'.framer, htwins.cast (by simp only [zero_add])⟩
  refine ⟨own, own', l, hg, hg', ⟨0, ?_, hframers⟩, h.channel.trans h'.channel.symm, hheld, hheld',
    rfl, rfl, rfl⟩
  show AllAlike Write.Alike 0 s.station.channel.outstanding s'.station.channel.outstanding
  rw [h.outstanding, h'.outstanding]
  exact .nil

end Opened

/-- What opening makes of a session that was closed and has wound down. -/
theorem Shut.opens (h : s.Shut) (hdrained : s.Drained) :
    ∃ s', s.step .enable = .ok s' ∧ s'.Opened s.framer.config ∧ s'.framer.pool = s.framer.pool := by
  obtain ⟨s', hstep, hregular, -⟩ := h.regular.step .enable
  have hclosed := h.closed
  have hqueue := h.queue_nil
  have hidle : s.framer.transmission = .idle := by
    rcases h.transmission_cases with ⟨hidle, -⟩ | ⟨w, -, hout⟩
    · exact hidle
    · cases hdrained.outstanding.symm.trans hout
  obtain ⟨hphase, hpacket⟩ := h.regular.gated.clear h.closed
  have hlimits := h.regular.sound.framer.limits
  have horders := h.regular.sound.settled
  obtain ⟨hout, hevents⟩ := hdrained
  obtain ⟨⟨f, channel, kept, held, issued⟩, accepted, popped⟩ := s
  obtain ⟨config, pool, enabled, nextTicket, queue, transmission, receiver, reporter, orders⟩ := f
  obtain ⟨maxPayload, maxLength, phase, packet⟩ := receiver
  obtain rfl : enabled = false := hclosed
  obtain rfl : transmission = .idle := hidle
  obtain rfl : phase = .idle := hphase
  obtain rfl : packet = none := hpacket
  obtain rfl : orders = [] := horders
  obtain rfl : maxPayload = config.maxPayload := congrArg Decoder.Limits.maxPayload hlimits
  obtain rfl : maxLength = config.maxStream := congrArg Decoder.Limits.maxLength hlimits
  cases hstep
  exact ⟨_, rfl, ⟨hregular.sound, ⟨rfl, rfl, hqueue, rfl, rfl, hevents, rfl, rfl⟩, rfl, hout⟩, rfl⟩

/-- Whatever a framer went through, its limits and the capacities of its pool are as at first. -/
theorem reaches (hpool : Pool.ofClasses classes = .ok pool)
    (hclasses : ∀ c ∈ classes, 1 ≤ c.1 ∧ c.2 ≤ 255) (hf : Framer.ofConfig config pool = .ok f)
    (actions : List Action) :
    ∃ s, (start f).run actions = .ok s ∧ s.Regular ∧ s.framer.config = config ∧
      ∀ i, (s.framer.pool.bucket i).capacity = (classes.map Prod.fst).getD i 0 := by
  obtain ⟨-, rfl⟩ := Framer.ofConfig_eq_ok hf
  obtain ⟨s, hrun, hs, hkeeps, hconfig⟩ :=
    (regular_start (Pool.sound_of_ofClasses hpool hclasses) hf).run actions
  refine ⟨s, hrun, hs, hconfig, fun i => ?_⟩
  rw [← Pool.capacity_bucket_of_ofClasses hpool i]
  exact hkeeps.capacity_eq ⟨i, 0⟩

/-- A new framer is open after it was opened, whatever blocks the application took before. -/
theorem fresh_opens (hpool : Pool.ofClasses classes = .ok pool)
    (hclasses : ∀ c ∈ classes, 1 ≤ c.1 ∧ c.2 ≤ 255) (hf : Framer.ofConfig config pool = .ok f)
    (deeds : List Deed) :
    ∃ t, (start f).run (deeds.map .deed ++ [.enable]) = .ok t ∧ t.Opened config ∧
      ∀ i, (t.framer.pool.bucket i).capacity = (classes.map Prod.fst).getD i 0 := by
  obtain ⟨t₀, hrun, -, hconfig, hcapacity⟩ := reaches hpool hclasses hf (deeds.map .deed)
  have hshut : (start f).Shut := by
    refine ⟨regular_start (Pool.sound_of_ofClasses hpool hclasses) hf, ?_⟩
    obtain ⟨-, rfl⟩ := Framer.ofConfig_eq_ok hf
    rfl
  have hnone : (start f).framer.reporter.events.length = 0 := by
    obtain ⟨-, rfl⟩ := Framer.ofConfig_eq_ok hf
    exact (BoundedQueue.length_toList _).symm.trans (congrArg List.length BoundedQueue.toList_empty)
  have hdeeds : Action.enable ∉ deeds.map Action.deed := by
    intro hmem
    obtain ⟨deed, -, heq⟩ := List.mem_map.1 hmem
    cases heq
  obtain ⟨t₁, hrun₁, -, hwinds⟩ := hshut.run (deeds.map .deed) hdeeds
  cases hrun.symm.trans hrun₁
  obtain ⟨t, hstep, hopened, hsame⟩ :=
    hwinds.shut.opens (hwinds.drained (Or.inl rfl) (hnone.trans_le (Nat.zero_le _)))
  rw [hconfig] at hopened
  refine ⟨t, ?_, hopened, fun i => ?_⟩
  · rw [run_append hrun, run_singleton, hstep]
  · rw [hsame]
    exact hcapacity i

/-- Whatever a framer went through before it was closed: what the channel reports as received while
it is closed has no effect, and once the write that is owed has come back and the events that wait
are taken, opening leaves it in the state of a new framer that was just opened. If the pools then
have as many free slots in each class, the same tasks, whatever they are, lead to the same writes,
events and answers, all tickets moved by the same number. -/
theorem run_restart {pool' : Pool} {classes' : List (Nat × Nat)}
    {f' : Framer queueDepth eventDepth}
    (hpool : Pool.ofClasses classes = .ok pool) (hclasses : ∀ c ∈ classes, 1 ≤ c.1 ∧ c.2 ≤ 255)
    (hf : Framer.ofConfig config pool = .ok f)
    (hpool' : Pool.ofClasses classes' = .ok pool') (hclasses' : ∀ c ∈ classes', 1 ≤ c.1 ∧ c.2 ≤ 255)
    (hf' : Framer.ofConfig config pool' = .ok f')
    (hsame : classes.map Prod.fst = classes'.map Prod.fst) (earlier closed : List Action)
    (hclosed : .enable ∉ closed) (deeds : List Deed) :
    ∃ s₁ s₀, (start f).run (earlier ++ [.disable]) = .ok s₁ ∧ s₁.run closed = .ok s₀ ∧
      s₁.run (closed.filter fun a => !a.isInput) = .ok s₀ ∧
      (s₁.station.channel.outstanding = [] ∨ (∃ result, .complete result ∈ closed) →
        s₁.framer.reporter.events.length ≤ closed.count .pop → s₀.Drained) ∧
      (s₀.Drained → ∃ s t, s₀.step .enable = .ok s ∧
        (start f').run (deeds.map .deed ++ [.enable]) = .ok t ∧ s.framer.SameState t.framer ∧
        (s.framer.pool.freeCounts = t.framer.pool.freeCounts →
          ∀ goods goods', s.Stocked t goods goods' → ∀ tasks : List Task,
            ∃ b b', (Bench.setUp s goods).run tasks = .ok b ∧
              (Bench.setUp t goods').run tasks = .ok b' ∧
              b.Tells (s.framer.nextTicket.number - t.framer.nextTicket.number) b')) := by
  obtain ⟨s₂, hearlier, hs₂, -⟩ := reaches hpool hclasses hf earlier
  obtain ⟨s₁, hdisable, hshut⟩ := hs₂.shuts
  obtain ⟨s₀, hrun, hfiltered, hwinds⟩ := hshut.run closed hclosed
  have hbefore : (start f).run (earlier ++ [.disable]) = .ok s₁ := by
    rw [run_append hearlier, run_singleton, hdisable]
  refine ⟨s₁, s₀, hbefore, hrun, hfiltered, hwinds.drained, fun hdrained => ?_⟩
  obtain ⟨s, hstep, hopened, hpools⟩ := hwinds.shut.opens hdrained
  obtain ⟨t, hfresh, hopened', hcapacity'⟩ := fresh_opens hpool' hclasses' hf' deeds
  obtain ⟨s₀', hwhole, -, hconfig, hcapacity⟩ :=
    reaches hpool hclasses hf (earlier ++ [.disable] ++ closed)
  rw [run_append hbefore, hrun] at hwhole
  obtain rfl := Except.ok.inj hwhole
  rw [hconfig] at hopened
  refine ⟨s, t, hstep, hfresh, hopened.framer.sameState hopened'.framer, ?_⟩
  intro hfree goods goods' hgoods tasks
  have hcapacities (i : Nat) :
      (s.framer.pool.bucket i).capacity = (t.framer.pool.bucket i).capacity := by
    rw [hpools, hcapacity, hsame, hcapacity']
  obtain ⟨own, own', hpaired⟩ := hopened.paired hopened' hcapacities hfree hgoods
  have hagree := hpaired.run tasks
  have hsound : (Bench.setUp s goods).session.Sound := ⟨hopened.sound.framer, hopened.sound.settled⟩
  obtain ⟨b, hb, -⟩ := Bench.sound_run tasks hsound
  rw [hb] at hagree
  obtain ⟨b', hb', hpaired'⟩ := hagree.exists_ok
  exact ⟨b, b', hb, hb', hpaired'.tells⟩

/-- A framer with so many blocks. -/
def slottedFramer (slots : Nat) : Framer 2 2 :=
  { config := { maxPayload := 4, maxPacket := 8 }, pool := ⟨#[.fresh 16 slots]⟩
    receiver := { maxPayload := 4, maxLength := 8 } }

/-- A packet is on the channel and another one is received in part. -/
def interrupted : List Action :=
  [.enable, .deed (.allocate 2), .deed (.write ⟨0, 0⟩ 0 [7, 8]),
    .send {} { chunks := [⟨⟨0, 0⟩, 0, 2⟩], length := 2 },
    .receive ((Blob.encode [1, 2, 3] false).take 5)]

/-- The rest of the packet comes in too late. -/
def tooLate : List Action :=
  [.receive ((Blob.encode [1, 2, 3] false).drop 5), .transactionEnd, .complete (.written 3), .pop]

/-- A packet is sent and another one received. -/
def exchange : List Task :=
  [.load [7, 8], .send {} 1, .complete (.written 8), .pop, .receive (Blob.encode [1, 2] false),
    .pop]

/-- A framer that was closed in the midst of both goes on like a new one with a block more, which the
application holds. -/
theorem interrupted_restarts : ∃ s₁ s₀ s t b b',
    (start (slottedFramer 4)).run (interrupted ++ [.disable]) = .ok s₁ ∧
    s₁.run tooLate = .ok s₀ ∧ s₁.run [.complete (.written 3), .pop] = .ok s₀ ∧
    s₀.popped = [.sendFailed ⟨0⟩ .disconnected] ∧ s₀.step .enable = .ok s ∧
    (start (slottedFramer 5)).run [.deed (.allocate 1), .enable] = .ok t ∧
    s.framer.SameState t.framer ∧
    (Bench.setUp s []).run exchange = .ok b ∧ (Bench.setUp t []).run exchange = .ok b' ∧
    b.Tells 1 b' ∧ b.session.popped = [.sent ⟨1⟩, .received {} [1, 2]] := by
  have hpool : Pool.ofClasses [(16, 4)] = .ok ⟨#[.fresh 16 4]⟩ := rfl
  have hpool' : Pool.ofClasses [(16, 5)] = .ok ⟨#[.fresh 16 5]⟩ := rfl
  have hf : Framer.ofConfig { maxPayload := 4, maxPacket := 8 } ⟨#[.fresh 16 4]⟩ =
      .ok (slottedFramer 4) := rfl
  have hf' : Framer.ofConfig { maxPayload := 4, maxPacket := 8 } ⟨#[.fresh 16 5]⟩ =
      .ok (slottedFramer 5) := rfl
  obtain ⟨s₁, s₀, hbefore, hrun, hfiltered, hdrained, hopen⟩ :=
    run_restart hpool (by decide) hf hpool' (by decide) hf' rfl interrupted tooLate (by decide)
      [.allocate 1]
  have hwaiting : ((start (slottedFramer 4)).run (interrupted ++ [.disable])).toOption.map
      (fun s₁ => s₁.framer.reporter.events.length) = some 1 := by
    decide +kernel
  rw [hbefore] at hwaiting
  obtain ⟨s, t, hs, ht, hsame, hbenches⟩ := hopen (hdrained (Or.inr ⟨.written 3, by decide⟩)
    (Nat.le_of_eq (Option.some.inj hwaiting)))
  have hvalue : ((start (slottedFramer 4)).run (interrupted ++ [.disable])).toOption.bind (fun s₁ =>
      (s₁.run tooLate).toOption.bind fun s₀ => (s₀.step .enable).toOption.bind fun s =>
        ((start (slottedFramer 5)).run [.deed (.allocate 1), .enable]).toOption.bind fun t =>
          ((Bench.setUp s []).run exchange).toOption.map fun b => decide
            (s₀.popped = [.sendFailed ⟨0⟩ .disconnected] ∧
              s.framer.pool.freeCounts = t.framer.pool.freeCounts ∧
              s.framer.nextTicket.number - t.framer.nextTicket.number = 1 ∧
              b.session.popped = [.sent ⟨1⟩, .received {} [1, 2]])) = some true := by
    decide +kernel
  have ht' : (start (slottedFramer 5)).run [.deed (.allocate 1), .enable] = .ok t := ht
  rw [hbefore, Except.toOption, Option.bind_some, hrun, Except.toOption, Option.bind_some, hs,
    Except.toOption, Option.bind_some, ht', Except.toOption, Option.bind_some] at hvalue
  obtain ⟨b, hb, hvalue⟩ := Option.map_eq_some_iff.1 hvalue
  obtain ⟨hpopped, hfree, hnumber, hnews⟩ := of_decide_eq_true hvalue
  obtain ⟨_, b', hrun₁, hb', htells⟩ := hbenches hfree [] [] (Stocked.nil s t) exchange
  have hb := eq_ok_of_toOption hb
  cases hb.symm.trans hrun₁
  rw [hnumber] at htells
  exact ⟨s₁, s₀, s, t, b, b', hbefore, hrun, hfiltered, hpopped, hs, ht', hsame, hb, hb', htells,
    hnews⟩

end Session

end DockLink
