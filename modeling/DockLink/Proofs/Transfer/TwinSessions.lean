import DockLink.Proofs.Transfer.Separation
import DockLink.Proofs.Transfer.TwinFramers

/-!
# Sessions of two pools

Two sessions whose framers are in the same state and whose channels owe the same writes. The
application of either one holds the ends of some bonds, and besides these handles of its own, which
the other knows nothing of. The same action done to both leads on in the same way.
-/

namespace DockLink

variable {queueDepth eventDepth : Nat} {k : UInt16} {own own' : Multiset Block} {pool pool' : Pool}
  {bonds rest rest₁ lent told : Multiset Bond}

/-- The report about a ticket `k` numbers later. -/
def Report.later (k : UInt16) : Report → Report
  | .received contentType content => .received contentType content
  | .sent ticket => .sent (ticket.later k)
  | .sendFailed ticket error => .sendFailed (ticket.later k) error
  | .receiveFailed error consecutive => .receiveFailed error consecutive

def Acceptance.later (k : UInt16) (a : Acceptance) : Acceptance :=
  { a with ticket := a.ticket.later k }

namespace Packet.Bonded

variable {p p' : Packet}

theorem content_eq (h : p.Bonded bonds p') (ht : Pool.Twins own own' pool pool' (bonds + rest)) :
    p.content pool = p'.content pool' := by
  obtain ⟨l, rfl, halike⟩ := h
  exact halike.content_eq ht

theorem valid_iff (h : p.Bonded bonds p') (ht : Pool.Twins own own' pool pool' (bonds + rest)) :
    p.Valid pool ↔ p'.Valid pool' := by
  obtain ⟨l, rfl, halike⟩ := h
  exact halike.valid_iff ht

theorem blocks_left (h : p.Bonded bonds p') : (p.blocks : Multiset Block) = bonds.map Bond.left := by
  obtain ⟨l, rfl, halike⟩ := h
  rw [blocks, halike.left, List.map_map, Multiset.map_coe]
  rfl

theorem blocks_right (h : p.Bonded bonds p') :
    (p'.blocks : Multiset Block) = bonds.map Bond.right := by
  obtain ⟨l, rfl, halike⟩ := h
  rw [blocks, halike.right, List.map_map, Multiset.map_coe]
  rfl

end Packet.Bonded

namespace LinkEvent.Alike

variable {event event' : LinkEvent}

theorem report_eq (h : LinkEvent.Alike k bonds event event')
    (ht : Pool.Twins own own' pool pool' (bonds + rest)) :
    event.report pool = (event'.report pool').later k := by
  cases h with
  | received contentType alike => exact congrArg (Report.received contentType) (alike.content_eq ht)
  | sent ticket => rfl
  | sendFailed ticket error => rfl
  | receiveFailed error consecutive => rfl

theorem blocks_left (h : LinkEvent.Alike k bonds event event') :
    (event.blocks : Multiset Block) = bonds.map Bond.left := by
  cases h with
  | received contentType alike => exact alike.blocks_left
  | sent ticket => rfl
  | sendFailed ticket error => rfl
  | receiveFailed error consecutive => rfl

theorem blocks_right (h : LinkEvent.Alike k bonds event event') :
    (event'.blocks : Multiset Block) = bonds.map Bond.right := by
  cases h with
  | received contentType alike => exact alike.blocks_right
  | sent ticket => rfl
  | sendFailed ticket error => rfl
  | receiveFailed error consecutive => rfl

end LinkEvent.Alike

/-! ## Telling the channel -/

theorem Write.Alike.bytes_eq {w w' : Write} (h : w.Alike bonds w')
    (ht : Pool.Twins own own' pool pool' (bonds + rest)) : w.bytes pool = w'.bytes pool' := by
  obtain ⟨block, block', length⟩ := h
  have hread : pool.read block 0 length = pool'.read block' 0 length :=
    ht.read_eq (Multiset.mem_add.2 (Or.inl (Multiset.mem_singleton_self _))) (Nat.le_refl 0)
      (Nat.le_refl length)
  rw [Write.bytes, Write.bytes, Nat.zero_add]
  exact hread

namespace Order.Alike

variable {orders orders' : List Order}

/-- The same writes are among the same orders. -/
theorem writes (h : AllAlike Order.Alike bonds orders orders') :
    AllAlike Write.Alike bonds (orders.filterMap Order.write?) (orders'.filterMap Order.write?) := by
  induction h with
  | nil => exact .nil
  | cons first others ih =>
      cases first with
      | write alike => exact .cons alike ih
      | enable => exact (zero_add (_ : Multiset Bond)).symm ▸ ih
      | disable => exact (zero_add (_ : Multiset Bond)).symm ▸ ih
      | abortRx => exact (zero_add (_ : Multiset Bond)).symm ▸ ih
      | abortTx => exact (zero_add (_ : Multiset Bond)).symm ▸ ih

theorem enabled_obeyAll (h : AllAlike Order.Alike bonds orders orders') {c c' : Channel}
    (hc : c.enabled = c'.enabled) : (c.obeyAll orders).enabled = (c'.obeyAll orders').enabled := by
  induction h generalizing c c' with
  | nil => exact hc
  | @cons _ _ o o' l l' first others ih =>
      show ((c.obey o).obeyAll l).enabled = ((c'.obey o').obeyAll l').enabled
      refine ih ?_
      cases first with
      | write alike => exact hc
      | enable => rfl
      | disable => rfl
      | abortRx => exact hc
      | abortTx => exact hc

end Order.Alike

/-- The orders are taken. -/
theorem Framer.Paired.takeOrders {f f' : Framer queueDepth eventDepth}
    (h : Framer.Paired k own own' rest f f') :
    ∃ told, AllAlike Order.Alike told f.orders f'.orders ∧
      Framer.Paired k own own' (told + rest) { f with orders := [] } { f' with orders := [] } := by
  obtain ⟨queued, sent, held, posted, told, halike, ht⟩ := h
  exact ⟨told, halike.orders, queued, sent, held, posted, 0, { halike with orders := .nil },
    ht.cast (by abel)⟩

/-! ## Sessions -/

namespace Session

/-- Two sessions in the same state. The applications hold the ends of the bonds `rest` next to
handles of their own, and what they and the channels were told is the same. -/
structure Paired (k : UInt16) (own own' : Multiset Block) (rest : Multiset Bond)
    (s s' : Session queueDepth eventDepth) : Prop where
  framers : ∃ lent, AllAlike Write.Alike lent s.station.channel.outstanding
      s'.station.channel.outstanding ∧ Framer.Paired k own own' (lent + rest) s.framer s'.framer
  channel_eq : s.station.channel.enabled = s'.station.channel.enabled
  held_left : (s.station.held : Multiset Block) = rest.map Bond.left + own
  held_right : (s'.station.held : Multiset Block) = rest.map Bond.right + own'
  issued_eq : s.station.issued = s'.station.issued
  accepted_eq : s.accepted = s'.accepted.map (Acceptance.later k)
  popped_eq : s.popped = s'.popped.map (Report.later k)

variable {s s' : Session queueDepth eventDepth} {f f' : Framer queueDepth eventDepth}
  {st st' : Station (Framer queueDepth eventDepth)}

theorem run_singleton (s : Session queueDepth eventDepth) (a : Action) : s.run [a] = s.step a := by
  rw [run]
  cases s.step a with
  | error fault => rfl
  | ok s' => rfl

theorem run_append {actions : List Action} {s : Session queueDepth eventDepth}
    (hrun : s.run actions = .ok s') (more : List Action) :
    s.run (actions ++ more) = s'.run more := by
  induction actions generalizing s with
  | nil =>
      cases hrun
      rfl
  | cons a rest ih =>
      rw [run] at hrun
      obtain ⟨s₁, hstep, hrest⟩ := exists_of_bind_eq_ok hrun
      rw [List.cons_append, run, hstep]
      exact ih hrest

theorem step_complete_nil (h : s.station.channel.outstanding = []) (result : WriteResult) :
    s.step (.complete result) = .ok s := by
  simp only [step, Station.complete, Station.takeWrite?, h, Option.map_none]

theorem step_complete_cons {w : Write} {owed : List Write}
    (h : s.station.channel.outstanding = w :: owed) (result : WriteResult) :
    s.step (.complete result) =
      match (s.framer.writeComplete w.block result).2 with
      | none => .ok { s with station := Station.settle { s.station with
          endpoint := (s.framer.writeComplete w.block result).1
          channel := { s.station.channel with outstanding := owed } } }
      | some fault => .error fault := by
  have hcomplete : Endpoint.writeComplete s.station.endpoint w.block result =
      s.framer.writeComplete w.block result := rfl
  simp only [step, Station.complete, Station.takeWrite?, h, Option.map_some, Station.report, hcomplete]
  cases (s.framer.writeComplete w.block result).2 with
  | none => rfl
  | some fault => rfl

theorem run_load {data : Bytes} {b : Block} {p q : Pool}
    (ha : s.framer.pool.allocate data.length = .ok (b, p)) (hw : p.write b 0 data = .ok q) :
    s.run [.deed (.allocate data.length), .deed (.write b 0 data)] =
      .ok (s.use (b :: s.station.held) q) := by
  have hfirst : s.step (.deed (.allocate data.length)) = .ok (s.use (b :: s.station.held) p) := by
    simp only [step, Deed.apply, ha]
  have hsecond : (s.use (b :: s.station.held) p).step (.deed (.write b 0 data)) =
      .ok (s.use (b :: s.station.held) q) := by
    have hwrite : (s.use (b :: s.station.held) p).framer.pool.write b 0 data = .ok q := hw
    have hmem : b ∈ (s.use (b :: s.station.held) p).station.held := List.mem_cons_self
    simp only [step, Deed.apply, hmem, if_true, hwrite]
    rfl
  rw [run, hfirst]
  show run (s.use (b :: s.station.held) p) _ = _
  rw [run, hsecond]
  rfl

/-- The framers change, and nothing else does. -/
theorem Paired.withFramer (h : Paired k own own' rest s s')
    (hstep : ∀ {rest}, Framer.Paired k own own' rest s.framer s'.framer →
      Framer.Paired k own own' rest f f') :
    Paired k own own' rest { s with station := { s.station with endpoint := f } }
      { s' with station := { s'.station with endpoint := f' } } := by
  obtain ⟨lent, hout, hf⟩ := h.framers
  exact { h with framers := ⟨lent, hout, hstep hf⟩ }

/-- The channels are told of the orders. -/
theorem Paired.settle {accepted accepted' : List Acceptance} {popped popped' : List Report}
    (h : Paired k own own' rest ⟨st, accepted, popped⟩ ⟨st', accepted', popped'⟩) :
    Paired k own own' rest ⟨st.settle, accepted, popped⟩ ⟨st'.settle, accepted', popped'⟩ := by
  obtain ⟨lent, hout, hf⟩ := h.framers
  obtain ⟨told, horders, hsettled⟩ := hf.takeOrders
  have hwrites := Order.Alike.writes horders.reverse
  have hbytes : st.endpoint.ordered.map (Write.bytes st.endpoint.pool) =
      st'.endpoint.ordered.map (Write.bytes st'.endpoint.pool) := by
    obtain ⟨queued, sent, held, posted, told', halike, ht⟩ := hsettled
    have ht' : Pool.Twins own own' st.endpoint.pool st'.endpoint.pool
        (told + (queued + sent + held + posted + told' + (lent + rest))) := ht.cast (by abel)
    exact hwrites.map_eq ht' fun hw ht => hw.bytes_eq ht
  have hissued : (st.endpoint.orders.reverse.filterMap (Station.bytesOf? st.endpoint.pool)).reverse ++
        st.issued =
      (st'.endpoint.orders.reverse.filterMap (Station.bytesOf? st'.endpoint.pool)).reverse ++
        st'.issued := by
    have hbefore : st.issued = st'.issued := h.issued_eq
    rw [Station.filterMap_bytesOf?, Station.filterMap_bytesOf?, hbefore]
    exact congrArg (fun l => List.reverse l ++ st'.issued) hbytes
  refine ⟨⟨lent + told, ?_, hsettled.cast (by abel)⟩, ?_, h.held_left, h.held_right, hissued,
    h.accepted_eq, h.popped_eq⟩
  · show AllAlike Write.Alike _ (st.channel.obeyAll st.endpoint.orders.reverse).outstanding
      (st'.channel.obeyAll st'.endpoint.orders.reverse).outstanding
    rw [Channel.outstanding_obeyAll, Channel.outstanding_obeyAll]
    exact hout.append hwrites
  · exact Order.Alike.enabled_obeyAll horders.reverse h.channel_eq

namespace Paired

theorem cast (h : Paired k own own' rest s s') (he : rest = rest₁) : Paired k own own' rest₁ s s' :=
  he ▸ h

/-- The pools behave alike, next to whatever bonds the framers and the channels have. They, and what
the applications hold of them, may change if they do so together. -/
theorem pools (h : Paired k own own' rest s s') :
    ∃ others, Pool.Twins own own' s.framer.pool s'.framer.pool (others + rest) ∧
      ∀ {rest₁ : Multiset Bond} {q q' : Pool} {held held' : List Block},
        Pool.Twins own own' q q' (others + rest₁) →
          (held : Multiset Block) = rest₁.map Bond.left + own →
            (held' : Multiset Block) = rest₁.map Bond.right + own' →
              Paired k own own' rest₁ (s.use held q) (s'.use held' q') := by
  obtain ⟨lent, hout, queued, sent, held, posted, told, halike, ht⟩ := h.framers
  refine ⟨queued + sent + held + posted + told + lent, ht.cast (add_assoc _ _ _).symm, ?_⟩
  intro rest₁ q q' held₁ held₁' hq hheld hheld'
  have hpool : Framer.Paired k own own' (lent + rest₁) { s.framer with pool := q }
      { s'.framer with pool := q' } :=
    ⟨queued, sent, held, posted, told, { halike with }, hq.cast (add_assoc _ _ _)⟩
  exact ⟨⟨lent, hout, hpool⟩, h.channel_eq, hheld, hheld', h.issued_eq, h.accepted_eq, h.popped_eq⟩

theorem mem_held_left (h : Paired k own own' rest s s') {x : Bond} (hx : x ∈ rest) :
    x.left ∈ s.station.held := by
  rw [← Multiset.mem_coe, h.held_left]
  exact Pool.Twins.mem_left hx

theorem mem_held_right (h : Paired k own own' rest s s') {x : Bond} (hx : x ∈ rest) :
    x.right ∈ s'.station.held := by
  rw [← Multiset.mem_coe, h.held_right]
  exact Pool.Twins.mem_right hx

/-! ## Actions of the channel -/

theorem act (h : Paired k own own' rest s s')
    {g : Framer queueDepth eventDepth → Framer queueDepth eventDepth}
    (hstep : ∀ {rest}, Framer.Paired k own own' rest s.framer s'.framer →
      Framer.Paired k own own' rest (g s.framer) (g s'.framer)) :
    Paired k own own' rest { s with station := s.station.act g }
      { s' with station := s'.station.act g } :=
  (h.withFramer hstep).settle

theorem enable (h : Paired k own own' rest s s') :
    Agree (Paired k own own' rest) (s.step .enable) (s'.step .enable) :=
  .ok (h.act fun hf => hf.enable)

theorem disable (h : Paired k own own' rest s s') :
    Agree (Paired k own own' rest) (s.step .disable) (s'.step .disable) :=
  .ok (h.act fun hf => hf.disable)

theorem transactionEnd (h : Paired k own own' rest s s') :
    Agree (Paired k own own' rest) (s.step .transactionEnd) (s'.step .transactionEnd) :=
  .ok (h.act fun hf => hf.transactionEnd)

theorem receive (h : Paired k own own' rest s s') (data : Bytes) :
    Agree (Paired k own own' rest) (s.step (.receive data)) (s'.step (.receive data)) := by
  obtain ⟨lent, hout, hf⟩ := h.framers
  refine Agree.map (Agree.map (hf.received data) fun f f' hreceived => ?_) fun _ _ hs => hs
  have hpaired : Paired k own own' rest { s with station := { s.station with endpoint := f } }
      { s' with station := { s'.station with endpoint := f' } } :=
    { h with framers := ⟨lent, hout, hreceived⟩ }
  exact hpaired.settle

/-- Both channels complete the write that they owe, if they owe one. -/
theorem complete (h : Paired k own own' rest s s') (result : WriteResult) :
    Agree (Paired k own own' rest) (s.step (.complete result)) (s'.step (.complete result)) := by
  obtain ⟨lent, hout, hf⟩ := h.framers
  generalize howed : s.station.channel.outstanding = owed at hout
  generalize howed' : s'.station.channel.outstanding = owed' at hout
  cases hout with
  | nil =>
      rw [step_complete_nil howed, step_complete_nil howed']
      exact .ok h
  | @cons now later w w' owed owed' first others =>
      obtain ⟨block, block', length⟩ := first
      have hcast : Framer.Paired k own own' (⟨block, block', 0, length⟩ ::ₘ (later + rest))
          s.framer s'.framer :=
        hf.cast (by rw [add_assoc, Multiset.singleton_add])
      obtain ⟨hpaired, hfault⟩ := hcast.writeComplete result
      rw [step_complete_cons howed, step_complete_cons howed', ← hfault]
      cases (s.framer.writeComplete block result).2 with
      | none =>
          have hnext : Paired k own own' rest
              { s with station := { s.station with
                endpoint := (s.framer.writeComplete block result).1
                channel := { s.station.channel with outstanding := owed } } }
              { s' with station := { s'.station with
                endpoint := (s'.framer.writeComplete block' result).1
                channel := { s'.station.channel with outstanding := owed' } } } :=
            { h with framers := ⟨later, others, hpaired⟩ }
          exact .ok hnext.settle
      | some fault => exact .error fault

/-! ## Actions of the application -/

/-- The event that the application takes next. -/
theorem pop (h : Paired k own own' rest s s') :
    (s.framer.popEvent? = none ∧ s'.framer.popEvent? = none) ∨
      ∃ event event' f f' bonds, s.framer.popEvent? = some (event, f) ∧
        s'.framer.popEvent? = some (event', f') ∧ LinkEvent.Alike k bonds event event' ∧
        Paired k own own' (bonds + rest) (s.take event f) (s'.take event' f') := by
  obtain ⟨lent, hout, hf⟩ := h.framers
  rcases hf.popEvent with hnone | ⟨event, event', f, f', bonds, hp, hp', he, hpaired, hpool, hpool'⟩
  · exact Or.inl hnone
  · obtain ⟨queued, sent, held, posted, told, -, ht⟩ := id hpaired
    rw [hpool, hpool'] at ht
    have hreport : event.report s.framer.pool = (event'.report s'.framer.pool).later k :=
      he.report_eq (ht.cast (by abel) : Pool.Twins own own' s.framer.pool s'.framer.pool
        (bonds + (queued + sent + held + posted + told + (lent + rest))))
    refine Or.inr ⟨event, event', f, f', bonds, hp, hp', he, ⟨lent, hout, hpaired.cast (by abel)⟩,
      h.channel_eq, ?_, ?_, h.issued_eq, h.accepted_eq, ?_⟩
    · show ((event.blocks ++ s.station.held : List Block) : Multiset Block) = _
      rw [← Multiset.coe_add, he.blocks_left, h.held_left, Multiset.map_add, add_assoc]
    · show ((event'.blocks ++ s'.station.held : List Block) : Multiset Block) = _
      rw [← Multiset.coe_add, he.blocks_right, h.held_right, Multiset.map_add, add_assoc]
    · show s.popped ++ [_] = (s'.popped ++ [_]).map _
      rw [h.popped_eq, hreport, List.map_append, List.map_singleton]

end Paired

/-- The packet that comes back when one is handed in: none if it is accepted, and the packet itself
if it cannot be handed in at all. -/
def comesBack? (s : Session queueDepth eventDepth) (contentType : ContentType) (packet : Packet) :
    Option Packet :=
  if packet.Valid s.framer.pool ∧ packet.handles ≤ (s.station.held : Multiset Block) then
    match s.framer.send contentType packet with
    | .ok (.error (_, back), _) => some back
    | _ => none
  else some packet

namespace Paired

/-- Both applications have the handles of a packet, and the others are left when they are taken. -/
theorem besides (h : Paired k own own' (bonds + rest) s s') {packet packet' : Packet}
    (hp : packet.Bonded bonds packet') :
    (packet.handles ≤ (s.station.held : Multiset Block) ∧
        packet'.handles ≤ (s'.station.held : Multiset Block)) ∧
      ((s.station.held.diff packet.blocks : List Block) : Multiset Block) =
        rest.map Bond.left + own ∧
      ((s'.station.held.diff packet'.blocks : List Block) : Multiset Block) =
        rest.map Bond.right + own' := by
  have hheld : (s.station.held : Multiset Block) =
      packet.blocks + (rest.map Bond.left + own) := by
    rw [h.held_left, Multiset.map_add, hp.blocks_left, add_assoc]
  have hheld' : (s'.station.held : Multiset Block) =
      packet'.blocks + (rest.map Bond.right + own') := by
    rw [h.held_right, Multiset.map_add, hp.blocks_right, add_assoc]
  refine ⟨⟨?_, ?_⟩, ?_, ?_⟩
  · rw [hheld]
    exact Multiset.le_add_right _ _
  · rw [hheld']
    exact Multiset.le_add_right _ _
  · rw [← Multiset.coe_sub, hheld, add_tsub_cancel_left]
  · rw [← Multiset.coe_sub, hheld', add_tsub_cancel_left]

/-- A packet is handed in. What comes back is alike. -/
theorem send (h : Paired k own own' (bonds + rest) s s') (contentType : ContentType)
    {packet packet' : Packet} (hp : packet.Bonded bonds packet') :
    ∃ kept, SomeAlike Packet.Bonded kept (s.comesBack? contentType packet)
        (s'.comesBack? contentType packet') ∧
      Agree (Paired k own own' (kept + rest)) (s.step (.send contentType packet))
        (s'.step (.send contentType packet')) := by
  obtain ⟨others, ht, -⟩ := h.pools
  have htwins : Pool.Twins own own' s.framer.pool s'.framer.pool (bonds + (others + rest)) :=
    ht.cast (by abel)
  obtain ⟨⟨hhandles, hhandles'⟩, hdiff, hdiff'⟩ := h.besides hp
  simp only [Session.step, comesBack?, and_iff_left hhandles, and_iff_left hhandles',
    ← hp.valid_iff htwins]
  split
  · obtain ⟨lent, hout, hf⟩ := h.framers
    have hsend := (hf.cast (add_left_comm lent bonds rest)).send contentType hp
    have hcontent := hp.content_eq htwins
    unfold Session.send
    generalize s.framer.send contentType packet = r at hsend
    generalize s'.framer.send contentType packet' = r' at hsend
    cases hsend with
    | error fault => exact ⟨0, .none, .error fault⟩
    | @ok r r' hr =>
        obtain ⟨answer, f⟩ := r
        obtain ⟨answer', f'⟩ := r'
        obtain ⟨kept, hanswer, hpaired⟩ := hr
        have hpaired' : Framer.Paired k own own' (lent + (kept + rest)) f f' :=
          hpaired.cast (by abel)
        cases hanswer with
        | accepted ticket =>
            refine ⟨0, .none, .ok (Paired.settle ?_)⟩
            refine ⟨⟨lent, hout, hpaired'⟩, h.channel_eq, ?_, ?_, h.issued_eq, ?_, h.popped_eq⟩
            · rw [zero_add]
              exact hdiff
            · rw [zero_add]
              exact hdiff'
            · show s.accepted ++ [_] = (s'.accepted ++ [_]).map _
              rw [h.accepted_eq, hcontent, List.map_append, List.map_singleton]
              rfl
        | @refused _ back back' e alike =>
            refine ⟨kept, .some alike, .ok (Paired.settle ?_)⟩
            refine ⟨⟨lent, hout, hpaired'⟩, h.channel_eq, ?_, ?_, h.issued_eq, h.accepted_eq,
              h.popped_eq⟩
            · rw [Multiset.map_add, add_assoc, ← hdiff, ← alike.blocks_left]
              exact (Multiset.coe_add _ _).symm
            · rw [Multiset.map_add, add_assoc, ← hdiff', ← alike.blocks_right]
              exact (Multiset.coe_add _ _).symm
  · exact ⟨bonds, .some hp, .ok h⟩

/-! ## Deeds of the application -/

variable {x : Bond}

/-- Bytes are put into a new block by both, or by neither. -/
theorem load (h : Paired k own own' rest s s') (data : Bytes) :
    (∃ e, s.framer.pool.allocate data.length = .error e ∧
        s'.framer.pool.allocate data.length = .error e) ∨
      ∃ b b' q q', s.framer.pool.allocate data.length = .ok (b, q) ∧
        s'.framer.pool.allocate data.length = .ok (b', q') ∧
        Agree (Paired k own own' (⟨b, b', 0, data.length⟩ ::ₘ rest))
          (s.run [.deed (.allocate data.length), .deed (.write b 0 data)])
          (s'.run [.deed (.allocate data.length), .deed (.write b' 0 data)]) := by
  obtain ⟨others, ht, hnext⟩ := h.pools
  rcases ht.load data with hnone | ⟨b, b', p, p', q, q', ha, ha', hw, hw', hq⟩
  · exact Or.inl hnone
  · refine Or.inr ⟨b, b', p, p', ha, ha', ?_⟩
    rw [run_load ha hw, run_load ha' hw']
    refine .ok (hnext (hq.cast (Multiset.add_cons _ _ _).symm) ?_ ?_)
    · rw [← Multiset.cons_coe, h.held_left, Multiset.map_cons, Multiset.cons_add]
    · rw [← Multiset.cons_coe, h.held_right, Multiset.map_cons, Multiset.cons_add]

/-- A second handle to a block. -/
theorem retain (h : Paired k own own' (x ::ₘ rest) s s') :
    (∃ fault, s.framer.pool.retain x.left = .error fault ∧
        s'.framer.pool.retain x.right = .error fault) ∨
      ∃ q q', s.framer.pool.retain x.left = .ok q ∧ s'.framer.pool.retain x.right = .ok q' ∧
        Agree (Paired k own own' (x ::ₘ x ::ₘ rest)) (s.step (.deed (.retain x.left)))
          (s'.step (.deed (.retain x.right))) := by
  have hx := Multiset.mem_cons_self x rest
  obtain ⟨others, ht, hnext⟩ := h.pools
  have ht' := ht.cast (Multiset.add_cons _ _ _)
  rcases ht'.retain with hfull | ⟨q, q', hr, hr', hq⟩
  · exact Or.inl hfull
  · refine Or.inr ⟨q, q', hr, hr', ?_⟩
    simp only [Session.step, Deed.apply, h.mem_held_left hx, h.mem_held_right hx, if_true, hr, hr']
    refine .ok (hnext (hq.cast ?_) ?_ ?_)
    · rw [Multiset.add_cons, Multiset.add_cons]
    · rw [← Multiset.cons_coe, h.held_left, Multiset.map_cons Bond.left x (x ::ₘ rest), Multiset.cons_add]
    · rw [← Multiset.cons_coe, h.held_right, Multiset.map_cons Bond.right x (x ::ₘ rest), Multiset.cons_add]

theorem release (h : Paired k own own' (x ::ₘ rest) s s') :
    Agree (Paired k own own' rest) (s.step (.deed (.release x.left)))
      (s'.step (.deed (.release x.right))) := by
  have hx := Multiset.mem_cons_self x rest
  obtain ⟨others, ht, hnext⟩ := h.pools
  have ht' := ht.cast (Multiset.add_cons _ _ _)
  simp only [Session.step, Deed.apply, h.mem_held_left hx, h.mem_held_right hx, if_true]
  refine .ok (hnext ht'.release ?_ ?_)
  · rw [← Multiset.coe_erase, h.held_left, Multiset.map_cons, Multiset.cons_add,
      Multiset.erase_cons_head]
  · rw [← Multiset.coe_erase, h.held_right, Multiset.map_cons, Multiset.cons_add,
      Multiset.erase_cons_head]

/-- Both write a block, or neither does because it has another handle or is too short. -/
theorem write (h : Paired k own own' (x ::ₘ rest) s s') (offset : Nat) (data : Bytes) :
    Agree (Paired k own own' (x ::ₘ rest)) (s.step (.deed (.write x.left offset data)))
      (s'.step (.deed (.write x.right offset data))) := by
  have hx := Multiset.mem_cons_self x rest
  obtain ⟨others, ht, hnext⟩ := h.pools
  have ht' := ht.cast (Multiset.add_cons _ _ _)
  simp only [Session.step, Deed.apply, h.mem_held_left hx, h.mem_held_right hx, if_true]
  rcases ht'.write offset data with ⟨fault, hw, hw'⟩ | ⟨q, q', hw, hw', hknown⟩
  · simp only [hw, hw']
    exact .ok (hnext ht h.held_left h.held_right)
  · simp only [hw, hw']
    have hq : Pool.Twins own own' q q' (x ::ₘ (others + rest)) := hknown fun i hi hi' => Or.inl ⟨hi, hi'⟩
    exact .ok (hnext (hq.cast (Multiset.add_cons _ _ _).symm) h.held_left h.held_right)

end Paired

end Session

end DockLink
