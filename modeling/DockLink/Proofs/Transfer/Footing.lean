import DockLink.Proofs.Transfer.Outline

/-!
# The footing of a framer

`Sound` is what holds of a framer at every moment: the pool counts the handles of the framer, of the
channel and of everyone else, packets and segments are within their bounds, and the channel owes a
block exactly when there is a blob on it. A step of the framer leads from one sound framer to
another and does to the outline what its name tells; `Goes` puts this in one place, and steps chain
by `Goes.trans`.
-/

namespace DockLink

variable {pool q : Pool} {others : Multiset Block}

/-- The write in an order. -/
def Order.write? : Order → Option Write
  | .write w => some w
  | _ => none

namespace Framer

/-- The handles that were lent to the channel. -/
def lent (writes : List Write) : Multiset Block := (writes.map Write.block : List Block)

/-- A packet that was accepted. -/
structure Outgoing.Valid (config : Config) (pool : Pool) (o : Outgoing) : Prop where
  packet : o.packet.Valid pool
  length_le : o.packet.length ≤ config.maxStream

def Outgoing.parcel (pool : Pool) (o : Outgoing) : Parcel :=
  { ticket := o.ticket, stream := o.packet.content pool }

/-- The write of the blob on the channel: of a block of its own, large enough for every blob of the
packet. -/
structure Carries (pool : Pool) (segments : Segments) (expected : Nat) (w : Write) : Prop where
  unshared : pool.refCount w.block = 1
  capacity : segments.maxBlobLength ≤ pool.capacity w.block
  offset_eq : w.offset = 0
  length_eq : w.length = expected

namespace Transmission

def handles : Transmission → Multiset Block
  | .sending o _ _ => o.packet.handles
  | _ => 0

/-- The channel owes a block if and only if it is not idle. -/
def Valid (config : Config) (pool : Pool) (writes : List Write) : Transmission → Prop
  | .idle => writes = []
  | .sending o segments expected =>
    o.Valid config pool ∧ segments.Valid o.packet ∧ segments.maxPayload = config.maxPayload ∧
      ∃ w, writes = [w] ∧ Carries pool segments expected w
  | .cancelled => ∃ w, writes = [w]

def flight (pool : Pool) : Transmission → Flight
  | .idle => .idle
  | .sending o segments expected =>
    .sending (o.parcel pool) (segments.left (o.packet.content pool)) expected
  | .cancelled => .cancelled

end Transmission

variable {queueDepth eventDepth : Nat} {f f₁ f₂ : Framer queueDepth eventDepth}
  {owed owed₁ owed₂ : List Write} {rest rest₁ rest₂ : Multiset Block}

/-- The writes that the channel was not told of yet, oldest first. -/
def ordered (f : Framer queueDepth eventDepth) : List Write :=
  f.orders.reverse.filterMap Order.write?

/-- The handles of the packets that are not through yet. -/
def outbound (f : Framer queueDepth eventDepth) : Multiset Block :=
  (f.queue.toList.map fun o => o.packet.handles).sum + f.transmission.handles

def handles (f : Framer queueDepth eventDepth) : Multiset Block :=
  f.outbound + f.receiver.handles + f.reporter.handles

/-- What holds of a framer when the channel owes `owed` and the others hold `rest`. -/
structure Sound (f : Framer queueDepth eventDepth) (owed : List Write) (rest : Multiset Block) :
    Prop where
  check : f.config.check f.pool = .ok ()
  limits : f.receiver.limits =
    { maxPayload := f.config.maxPayload, maxLength := f.config.maxStream }
  pool : f.pool.Sound (f.handles + lent (owed ++ f.ordered) + rest)
  queue : ∀ o ∈ f.queue.toList, o.Valid f.config f.pool
  transmission : f.transmission.Valid f.config f.pool (owed ++ f.ordered)
  receiver : f.receiver.Valid f.pool
  reporter : f.reporter.Valid f.pool

/-- What a framer comes to. -/
def outline (f : Framer queueDepth eventDepth) : Outline :=
  { config := f.config
    enabled := f.enabled
    nextTicket := f.nextTicket
    waiting := f.queue.toList.map (Outgoing.parcel f.pool)
    flight := f.transmission.flight f.pool
    reading := f.receiver.reading f.pool
    board := f.reporter.board f.pool
    writes := f.ordered.map (Write.bytes f.pool) }

/-- What a step of the framer does, from one sound framer to the next. -/
structure Goes (f : Framer queueDepth eventDepth) (owed : List Write) (rest : Multiset Block)
    (o : Outline) (f' : Framer queueDepth eventDepth) : Prop where
  sound : f'.Sound owed rest
  keeps : f.pool.Keeps f'.pool rest
  outline_eq : f'.outline = o

theorem Goes.trans {o₁ o₂ : Outline} (h₁ : f.Goes owed₁ rest₁ o₁ f₁)
    (h₂ : f₁.Goes owed₂ rest₂ o₂ f₂) (hle : ∀ b ∈ rest₂, b ∈ rest₁) : f.Goes owed₂ rest₂ o₂ f₂ :=
  ⟨h₂.sound, (h₁.keeps.mono hle).trans h₂.keeps, h₂.outline_eq⟩

theorem Sound.cast (h : f.Sound owed rest) (he : rest = rest₁) : f.Sound owed rest₁ := he ▸ h

/-! ## Another pool -/

theorem Outgoing.Valid.keeps {config : Config} {o : Outgoing} (h : o.Valid config pool)
    (hk : pool.Keeps q others) : o.Valid config q :=
  ⟨h.packet.keeps hk, h.length_le⟩

theorem Outgoing.parcel_keeps {o : Outgoing} (hk : pool.Keeps q others)
    (ho : ∀ b ∈ o.packet.handles, b ∈ others) : o.parcel q = o.parcel pool :=
  congrArg (Parcel.mk o.ticket) (Packet.content_keeps hk ho)

theorem Carries.keeps {segments : Segments} {expected : Nat} {w : Write}
    (h : Carries pool segments expected w) (hk : pool.Keeps q others) (hw : w.block ∈ others) :
    Carries q segments expected w :=
  { h with
    unshared := hk.unshared _ hw h.unshared
    capacity := (hk.capacity_eq w.block).symm ▸ h.capacity }

theorem Transmission.Valid.keeps {config : Config} {writes : List Write} {t : Transmission}
    (h : t.Valid config pool writes) (hk : pool.Keeps q others)
    (hlent : ∀ b ∈ lent writes, b ∈ others) : t.Valid config q writes := by
  cases t with
  | idle => exact h
  | cancelled => exact h
  | sending o segments expected =>
      obtain ⟨ho, hsegments, hmax, w, rfl, hcarries⟩ := h
      exact ⟨ho.keeps hk, hsegments, hmax, w, rfl,
        hcarries.keeps hk (hlent _ (Multiset.mem_singleton_self _))⟩

theorem Transmission.flight_keeps {t : Transmission} (hk : pool.Keeps q others)
    (ht : ∀ b ∈ t.handles, b ∈ others) : t.flight q = t.flight pool := by
  cases t with
  | idle => rfl
  | cancelled => rfl
  | sending o segments expected =>
      have hcontent : o.packet.content q = o.packet.content pool := Packet.content_keeps hk ht
      simp only [flight, Outgoing.parcel, hcontent]

/-- What a configuration that was accepted is known to meet. -/
theorem Config.of_check {config : Config} (h : config.check pool = .ok ()) :
    (0 < config.maxPayload ∧ config.maxPayload ≤ Header.maxPayload) ∧
      Header.overhead + config.maxPayload ≤ pool.maxBlockSize ∧ config.maxStream ≤ maxSize ∧
      ceilDiv config.maxStream config.maxPayload ≤ Packet.maxChunks := by
  unfold check at h
  split at h
  · cases h
  · split at h
    · cases h
    · split at h
      · cases h
      · split at h
        · cases h
        · refine ⟨by omega, by omega, by omega, by omega⟩

theorem Config.check_keeps {config : Config} (hk : pool.Keeps q others) :
    config.check q = config.check pool := by
  rw [check, check, hk.maxBlockSize_eq]

variable {receiver : Receiver} {reporter : Reporter eventDepth}

/-- The pool, the receiver and the reporter may change, as long as the pool keeps what the outbound
packets and the lent blocks show. -/
theorem Sound.inbound (h : f.Sound owed rest) (hlimits : receiver.limits = f.receiver.limits)
    (hreceiver : receiver.Valid q) (hreporter : reporter.Valid q)
    (hq : q.Sound (f.outbound + receiver.handles + reporter.handles + lent (owed ++ f.ordered) +
      rest₁))
    (hk : f.pool.Keeps q (f.outbound + lent (owed ++ f.ordered))) :
    Sound { f with pool := q, receiver, reporter } owed rest₁ ∧
      outline { f with pool := q, receiver, reporter } =
        { f.outline with reading := receiver.reading q, board := reporter.board q } := by
  have houtbound : ∀ b ∈ f.outbound, b ∈ f.outbound + lent (owed ++ f.ordered) :=
    fun b hb => Multiset.mem_add.2 (Or.inl hb)
  have hlent : ∀ b ∈ lent (owed ++ f.ordered), b ∈ f.outbound + lent (owed ++ f.ordered) :=
    fun b hb => Multiset.mem_add.2 (Or.inr hb)
  constructor
  · exact {
      check := (Config.check_keeps hk).trans h.check
      limits := hlimits.trans h.limits
      pool := hq
      queue := fun o ho => (h.queue o ho).keeps hk
      transmission := h.transmission.keeps hk hlent
      receiver := hreceiver
      reporter := hreporter }
  · have hwaiting : f.queue.toList.map (Outgoing.parcel q) =
        f.queue.toList.map (Outgoing.parcel f.pool) := by
      refine List.map_congr_left ?_
      intro o ho
      exact Outgoing.parcel_keeps hk fun b hb =>
        houtbound b (Multiset.mem_add.2 (Or.inl (Pool.mem_sum_handles ho hb)))
    have hflight : f.transmission.flight q = f.transmission.flight f.pool :=
      Transmission.flight_keeps hk fun b hb => houtbound b (Multiset.mem_add.2 (Or.inr hb))
    have hwrites : f.ordered.map (Write.bytes q) = f.ordered.map (Write.bytes f.pool) := by
      refine List.map_congr_left ?_
      intro w hw
      have hmem : w.block ∈ lent (owed ++ f.ordered) :=
        Multiset.mem_coe.2 (List.mem_map_of_mem (List.mem_append_right _ hw))
      rw [Write.bytes, Write.bytes, Pool.read_eq, Pool.read_eq, hk.bytes_eq _ (hlent _ hmem)]
    simp only [outline, Outline.mk.injEq, true_and]
    exact ⟨hwaiting, hflight, hwrites⟩

/-- The pool may change under a framer, as long as it keeps what the framer's handles show. -/
theorem Sound.withPool (h : f.Sound owed rest)
    (hq : q.Sound (f.handles + lent (owed ++ f.ordered) + rest₁))
    (hk : f.pool.Keeps q (f.handles + lent (owed ++ f.ordered))) :
    Sound { f with pool := q } owed rest₁ ∧ outline { f with pool := q } = f.outline := by
  have hreceiver : f.pool.Keeps q (f.receiver.handles + 0) := hk.mono fun b hb => by
    rw [add_zero] at hb
    simp only [handles, Multiset.mem_add]
    exact Or.inl (Or.inl (Or.inr hb))
  have hreporter : f.pool.Keeps q (f.reporter.handles + 0) := hk.mono fun b hb => by
    rw [add_zero] at hb
    simp only [handles, Multiset.mem_add]
    exact Or.inl (Or.inr hb)
  have houtbound : f.pool.Keeps q (f.outbound + lent (owed ++ f.ordered)) := hk.mono fun b hb => by
    simp only [handles, Multiset.mem_add] at hb ⊢
    rcases hb with hb | hb
    · exact Or.inl (Or.inl (Or.inl hb))
    · exact Or.inr hb
  obtain ⟨hsound, houtline⟩ := h.inbound rfl (h.receiver.keeps hreceiver)
    (h.reporter.keeps hreporter) hq houtbound
  rw [Receiver.reading_keeps hreceiver, Reporter.board_keeps hreporter] at houtline
  exact ⟨hsound, houtline⟩

/-- A step of the reporter is a step of the framer. -/
theorem Sound.posts (h : f.Sound owed rest) {board : Board}
    (hposts : Reporter.Posts f.pool
      (f.outbound + f.receiver.handles + lent (owed ++ f.ordered) + rest₁) board reporter q) :
    f.Goes owed rest₁ { f.outline with board } { f with pool := q, reporter } := by
  have hreceiver : f.pool.Keeps q (f.receiver.handles + 0) := hposts.keeps.mono fun b hb => by
    rw [add_zero] at hb
    simp only [Multiset.mem_add]
    exact Or.inl (Or.inl (Or.inr hb))
  have houtbound : f.pool.Keeps q (f.outbound + lent (owed ++ f.ordered)) :=
    hposts.keeps.mono fun b hb => by
      simp only [Multiset.mem_add] at hb ⊢
      rcases hb with hb | hb
      · exact Or.inl (Or.inl (Or.inl hb))
      · exact Or.inl (Or.inr hb)
  have hq : q.Sound (f.outbound + f.receiver.handles + reporter.handles +
      lent (owed ++ f.ordered) + rest₁) := hposts.sound.cast (by abel)
  obtain ⟨hsound, houtline⟩ :=
    h.inbound rfl (h.receiver.keeps hreceiver) hposts.valid hq houtbound
  rw [Receiver.reading_keeps hreceiver, hposts.board_eq] at houtline
  exact ⟨hsound, hposts.keeps.mono fun b hb => Multiset.mem_add.2 (Or.inr hb), houtline⟩

/-- A step of the receiver is a step of the framer. -/
theorem Sound.receives (h : f.Sound owed rest) (hlimits : receiver.limits = f.receiver.limits)
    (hreceiver : receiver.Valid q)
    (hq : q.Sound (receiver.handles +
      (f.outbound + f.reporter.handles + (lent (owed ++ f.ordered) + rest₁))))
    (hk : f.pool.Keeps q (f.outbound + f.reporter.handles + (lent (owed ++ f.ordered) + rest₁))) :
    f.Goes owed rest₁ { f.outline with reading := receiver.reading q }
      { f with pool := q, receiver } := by
  have hreporter : f.pool.Keeps q (f.reporter.handles + 0) := hk.mono fun b hb => by
    rw [add_zero] at hb
    simp only [Multiset.mem_add]
    exact Or.inl (Or.inr hb)
  have houtbound : f.pool.Keeps q (f.outbound + lent (owed ++ f.ordered)) := hk.mono fun b hb => by
    simp only [Multiset.mem_add] at hb ⊢
    rcases hb with hb | hb
    · exact Or.inl (Or.inl hb)
    · exact Or.inr (Or.inl hb)
  have hq' : q.Sound (f.outbound + receiver.handles + f.reporter.handles +
      lent (owed ++ f.ordered) + rest₁) := hq.cast (by abel)
  obtain ⟨hsound, houtline⟩ :=
    h.inbound hlimits hreceiver (h.reporter.keeps hreporter) hq' houtbound
  rw [Reporter.board_keeps hreporter] at houtline
  refine ⟨hsound, hk.mono fun b hb => ?_, houtline⟩
  exact Multiset.mem_add.2 (Or.inr (Multiset.mem_add.2 (Or.inr hb)))

/-! ## The first framer -/

theorem ofConfig_eq_ok {config : Config} {f : Framer queueDepth eventDepth}
    (h : ofConfig config pool = .ok f) : config.check pool = .ok () ∧ f =
      { config, pool, receiver := { maxPayload := config.maxPayload, maxLength := config.maxStream } } := by
  unfold ofConfig at h
  cases hcheck : config.check pool with
  | error fault =>
      rw [hcheck] at h
      cases h
  | ok checked =>
      rw [hcheck] at h
      cases h
      exact ⟨rfl, rfl⟩

theorem sound_ofConfig {config : Config} (hpool : pool.Sound 0) (hf : ofConfig config pool = .ok f) :
    f.Sound [] 0 := by
  obtain ⟨hcheck, hf⟩ := ofConfig_eq_ok hf
  have hqueue : f.queue.toList = [] := by
    rw [hf]
    exact BoundedQueue.toList_empty
  have hevents : f.reporter.events.toList = [] := by
    rw [hf]
    exact BoundedQueue.toList_empty
  have houtbound : f.outbound = f.transmission.handles := by
    rw [outbound, hqueue, List.map_nil, List.sum_nil, zero_add]
  have hposted : f.reporter.handles = 0 := by
    rw [Reporter.handles, hevents, List.map_nil, List.sum_nil]
  have hhandles : f.handles = 0 := by
    rw [handles, houtbound, hposted, hf]
    rfl
  have hordered : f.ordered = [] := by
    rw [hf]
    rfl
  exact {
    check := by
      rw [hf]
      exact hcheck
    limits := by
      rw [hf]
      rfl
    pool := by
      rw [hhandles, hordered, hf]
      exact hpool
    queue := by
      rw [hqueue]
      exact fun o ho => absurd ho List.not_mem_nil
    transmission := by
      rw [hordered, hf]
      rfl
    receiver := by
      rw [hf]
      exact Receiver.Valid.idle { maxPayload := config.maxPayload, maxLength := config.maxStream } pool
    reporter := by
      intro event hevent
      rw [hevents] at hevent
      cases hevent }

theorem outline_ofConfig {config : Config} (hf : ofConfig config pool = .ok f) :
    f.outline = .fresh config eventDepth := by
  obtain ⟨-, rfl⟩ := ofConfig_eq_ok hf
  simp only [outline, Reporter.board, BoundedQueue.toList_empty]
  rfl

end Framer

end DockLink
