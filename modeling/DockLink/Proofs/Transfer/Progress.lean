import DockLink.Proofs.Transfer.Script

/-!
# No packet is left behind

A packet waits only while the channel owes a block, and a closed framer has nothing that waits. Each
completion either goes on with the packet on the channel or turns to the queue; so a queued packet
has its turn after as many completions as there are blobs before it, however these turn out.
-/

namespace DockLink

/-- The number of completions until the channel is free of a packet, at most. -/
def Flight.load : Flight → Nat
  | .idle => 0
  | .sending _ left _ => left.length + 1
  | .cancelled => 1

theorem Flight.load_pos {flight : Flight} (h : flight ≠ .idle) : 0 < flight.load := by
  cases flight with
  | idle => exact absurd rfl h
  | sending p left expected => exact Nat.succ_pos _
  | cancelled => exact Nat.one_pos

namespace Outline

variable {o o' : Outline} {p : Parcel} {rest : List Parcel} {result : WriteResult}

/-! ## The gate -/

theorem enabled_start (o : Outline) (p : Parcel) : (o.start p).enabled = o.enabled := by
  unfold start
  split
  · rfl
  · rfl

theorem enabled_fill (misses : Nat) (o : Outline) : (o.fill misses).enabled = o.enabled := by
  induction misses generalizing o with
  | zero =>
      simp only [fill]
      split
      · exact enabled_start _ _
      · rfl
  | succ misses ih =>
      simp only [fill]
      split
      · exact ih _
      · rfl

theorem enabled_land (o : Outline) (result : WriteResult) :
    (o.land result).enabled = o.enabled := by
  unfold land
  split
  · split
    · split
      · rfl
      · rfl
    · rfl
  · rfl

theorem enabled_complete (misses : Nat) (o : Outline) (result : WriteResult) :
    (o.complete misses result).enabled = o.enabled := by
  rw [complete_eq_fill, enabled_fill, enabled_land]

theorem enabled_enable (o : Outline) : o.enable.enabled = true := by
  unfold enable
  split
  · assumption
  · rfl

theorem enabled_transactionEnd (o : Outline) : o.transactionEnd.enabled = o.enabled := by
  unfold transactionEnd
  split
  · rfl
  · split
    · rfl
    · rfl

/-- How queue, channel and gate stand to each other. -/
structure Orderly (o : Outline) : Prop where
  idle : o.flight = .idle → o.waiting = []
  closed : o.enabled = false → o.waiting = [] ∧ o.flight.tickets = []

theorem Orderly.busy (h : o.Orderly) (hp : p ∈ o.waiting) : o.flight ≠ .idle := fun hidle => by
  rw [h.idle hidle] at hp
  cases hp

theorem Orderly.fresh (config : Framer.Config) (eventDepth : Nat) :
    (fresh config eventDepth).Orderly :=
  ⟨fun _ => rfl, fun _ => ⟨rfl, rfl⟩⟩

theorem Orderly.spares (h : o.Orderly) (hspares : o.Spares o')
    (henabled : o'.enabled = false → o.enabled = false) : o'.Orderly where
  idle hidle := by
    rw [hspares.waiting_eq]
    exact h.idle (hspares.flight_eq ▸ hidle)
  closed hclosed := by
    rw [hspares.waiting_eq, hspares.flight_eq]
    exact h.closed (henabled hclosed)

theorem complete_of_closed (hwaiting : o.waiting = []) (hflight : o.flight.tickets = [])
    (misses : Nat) (result : WriteResult) :
    o.complete misses result = { o with flight := .idle } := by
  have hland : o.land result = { o with flight := .idle } := by
    cases hf : o.flight with
    | sending p left expected => simp [hf, Flight.tickets] at hflight
    | idle => simp only [land, hf]
    | cancelled => simp only [land, hf]
  rw [complete_eq_fill, hland]
  exact fill_of_empty (o := { o with flight := .idle }) hwaiting misses

theorem Orderly.complete (h : o.Orderly) (misses : Nat) (result : WriteResult) :
    (o.complete misses result).Orderly where
  idle := waiting_complete misses o result
  closed hclosed := by
    rw [enabled_complete] at hclosed
    obtain ⟨hwaiting, hflight⟩ := h.closed hclosed
    rw [complete_of_closed hwaiting hflight]
    exact ⟨hwaiting, rfl⟩

theorem Orderly.accept (henabled : o.enabled) (stream : Bytes) (misses : Nat) :
    ((o.accept stream).fill misses).Orderly where
  idle := waiting_fill misses _
  closed hclosed := by
    rw [enabled_fill] at hclosed
    exact absurd (henabled.symm.trans hclosed) nofun

theorem flush_eq (o : Outline) : ∃ board, o.flush = { o with waiting := [], board } := by
  suffices h : ∀ (ps : List Parcel) (o : Outline),
      ∃ board, ps.foldl (fun o p => o.giveUp p .disconnected) o = { o with board } from h _ _
  intro ps
  induction ps with
  | nil => exact fun o => ⟨o.board, rfl⟩
  | cons p rest ih => exact fun o => ih (o.giveUp p .disconnected)

theorem Orderly.disable (h : o.Orderly) : o.disable.Orderly := by
  unfold Outline.disable
  split
  · obtain ⟨reports, -, hflight⟩ :=
      ends_cancel { o with enabled := false, reading := .expect {} [] }
    obtain ⟨board, hflush⟩ :=
      flush_eq (Outline.cancel { o with enabled := false, reading := .expect {} [] })
    rw [hflush]
    exact ⟨fun _ => rfl, fun _ => ⟨rfl, hflight⟩⟩
  · exact h

/-! ## The load of the channel -/

/-- The number of completions until the queue is empty, at most. -/
def load (o : Outline) : Nat :=
  o.flight.load + (o.waiting.map fun p => (blobs o.config p).length).sum

theorem load_start (hidle : o.flight = .idle) (hwaiting : o.waiting = p :: rest) :
    ({ o with waiting := rest }.start p).load = o.load := by
  unfold start
  split
  · rename_i hcut
    exact absurd hcut (Blob.cut_ne_nil _ _)
  · rename_i blob left hcut
    have hblobs : (blobs o.config p).length = left.length + 1 := congrArg List.length hcut
    show left.length + 1 + (rest.map fun p => (blobs o.config p).length).sum = o.load
    rw [load, hidle, hwaiting, List.map_cons, List.sum_cons, hblobs, Flight.load, Nat.zero_add]

theorem load_fill (misses : Nat) (o : Outline) : (o.fill misses).load ≤ o.load := by
  by_cases hidle : o.flight = .idle
  · cases hwaiting : o.waiting with
    | nil => rw [fill_of_empty hwaiting]
    | cons p rest =>
        cases misses with
        | zero =>
            rw [fill_zero_cons hidle hwaiting]
            exact (load_start hidle hwaiting).le
        | succ misses =>
            rw [fill_succ_cons hidle hwaiting]
            refine (load_fill misses _).trans ?_
            show o.flight.load + (rest.map fun p => (blobs o.config p).length).sum ≤ o.load
            rw [load, hwaiting, List.map_cons, List.sum_cons]
            omega
  · rw [fill_of_busy hidle]

theorem waiting_land (o : Outline) (result : WriteResult) :
    (o.land result).waiting = o.waiting := by
  unfold land
  split
  · split
    · split
      · rfl
      · rfl
    · rfl
  · rfl

theorem load_flight_land (hbusy : o.flight ≠ .idle) (result : WriteResult) :
    (o.land result).flight.load < o.flight.load := by
  cases hflight : o.flight with
  | idle => exact absurd hflight hbusy
  | cancelled =>
      simp only [land, hflight]
      exact Nat.one_pos
  | sending p left expected =>
      simp only [land, hflight]
      split
      · cases left with
        | nil => exact Nat.one_pos
        | cons blob left => exact Nat.lt_succ_self _
      · exact Nat.succ_pos _

theorem load_land (hbusy : o.flight ≠ .idle) (result : WriteResult) :
    (o.land result).load < o.load := by
  obtain ⟨reports, hland, -⟩ := ends_land o result
  rw [load, waiting_land, hland.config_eq, load]
  exact Nat.add_lt_add_right (load_flight_land hbusy result) _

theorem load_complete (hbusy : o.flight ≠ .idle) (misses : Nat) (result : WriteResult) :
    (o.complete misses result).load < o.load := by
  rw [complete_eq_fill]
  exact (load_fill misses _).trans_lt (load_land hbusy result)

/-! ## The turn of a packet -/

/-- A packet had its turn: it is on the channel, or was given up for want of memory. -/
def Serves (o : Outline) (p : Parcel) (o' : Outline) : Prop :=
  (∃ left expected, o'.flight = .sending p left expected) ∨
    ∃ reports, o.board.Gains reports o'.board ∧ .sendFailed p.ticket .outOfMemory ∈ reports

theorem Serves.after {o₁ : Outline} {reports : List Report} (h : o₁.Serves p o')
    (hgains : o.board.Gains reports o₁.board) : o.Serves p o' := by
  rcases h with hsending | ⟨reports', hgains', hfailed⟩
  · exact Or.inl hsending
  · exact Or.inr ⟨reports ++ reports', hgains.trans hgains', List.mem_append_right _ hfailed⟩

theorem start_eq (o : Outline) (p : Parcel) : ∃ blob left, o.start p = o.put p blob left := by
  unfold start
  split
  · rename_i hcut
    exact absurd hcut (Blob.cut_ne_nil _ _)
  · exact ⟨_, _, rfl⟩

theorem serves_fill (misses : Nat) (o : Outline) (hidle : o.flight = .idle) (hp : p ∈ o.waiting) :
    o.Serves p (o.fill misses) ∨ p ∈ (o.fill misses).waiting := by
  cases hwaiting : o.waiting with
  | nil =>
      rw [hwaiting] at hp
      cases hp
  | cons q rest =>
      rw [hwaiting] at hp
      cases misses with
      | zero =>
          obtain ⟨blob, left, hstart⟩ := start_eq { o with waiting := rest } q
          rw [fill_zero_cons hidle hwaiting, hstart]
          rcases List.mem_cons.1 hp with rfl | hp
          · exact Or.inl (Or.inl ⟨left, blob.length, rfl⟩)
          · exact Or.inr hp
      | succ misses =>
          have hmiss := ends_miss (by rw [hidle]; rfl) hwaiting
          rw [fill_succ_cons hidle hwaiting]
          rcases List.mem_cons.1 hp with rfl | hp
          · obtain ⟨missed, hfill⟩ := ends_fill misses ({ o with waiting := rest }.miss p)
            exact Or.inl (Or.inr ⟨_, (hmiss.trans hfill).gains, List.mem_cons_self ..⟩)
          · rcases serves_fill misses ({ o with waiting := rest }.miss q) hidle hp with
              hserves | hlater
            · exact Or.inl (hserves.after hmiss.gains)
            · exact Or.inr hlater

theorem serves_complete (misses : Nat) (result : WriteResult) (hp : p ∈ o.waiting) :
    o.Serves p (o.complete misses result) ∨ p ∈ (o.complete misses result).waiting := by
  obtain ⟨reports, hland, -⟩ := ends_land o result
  rw [← waiting_land o result] at hp
  rw [complete_eq_fill]
  by_cases hidle : (o.land result).flight = .idle
  · rcases serves_fill misses _ hidle hp with hserves | hlater
    · exact Or.inl (hserves.after hland.gains)
    · exact Or.inr hlater
  · rw [fill_of_busy hidle]
    exact Or.inr hp

end Outline

namespace Course

variable {c c' : Course} {a : Action}

theorem Step.orderly (hstep : Step c a c') (h : c.outline.Orderly) : c'.outline.Orderly := by
  cases hstep with
  | enable =>
      exact h.spares (Outline.spares_enable _) fun hclosed =>
        absurd ((Outline.enabled_enable _).symm.trans hclosed) nofun
  | disable => exact h.disable
  | accept misses enabled ticket length_le =>
      obtain ⟨hidle, hclosed⟩ := Outline.Orderly.accept enabled _ misses
      exact ⟨hidle, hclosed⟩
  | receive enabled takes => exact h.spares ⟨rfl, rfl, rfl⟩ id
  | transactionEnd =>
      exact h.spares (Outline.spares_transactionEnd _) fun hclosed =>
        (Outline.enabled_transactionEnd _).symm.trans hclosed
  | pop next => exact h.spares ⟨rfl, rfl, rfl⟩ id
  | complete misses result busy =>
      obtain ⟨hidle, hclosed⟩ := h.complete misses result
      exact ⟨hidle, hclosed⟩
  | deaf => exact h
  | stay => exact h

theorem Run.orderly {actions : List Action} (hrun : Run c actions c') (h : c.outline.Orderly) :
    c'.outline.Orderly := by
  induction hrun with
  | done => exact h
  | step first run ih => exact ih (first.orderly h)

theorem Step.enabled_of_issued (hstep : Step c a c') (h : c.outline.Orderly)
    (hwrites : c.outline.writes = []) (hissued : c'.issued ≠ c.issued) :
    c.outline.enabled ∧ c'.outline.enabled := by
  cases hstep with
  | accept misses enabled ticket length_le =>
      exact ⟨enabled, (Outline.enabled_fill misses _).trans enabled⟩
  | complete misses result busy =>
      cases henabled : c.outline.enabled with
      | true => exact ⟨rfl, (Outline.enabled_complete misses _ _).trans henabled⟩
      | false =>
          obtain ⟨hwaiting, hflight⟩ := h.closed henabled
          rw [Outline.complete_of_closed hwaiting hflight] at hissued
          exact absurd (congrArg (c.issued ++ ·) hwrites |>.trans (List.append_nil _)) hissued
  | enable => exact absurd rfl hissued
  | disable => exact absurd rfl hissued
  | receive enabled takes => exact absurd rfl hissued
  | transactionEnd => exact absurd rfl hissued
  | pop next => exact absurd rfl hissued
  | deaf => exact absurd rfl hissued
  | stay => exact absurd rfl hissued

end Course

namespace Session

variable {queueDepth eventDepth : Nat} {s : Session queueDepth eventDepth}
  {f : Framer queueDepth eventDepth} {p : Parcel}

theorem Sound.length_outstanding (hs : s.Sound) :
    s.station.channel.outstanding.length = if s.framer.transmission = .idle then 0 else 1 := by
  have hvalid := hs.framer.transmission
  rw [hs.ordered_nil, List.append_nil] at hvalid
  cases ht : s.framer.transmission with
  | idle =>
      rw [ht] at hvalid
      rw [if_pos rfl, show s.station.channel.outstanding = [] from hvalid, List.length_nil]
  | sending o segments expected =>
      rw [ht] at hvalid
      obtain ⟨-, -, -, w, hwrites, -⟩ := hvalid
      rw [if_neg nofun, hwrites, List.length_singleton]
  | cancelled =>
      rw [ht] at hvalid
      obtain ⟨w, hwrites⟩ := hvalid
      rw [if_neg nofun, hwrites, List.length_singleton]

theorem Sound.outstanding_of_busy (hs : s.Sound) (hbusy : s.course.outline.flight ≠ .idle) :
    ∃ w owed, s.station.channel.outstanding = w :: owed := by
  have hlength := hs.length_outstanding
  have htransmission : s.framer.transmission ≠ .idle := fun hidle =>
    hbusy (Framer.Transmission.flight_eq_idle_iff.2 hidle)
  rw [if_neg htransmission] at hlength
  exact List.exists_cons_of_length_pos (hlength.symm ▸ Nat.one_pos)

/-- A queued packet has its turn, however the completions up to then turn out. -/
theorem Sound.serves (results : List WriteResult) {s : Session queueDepth eventDepth} (hs : s.Sound)
    (horderly : s.course.outline.Orderly) (hp : p ∈ s.course.outline.waiting)
    (hload : s.course.outline.load ≤ results.length) :
    ∃ first s', first <+: results ∧ s.run (first.map .complete) = .ok s' ∧
      s.course.outline.Serves p s'.course.outline := by
  have hbusy := horderly.busy hp
  -- Each completion lessens the load, so that the queue is empty before the results run out.
  induction results generalizing s with
  | nil =>
      have hpos := Flight.load_pos hbusy
      rw [Outline.load, List.length_nil] at hload
      omega
  | cons result rest ih =>
      obtain ⟨w, owed, hout⟩ := hs.outstanding_of_busy hbusy
      obtain ⟨s₁, misses, hstep, hs₁, -, hcourse⟩ := hs.completes hout result
      have houtline : s₁.course.outline =
          { s.course.outline.complete misses result with writes := [] } := by rw [hcourse]; rfl
      have hrun : ∀ actions, s.run (.complete result :: actions) = s₁.run actions := by
        intro actions
        rw [run, hstep]
        rfl
      obtain ⟨reports, hends, -⟩ := Outline.ends_complete misses s.course.outline result
      have hgains : s.course.outline.board.Gains reports s₁.course.outline.board := by
        rw [houtline]
        exact hends.gains
      rcases Outline.serves_complete misses result hp with hserves | hlater
      · refine ⟨[result], s₁, ⟨rest, rfl⟩, hrun [], ?_⟩
        rw [houtline]
        exact hserves
      · -- The packet still waits, with less before it.
        have horderly₁ : s₁.course.outline.Orderly :=
          (hcourse ▸ Course.Step.complete misses result hbusy :
            Course.Step s.course (.complete result) s₁.course).orderly horderly
        have hp₁ : p ∈ s₁.course.outline.waiting := by
          rw [houtline]
          exact hlater
        have hload₁ : s₁.course.outline.load < s.course.outline.load := by
          rw [houtline]
          exact Outline.load_complete hbusy misses result
        rw [List.length_cons] at hload
        obtain ⟨first, s', hfirst, hrun', hserves⟩ :=
          ih hs₁ horderly₁ hp₁ (by omega) (horderly₁.busy hp₁)
        refine ⟨result :: first, s', (List.prefix_cons_inj result).2 hfirst, ?_,
          hserves.after hgains⟩
        rw [List.map_cons, hrun]
        exact hrun'

/-- A queued packet had its turn: it is on the channel, or was reported as failed for want of
memory. -/
def Serves (s : Session queueDepth eventDepth) (o : Framer.Outgoing)
    (s' : Session queueDepth eventDepth) : Prop :=
  (∃ o' segments expected, s'.framer.transmission = .sending o' segments expected ∧
    o'.ticket = o.ticket ∧ o'.packet.content s'.framer.pool = o.packet.content s.framer.pool) ∨
  ∃ news, s'.framer.reporter.record.map LinkEvent.bare =
    news ++ s.framer.reporter.record.map LinkEvent.bare ∧ .sendFailed o.ticket .outOfMemory ∈ news

theorem serves_of_outline {s' : Session queueDepth eventDepth} {o : Framer.Outgoing}
    (h : s.course.outline.Serves (o.parcel s.framer.pool) s'.course.outline) : s.Serves o s' := by
  rcases h with ⟨left, expected, hflight⟩ | ⟨reports, hgains, hfailed⟩
  · refine Or.inl ?_
    have hflight' : s'.framer.transmission.flight s'.framer.pool =
        .sending (o.parcel s.framer.pool) left expected := hflight
    cases ht : s'.framer.transmission with
    | idle => rw [ht] at hflight'; cases hflight'
    | cancelled => rw [ht] at hflight'; cases hflight'
    | sending o' segments expected' =>
        rw [ht] at hflight'
        obtain ⟨hparcel, -, -⟩ := Flight.sending.inj hflight'
        obtain ⟨hticket, hstream⟩ := Parcel.mk.inj hparcel
        exact ⟨o', segments, expected', rfl, hticket, hstream⟩
  · obtain ⟨kept, -, hrecord, -⟩ := hgains
    exact Or.inr ⟨_, hrecord, List.mem_reverse.2 (List.mem_map_of_mem hfailed)⟩

/-- However the application and the channel act, the channel owes one block, or none if it is idle.
Packets wait only behind that block, a closed framer has none that waits or is on the channel, and
only an open one writes. So each queued packet is served after sufficiently many completions,
however they turn out. -/
theorem run_start_serves {config : Framer.Config} {classes : List (Nat × Nat)} {pool : Pool}
    (hpool : Pool.ofClasses classes = .ok pool) (hclasses : ∀ c ∈ classes, 1 ≤ c.1 ∧ c.2 ≤ 255)
    (hf : Framer.ofConfig config pool = .ok f) (actions : List Action) :
    ∃ s, (start f).run actions = .ok s ∧
      s.station.channel.outstanding.length = (if s.framer.transmission = .idle then 0 else 1) ∧
      (s.framer.transmission = .idle → s.framer.queue.toList = []) ∧
      (s.framer.enabled = false → s.framer.queue.toList = [] ∧
        ∀ o segments expected, s.framer.transmission ≠ .sending o segments expected) ∧
      (∀ a, ∃ s', s.step a = .ok s' ∧ (s'.station.issued ≠ s.station.issued →
        s.framer.enabled ∧ s'.framer.enabled)) ∧
      ∀ o ∈ s.framer.queue.toList, ∃ bound, ∀ results : List WriteResult, bound ≤ results.length →
        ∃ first s', first <+: results ∧ s.run (first.map .complete) = .ok s' ∧ s.Serves o s' := by
  obtain ⟨s, hrun, hs, hcourse⟩ :=
    (sound_start (Pool.sound_of_ofClasses hpool hclasses) hf).run_follows actions
  have horderly : s.course.outline.Orderly := by
    refine hcourse.orderly ?_
    rw [course_start hf]
    exact Outline.Orderly.fresh config eventDepth
  have hqueue : s.course.outline.waiting = [] → s.framer.queue.toList = [] := List.map_eq_nil_iff.1
  refine ⟨s, hrun, hs.length_outstanding, fun hidle => ?_, fun hclosed => ⟨?_, ?_⟩, fun a => ?_,
    fun o ho => ⟨s.course.outline.load, fun results hload => ?_⟩⟩
  · exact hqueue (horderly.idle (Framer.Transmission.flight_eq_idle_iff.2 hidle))
  · exact hqueue (horderly.closed hclosed).1
  · intro o segments expected hsending
    have htickets : (s.framer.transmission.flight s.framer.pool).tickets = [] :=
      (horderly.closed hclosed).2
    rw [hsending] at htickets
    cases htickets
  · obtain ⟨s', hstep, -, hstep'⟩ := hs.follows a
    refine ⟨s', hstep, fun hissued => hstep'.enabled_of_issued horderly hs.writes_nil fun h => ?_⟩
    exact hissued (List.reverse_injective h)
  · have hp : o.parcel s.framer.pool ∈ s.course.outline.waiting := List.mem_map_of_mem ho
    obtain ⟨first, s', hfirst, hrun', hserves⟩ := hs.serves results horderly hp hload
    exact ⟨first, s', hfirst, hrun', serves_of_outline hserves⟩

/-- A packet that is queued while the block of a cancelled one is still out. -/
def reopenedActions : List Action :=
  [.enable, .send {} .empty, .disable, .enable, .send {} .empty]

theorem reopenedActions_serves : ∃ s, (start smallFramer).run reopenedActions = .ok s ∧
    s.framer.transmission = .cancelled ∧ s.station.channel.outstanding.length = 1 ∧
    ∃ o, s.framer.queue.toList = [o] ∧ o.ticket = ⟨1⟩ ∧
      ∃ bound, ∀ results : List WriteResult, bound ≤ results.length →
        ∃ first s', first <+: results ∧ s.run (first.map .complete) = .ok s' ∧ s.Serves o s' := by
  have hpool : Pool.ofClasses [(16, 2)] = .ok ⟨#[.fresh 16 2]⟩ := rfl
  have hf : Framer.ofConfig { maxPayload := 4, maxPacket := 8 } ⟨#[.fresh 16 2]⟩ =
      .ok smallFramer := rfl
  obtain ⟨s, hrun, hlength, -, -, -, hserves⟩ :=
    run_start_serves hpool (by decide) hf reopenedActions
  have hvalue : ((start smallFramer).run reopenedActions).toOption.map (fun s => decide
      (s.framer.transmission = .cancelled ∧
        s.framer.queue.toList = [{ ticket := ⟨1⟩, packet := .empty }])) = some true := by
    decide +kernel
  rw [hrun] at hvalue
  obtain ⟨hcancelled, hqueue⟩ := of_decide_eq_true (Option.some.inj hvalue)
  rw [hcancelled] at hlength
  exact ⟨s, hrun, hcancelled, hlength, _, hqueue, rfl,
    hserves _ (hqueue ▸ List.mem_singleton_self _)⟩

end Session

end DockLink
