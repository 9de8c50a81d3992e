import DockLink.Proofs.Transfer.Writing

/-!
# What a session writes

Every packet that was accepted ends with an outcome, is on the channel, or waits, in this order. The
ledger holds this order against the writes of the session: they are the writes of the packets that
ended, and then those begun of the packet on the channel, blob after blob. Each step keeps the
ledger, adding the packets that end in it.
-/

namespace DockLink

variable {queueDepth eventDepth : Nat}

namespace Course

variable {c c' : Course} {a : Action} {config : Framer.Config} {o : Outline}
  {ended later : List Ending}

/-- What was accepted has its outcome or is not through yet, and what was written belongs to these
packets in this order. -/
structure Ledger (config : Framer.Config) (ended : List Ending) (c : Course) : Prop where
  config_eq : c.outline.config = config
  tracked : c.outline.flight.OnTrack config
  fair : ∀ e ∈ ended, e.Fair config
  parcels_eq : c.accepted.map (Acceptance.parcel config) =
    ended.map Ending.parcel ++ c.outline.parcels
  writes_eq : c.issued ++ c.outline.writes = ended.flatMap Ending.writes ++ c.outline.begun
  verdicts_eq : c.outline.board.verdicts = ended.map fun e => e.report.bare

theorem Ledger.works (h : c.Ledger config ended) (hworks : c.outline.Works later o) :
    Ledger config (ended ++ later) { c with outline := o } := by
  obtain rfl := h.config_eq
  obtain ⟨fresh, hwrites, hbegun⟩ := hworks.writes_eq
  obtain ⟨reports, hgains, hreports⟩ := hworks.gains
  exact {
    config_eq := hworks.config_eq
    tracked := hworks.tracked
    fair := List.forall_mem_append.2 ⟨h.fair, hworks.fair⟩
    parcels_eq := by
      rw [h.parcels_eq, hworks.parcels_eq, List.map_append, List.append_assoc]
    writes_eq := by
      show c.issued ++ o.writes = _ ++ o.begun
      rw [hwrites, ← List.append_assoc, h.writes_eq, List.append_assoc, hbegun,
        List.flatMap_append, List.append_assoc]
    verdicts_eq := by
      show o.board.verdicts = _
      rw [hgains.verdicts, h.verdicts_eq, hreports, List.map_append, List.map_map]
      rfl }

theorem Ledger.settle (h : c.Ledger config ended) : c.settle.Ledger config ended where
  config_eq := h.config_eq
  tracked := h.tracked
  fair := h.fair
  parcels_eq := h.parcels_eq
  writes_eq := (List.append_nil _).trans h.writes_eq
  verdicts_eq := h.verdicts_eq

theorem Ledger.accept (h : c.Ledger config ended) {a : Acceptance}
    (hticket : a.ticket = c.outline.nextTicket) :
    Ledger config ended { c with
      outline := c.outline.accept (a.parcel config).stream
      accepted := c.accepted ++ [a] } where
  config_eq := h.config_eq
  tracked := h.tracked
  fair := h.fair
  parcels_eq := by
    have hparcel : a.parcel config =
        { ticket := c.outline.nextTicket, stream := (a.parcel config).stream } := by
      rw [← hticket]
      rfl
    rw [List.map_append, h.parcels_eq, List.map_singleton, List.append_assoc]
    show _ ++ (c.outline.flight.parcels ++ c.outline.waiting ++ [_]) =
      _ ++ (c.outline.flight.parcels ++ (c.outline.waiting ++ [_]))
    rw [List.append_assoc, ← hparcel]
  writes_eq := h.writes_eq
  verdicts_eq := h.verdicts_eq

theorem Step.ledger (hstep : Step c a c') (h : c.Ledger config ended) :
    ∃ later, c'.Ledger config (ended ++ later) := by
  have tracked : c.outline.flight.OnTrack c.outline.config := h.config_eq ▸ h.tracked
  have hstay : c.Ledger config (ended ++ []) := (List.append_nil ended).symm ▸ h
  cases hstep with
  | enable =>
      exact ⟨_, h.works (Outline.works_of_spares tracked (Outline.spares_enable _)
        (Outline.ends_enable _) rfl)⟩
  | disable =>
      obtain ⟨later, hworks⟩ := Outline.works_disable tracked
      exact ⟨_, h.works hworks⟩
  | accept misses enabled ticket length_le =>
      -- The packet is on the ledger before the queue is served: it may have its turn at once.
      have haccept := h.accept ticket
      obtain ⟨missed, hworks⟩ := Outline.works_fill (o := c.outline.accept _) misses tracked
      obtain rfl := h.config_eq
      exact ⟨_, (haccept.works hworks).settle⟩
  | receive enabled takes =>
      obtain ⟨reports, hnone, hends⟩ := Outline.ends_absorb c.outline _ _
      exact ⟨_, h.works (Outline.works_of_spares tracked ⟨rfl, rfl, rfl⟩ hends hnone)⟩
  | transactionEnd =>
      obtain ⟨reports, hnone, hends⟩ := Outline.ends_transactionEnd c.outline
      exact ⟨_, h.works (Outline.works_of_spares tracked (Outline.spares_transactionEnd _) hends
        hnone)⟩
  | pop next =>
      exact ⟨[], hstay.config_eq, hstay.tracked, hstay.fair, hstay.parcels_eq, hstay.writes_eq,
        hstay.verdicts_eq⟩
  | complete misses result busy =>
      obtain ⟨later, hworks⟩ := Outline.works_complete tracked misses result
      exact ⟨_, (h.works hworks).settle⟩
  | deaf => exact ⟨[], hstay⟩
  | stay => exact ⟨[], hstay⟩

theorem Run.ledger {actions : List Action} (hrun : Run c actions c') (h : c.Ledger config ended) :
    ∃ later, c'.Ledger config (ended ++ later) := by
  induction hrun generalizing ended with
  | done => exact ⟨[], (List.append_nil ended).symm ▸ h⟩
  | step first run ih =>
      obtain ⟨later₁, h₁⟩ := first.ledger h
      obtain ⟨later₂, h₂⟩ := ih h₁
      exact ⟨later₁ ++ later₂, (List.append_assoc ..) ▸ h₂⟩

/-- What is issued belongs to the packet that is on the channel then. -/
theorem Step.sending_of_issued (hstep : Step c a c') (hwrites : c.outline.writes = []) :
    c'.issued = c.issued ∨ ∃ p left expected, c'.outline.flight = .sending p left expected := by
  have hnone : ∀ {o : Outline}, o.writes = c.outline.writes → c.issued ++ o.writes = c.issued := by
    intro o ho
    rw [ho, hwrites, List.append_nil]
  cases hstep with
  | accept misses => exact (Outline.writes_fill misses (c.outline.accept _)).imp_left hnone
  | complete misses result => exact (c.outline.writes_complete misses result).imp_left hnone
  | _ => exact .inl rfl

end Course

namespace Session

variable {s s' : Session queueDepth eventDepth} {f : Framer queueDepth eventDepth} {a : Action}
  {p : Parcel} {left : List Bytes} {expected : Nat} {config : Framer.Config} {ended : List Ending}

/-- While a packet is on the channel, the channel owes the write of one blob of it. -/
theorem Sound.carries (hs : s.Sound)
    (hflight : s.course.outline.flight = .sending p left expected) :
    ∃ w, s.station.channel.outstanding = [w] ∧ w.offset = 0 ∧ w.length = expected := by
  have hvalid := hs.framer.transmission
  rw [hs.ordered_nil, List.append_nil] at hvalid
  have hflight' : s.framer.transmission.flight s.framer.pool = .sending p left expected := hflight
  cases ht : s.framer.transmission with
  | idle =>
      rw [ht] at hflight'
      cases hflight'
  | cancelled =>
      rw [ht] at hflight'
      cases hflight'
  | sending o segments expected' =>
      rw [ht] at hflight' hvalid
      cases hflight'
      obtain ⟨-, -, -, w, hwrites, hcarries⟩ := hvalid
      exact ⟨w, hwrites, hcarries.offset_eq, hcarries.length_eq⟩

/-- The writes that the channel is told of in a step are recorded with what they hold. -/
def Tells (s s' : Session queueDepth eventDepth) : Prop :=
  ∃ writes, writes <:+ s'.station.channel.outstanding ∧
    s'.station.issued = (writes.map (Write.bytes s'.framer.pool)).reverse ++ s.station.issued

theorem tells_settle {st : Station (Framer queueDepth eventDepth)}
    (hstation : s'.station = st.settle) (h : st.issued = s.station.issued) : s.Tells s' := by
  have hpool : s'.framer.pool = st.endpoint.pool :=
    congrArg (fun station => station.endpoint.pool) hstation
  refine ⟨st.endpoint.ordered, ⟨st.channel.outstanding, ?_⟩, ?_⟩
  · rw [hstation]
    exact (Channel.outstanding_obeyAll _ _).symm
  · rw [hstation, hpool, ← h]
    exact congrArg (List.reverse · ++ st.issued)
      (Station.filterMap_bytesOf? st.endpoint.pool st.endpoint.orders.reverse)

theorem tells_of_issued (h : s'.station.issued = s.station.issued) : s.Tells s' :=
  ⟨[], List.nil_suffix, h⟩

theorem tells_step (hstep : s.step a = .ok s') : s.Tells s' := by
  cases a with
  | enable =>
      cases hstep
      exact tells_settle rfl rfl
  | disable =>
      cases hstep
      exact tells_settle rfl rfl
  | transactionEnd =>
      cases hstep
      exact tells_settle rfl rfl
  | receive data =>
      obtain ⟨station, hreceive, hstep⟩ := exists_of_map_eq_ok hstep
      obtain ⟨f, -, rfl⟩ := exists_of_map_eq_ok hreceive
      cases hstep
      exact tells_settle rfl rfl
  | send contentType packet =>
      simp only [step] at hstep
      split at hstep
      · obtain ⟨⟨answer, f⟩, -, hstep⟩ := exists_of_bind_eq_ok hstep
        cases answer with
        | ok ticket =>
            cases hstep
            exact tells_settle rfl rfl
        | error rejected =>
            cases hstep
            exact tells_settle rfl rfl
      · cases hstep
        exact tells_of_issued rfl
  | pop =>
      simp only [step] at hstep
      split at hstep
      · cases hstep
        exact tells_of_issued rfl
      · cases hstep
        exact tells_of_issued rfl
  | complete result =>
      cases hout : s.station.channel.outstanding with
      | nil =>
          simp only [step, Station.complete, Station.takeWrite?, hout, Option.map_none] at hstep
          cases hstep
          exact tells_of_issued rfl
      | cons w owed =>
          obtain ⟨f, fault, hcomplete⟩ : ∃ f fault,
              Endpoint.writeComplete s.station.endpoint w.block result = (f, fault) := ⟨_, _, rfl⟩
          simp only [step, Station.complete, Station.takeWrite?, hout, Option.map_some,
            Station.report, hcomplete] at hstep
          cases fault with
          | none =>
              cases hstep
              exact tells_settle rfl rfl
          | some fault => cases hstep
  | deed deed =>
      cases hstep
      exact tells_of_issued rfl

/-- A step issues a write at most, of a blob from the start of its block. It is then the only write
that the channel owes. -/
def Issues (s s' : Session queueDepth eventDepth) : Prop :=
  s'.station.issued = s.station.issued ∨
    ∃ w, s'.station.channel.outstanding = [w] ∧ w.offset = 0 ∧
      s'.station.issued = w.bytes s'.framer.pool :: s.station.issued

theorem Sound.issues (hs : s.Sound) (hstep : s.step a = .ok s') : s.Issues s' := by
  obtain ⟨s'', hstep', hs', hcourse⟩ := hs.follows a
  obtain rfl := Except.ok.inj (hstep.symm.trans hstep')
  obtain ⟨writes, hsuffix, hissued⟩ := tells_step hstep
  obtain hsame | ⟨p, left, expected, hflight⟩ := hcourse.sending_of_issued hs.writes_nil
  · exact .inl (List.reverse_injective hsame)
  · -- A single write is outstanding after the step, so no more than that was told in it.
    obtain ⟨w, hout, hoffset, -⟩ := hs'.carries hflight
    rw [hout, List.suffix_cons_iff, List.suffix_nil] at hsuffix
    obtain rfl | rfl := hsuffix
    · exact .inr ⟨w, hout, hoffset, hissued⟩
    · exact .inl hissued

/-- What comes of a packet when another blob of it went out in full: the next blob of those that are
left is on the channel, or the packet is sent, and of the queued packets those that find no memory
are given up. -/
def Proceeds (config : Framer.Config) (ended : List Ending) (p : Parcel)
    (s : Session queueDepth eventDepth) : List Bytes → Prop
  | blob :: left => s.course.Ledger config ended ∧
      s.course.outline.flight = .sending p left blob.length
  | [] => ∃ missed : List Parcel, s.course.Ledger config
      (ended ++ { parcel := p, error := none, writes := Outline.blobs config p } ::
        missed.map (Ending.unwritten .outOfMemory))

theorem Sound.proceeds (hs : s.Sound) (h : s.course.Ledger config ended)
    (hflight : s.course.outline.flight = .sending p left expected) :
    ∃ s', s.step (.complete (.written expected)) = .ok s' ∧ s'.Proceeds config ended p left := by
  have tracked : s.course.outline.flight.OnTrack s.course.outline.config :=
    h.config_eq ▸ h.tracked
  obtain ⟨w, hout, -⟩ := hs.carries hflight
  obtain ⟨s', misses, hstep, -, -, hcourse⟩ := hs.completes hout (.written expected)
  rw [Outline.complete_eq_fill] at hcourse
  refine ⟨s', hstep, ?_⟩
  cases left with
  | cons blob left =>
      have hland := Outline.works_land_next tracked hflight
      have hnext : (s.course.outline.land (.written expected)).flight =
          .sending p left blob.length := by
        simp only [Outline.land, hflight, if_true]
        rfl
      rw [Outline.fill_of_busy (fun hidle => by cases hnext.symm.trans hidle)] at hcourse
      rw [Proceeds, hcourse]
      exact ⟨(List.append_nil ended ▸ h.works hland).settle, hnext⟩
  | nil =>
      have hbegun : s.course.outline.begun = Outline.blobs config p := by
        rw [Outline.begun, hflight, h.config_eq]
        exact List.take_length
      have hland := Outline.works_land_last hflight
      rw [hbegun] at hland
      obtain ⟨missed, hfill⟩ := Outline.works_fill misses (hland.config_eq ▸ hland.tracked)
      rw [Proceeds, hcourse]
      exact ⟨missed, (h.works (hland.trans hfill)).settle⟩

theorem ledger_start {pool : Pool} (hf : Framer.ofConfig config pool = .ok f) :
    (start f).course.Ledger config [] := by
  rw [course_start hf]
  exact ⟨rfl, trivial, List.forall_mem_nil _, rfl, rfl, rfl⟩

/-- However a session goes, the writes belong to the packets that were accepted, in the same order
and blob after blob: a packet that was sent wrote all of its blobs, and one that failed the first
few at most. A packet goes on with each write that goes out in full. The blobs are those of the
stream, each written from the start of its block. -/
theorem run_start_writes {config : Framer.Config} {classes : List (Nat × Nat)} {pool : Pool}
    (hpool : Pool.ofClasses classes = .ok pool) (hclasses : ∀ c ∈ classes, 1 ≤ c.1 ∧ c.2 ≤ 255)
    (hf : Framer.ofConfig config pool = .ok f) (actions : List Action) :
    (∀ p : Parcel, Outline.blobs config p = (List.range (Blob.count config.maxPayload p.stream)).map
      (Blob.nth config.maxPayload p.stream)) ∧
    ∃ s ended, (start f).run actions = .ok s ∧ s.course.outline.writes = [] ∧
      s.course.Ledger config ended ∧
      (∀ a s', s.step a = .ok s' → s.Issues s') ∧
      ∀ p left expected, s.course.outline.flight = .sending p left expected →
        (∃ w, s.station.channel.outstanding = [w] ∧ w.length = expected) ∧
        ∃ s', s.step (.complete (.written expected)) = .ok s' ∧
          s'.Proceeds config ended p left := by
  have hstart := sound_start (Pool.sound_of_ofClasses hpool hclasses) hf
  obtain ⟨s, hrun, hs, hcourse⟩ := hstart.run_follows actions
  obtain ⟨ended, hledger⟩ := hcourse.ledger (ledger_start hf)
  have hpos := (Framer.Config.of_check (Framer.ofConfig_eq_ok hf).1).1.1
  refine ⟨fun p => ?_, s, [] ++ ended, hrun, hs.writes_nil, hledger, fun a s' => hs.issues,
    fun p left expected hflight => ⟨?_, hs.proceeds hledger hflight⟩⟩
  · exact Blob.cut_eq_map hpos p.stream
  · obtain ⟨w, hout, -, hlength⟩ := hs.carries hflight
    exact ⟨w, hout, hlength⟩

/-- A packet of six bytes in two chunks, which blobs of four bytes cut elsewhere. -/
def slicedActions : List Action :=
  [.enable, .deed (.allocate 6), .deed (.write ⟨0, 0⟩ 0 [1, 2, 3, 4, 5, 6]),
    .deed (.retain ⟨0, 0⟩),
    .send {} { chunks := [⟨⟨0, 0⟩, 0, 1⟩, ⟨⟨0, 0⟩, 1, 6⟩], length := 6 },
    .complete (.written 10), .complete (.written 8)]

theorem slicedActions_written : ∃ s ended, (start smallFramer).run slicedActions = .ok s ∧
    s.course.Ledger smallFramer.config ended ∧
    ended.map (fun e => e.report.bare) = [.sent ⟨0⟩] ∧
    s.station.issued.reverse =
      [[4, 0x80, 1, 2, 3, 4, 0x98, 0x65, 0x7D, 0xE5], [2, 0, 5, 6, 0x65, 0x58, 0xA5, 0xF6]] := by
  have hpool : Pool.ofClasses [(16, 2)] = .ok ⟨#[.fresh 16 2]⟩ := rfl
  have hf : Framer.ofConfig smallFramer.config ⟨#[.fresh 16 2]⟩ = .ok smallFramer := rfl
  obtain ⟨-, s, ended, hrun, -, hledger, -⟩ :=
    run_start_writes hpool (by decide) hf slicedActions
  have hvalue : ((start smallFramer).run slicedActions).toOption.map (fun s => decide
      (s.course.outline.board.verdicts = [.sent ⟨0⟩] ∧ s.station.issued.reverse =
        [[4, 0x80, 1, 2, 3, 4, 0x98, 0x65, 0x7D, 0xE5], [2, 0, 5, 6, 0x65, 0x58, 0xA5, 0xF6]])) =
      some true := by
    decide +kernel
  rw [hrun] at hvalue
  obtain ⟨hverdicts, hissued⟩ := of_decide_eq_true (Option.some.inj hvalue)
  exact ⟨s, ended, hrun, hledger, hledger.verdicts_eq.symm.trans hverdicts, hissued⟩

end Session

end DockLink
