import DockLink.Proofs.Transfer.Outcomes

/-!
# What a sender writes

As long as there is memory, no packet is cut off and the framer stays open, the blobs that were
written, those that are left of the packet on the channel and those of the queued packets are the
blobs of all packets that were accepted, in order.
-/

namespace DockLink

/-- The error that an event tells of. -/
def LinkEvent.error? : LinkEvent → Option LinkError
  | .sendFailed _ error => some error
  | .receiveFailed error _ => some error
  | _ => none

@[simp]
theorem LinkEvent.error?_bare (event : LinkEvent) : event.bare.error? = event.error? := by
  cases event with
  | received contentType packet => rfl
  | sent ticket => rfl
  | sendFailed ticket error => rfl
  | receiveFailed error consecutive => rfl

namespace Board

variable {b b' : Board} {reports : List Report}

/-- Nothing was lost for want of memory. -/
def InMemory (b : Board) : Prop := ∀ event ∈ b.record, event.error? ≠ some .outOfMemory

/-- What was not sent found no memory. -/
def Undisturbed (b : Board) : Prop :=
  ∀ event ∈ b.record, ∀ ticket error, event = .sendFailed ticket error → error = .outOfMemory

theorem Gains.mem_record (h : b.Gains reports b') {event : LinkEvent} :
    event ∈ b'.record ↔ (∃ r ∈ reports, r.bare = event) ∨ event ∈ b.record := by
  obtain ⟨kept, -, hrecord, -⟩ := h
  rw [hrecord, List.mem_append, List.mem_reverse, List.mem_map]

theorem Gains.inMemory_iff (h : b.Gains reports b') :
    b'.InMemory ↔ b.InMemory ∧ ∀ r ∈ reports, r.bare.error? ≠ some .outOfMemory := by
  constructor
  · intro hmem
    exact ⟨fun event hevent => hmem event (h.mem_record.2 (Or.inr hevent)),
      fun r hr => hmem r.bare (h.mem_record.2 (Or.inl ⟨r, hr, rfl⟩))⟩
  · rintro ⟨hold, hnew⟩ event hevent
    rcases h.mem_record.1 hevent with ⟨r, hr, rfl⟩ | hbefore
    · exact hnew r hr
    · exact hold event hbefore

theorem InMemory.before (h : b'.InMemory) (hgains : b.Gains reports b') : b.InMemory :=
  (hgains.inMemory_iff.1 h).1

theorem InMemory.gained (h : b'.InMemory) (hgains : b.Gains reports b') {r : Report}
    (hr : r ∈ reports) : r.bare.error? ≠ some .outOfMemory :=
  (hgains.inMemory_iff.1 h).2 r hr

theorem Undisturbed.gains (h : b.Undisturbed) (hgains : b.Gains reports b')
    (hreports : ∀ ticket error, .sendFailed ticket error ∈ reports → error = .outOfMemory) :
    b'.Undisturbed := by
  intro event hevent ticket error heq
  rcases hgains.mem_record.1 hevent with ⟨r, hr, hbare⟩ | hold
  · cases r with
    | sendFailed ticket' error' =>
        rw [heq] at hbare
        cases hbare
        exact hreports ticket error hr
    | sent ticket' => rw [heq] at hbare; cases hbare
    | received contentType content => rw [heq] at hbare; cases hbare
    | receiveFailed error' consecutive => rw [heq] at hbare; cases hbare
  · exact h event hold ticket error heq

/-- Reports that are no outcomes do not tell of packets that were not sent. -/
theorem no_failure_of_filterMap_ticket? (h : reports.filterMap Report.ticket? = []) (ticket : Ticket)
    (error : LinkError) (hmem : .sendFailed ticket error ∈ reports) : error = .outOfMemory := by
  have hnone := List.filterMap_eq_nil_iff.1 h _ hmem
  cases hnone

end Board

/-- The blobs that are to follow the one on the channel. -/
def Flight.left : Flight → List Bytes
  | .sending _ left _ => left
  | _ => []

namespace Outline

variable {o : Outline} {p : Parcel} {rest : List Parcel} {result : WriteResult}

def blobs (config : Framer.Config) (p : Parcel) : List Bytes := Blob.cut config.maxPayload p.stream

/-- The blobs that the channel is still to be told of. -/
def script (o : Outline) : List Bytes :=
  o.writes ++ (o.flight.left ++ o.waiting.flatMap (blobs o.config))

theorem script_start (hidle : o.flight = .idle) (hwaiting : o.waiting = p :: rest) :
    ({ o with waiting := rest }.start p).script = o.script := by
  have hleft : o.flight.left = [] := by
    rw [hidle]
    rfl
  unfold start
  split
  · rename_i hcut
    exact absurd hcut (Blob.cut_ne_nil _ _)
  · rename_i blob left hcut
    have hblobs : blobs o.config p = blob :: left := hcut
    show (o.writes ++ [blob]) ++ (left ++ rest.flatMap (blobs o.config)) = o.script
    rw [script, hleft, hwaiting, List.flatMap_cons, hblobs]
    simp only [List.append_assoc, List.cons_append, List.nil_append]

/-- A packet that finds no memory for its blobs is on record. -/
theorem not_inMemory_fill (hidle : o.flight = .idle) (hwaiting : o.waiting = p :: rest) (misses : Nat) :
    ¬(o.fill (misses + 1)).board.InMemory := by
  rw [fill_succ_cons hidle hwaiting]
  have hmiss := ends_miss (by rw [hidle]; rfl) hwaiting
  obtain ⟨missed, hfill⟩ := ends_fill misses ({ o with waiting := rest }.miss p)
  exact fun hmem => hmem.gained (hmiss.trans hfill).gains (List.mem_cons_self ..) rfl

/-- With memory enough, starting packets is going on with the script. -/
theorem script_fill (misses : Nat) (hmem : (o.fill misses).board.InMemory) :
    (o.fill misses).script = o.script := by
  by_cases hidle : o.flight = .idle
  · cases hwaiting : o.waiting with
    | nil => rw [fill_of_empty hwaiting]
    | cons p rest =>
        cases misses with
        | zero =>
            rw [fill_zero_cons hidle hwaiting]
            exact script_start hidle hwaiting
        | succ misses => exact absurd hmem (not_inMemory_fill hidle hwaiting misses)
  · rw [fill_of_busy hidle]

theorem flight_start (o : Outline) (p : Parcel) : (o.start p).flight ≠ .idle := by
  unfold start
  split
  · rename_i hcut
    exact absurd hcut (Blob.cut_ne_nil _ _)
  · nofun

/-- The channel is left free only if there is nothing to send. -/
theorem waiting_fill (misses : Nat) (o : Outline) (hfree : (o.fill misses).flight = .idle) :
    (o.fill misses).waiting = [] := by
  by_cases hidle : o.flight = .idle
  · cases hwaiting : o.waiting with
    | nil => rw [fill_of_empty hwaiting, hwaiting]
    | cons p rest =>
        cases misses with
        | zero =>
            rw [fill_zero_cons hidle hwaiting] at hfree
            exact absurd hfree (flight_start _ _)
        | succ misses =>
            rw [fill_succ_cons hidle hwaiting] at hfree ⊢
            exact waiting_fill misses _ hfree
  · rw [fill_of_busy hidle] at hfree
    exact absurd hfree hidle

theorem script_accept (o : Outline) (stream : Bytes) :
    (o.accept stream).script = o.script ++ Blob.cut o.config.maxPayload stream := by
  show o.writes ++ (o.flight.left ++ (o.waiting ++ [_]).flatMap (blobs o.config)) = _
  rw [List.flatMap_append, List.flatMap_singleton, script]
  simp only [List.append_assoc, blobs]

theorem script_land (hwrote : o.Wrote result) : (o.land result).script = o.script := by
  cases hflight : o.flight with
  | idle =>
      simp only [land, hflight]
      rw [script, script, hflight]
  | cancelled =>
      simp only [land, hflight]
      rw [script, script, hflight]
      rfl
  | sending p left expected =>
      simp only [land, hflight, if_pos (hwrote p left expected hflight)]
      cases left with
      | cons blob left =>
          show (o.writes ++ [blob]) ++ (left ++ o.waiting.flatMap (blobs o.config)) = o.script
          rw [script, hflight]
          simp only [Flight.left, List.append_assoc, List.cons_append, List.nil_append]
      | nil =>
          show o.writes ++ ([] ++ o.waiting.flatMap (blobs o.config)) = o.script
          rw [script, hflight]
          rfl

/-- A blob that is through is followed by the next one of the script. -/
theorem script_complete (misses : Nat) (hwrote : o.Wrote result)
    (hmem : (o.complete misses result).board.InMemory) :
    (o.complete misses result).script = o.script := by
  rw [complete_eq_fill] at hmem ⊢
  exact (script_fill misses hmem).trans (script_land hwrote)

theorem waiting_complete (misses : Nat) (o : Outline) (result : WriteResult)
    (hfree : (o.complete misses result).flight = .idle) :
    (o.complete misses result).waiting = [] := by
  rw [complete_eq_fill] at hfree ⊢
  exact waiting_fill misses _ hfree

/-! ## Steps that do not send -/

/-- A step that leaves alone what is sent. -/
structure Spares (o o' : Outline) : Prop where
  waiting_eq : o'.waiting = o.waiting
  flight_eq : o'.flight = o.flight
  writes_eq : o'.writes = o.writes

theorem spares_enable (o : Outline) : o.Spares o.enable := by
  unfold enable
  split
  · exact ⟨rfl, rfl, rfl⟩
  · exact ⟨rfl, rfl, rfl⟩

theorem spares_transactionEnd (o : Outline) : o.Spares o.transactionEnd := by
  unfold transactionEnd
  split
  · exact ⟨rfl, rfl, rfl⟩
  · split
    · exact ⟨rfl, rfl, rfl⟩
    · exact ⟨rfl, rfl, rfl⟩

end Outline

/-- The blobs of a packet that was accepted. -/
def Acceptance.blobs (config : Framer.Config) (a : Acceptance) : List Bytes :=
  Outline.blobs config (a.parcel config)

namespace Course

variable {c c' : Course} {a : Action} {config : Framer.Config} {o : Outline} {reports : List Report}

/-- The actions with which a sender goes on undisturbed: all but closing, and of the completions
those in full. -/
def GoesOn (c : Course) : Action → Prop
  | .disable => False
  | .complete result => c.outline.Wrote result
  | _ => True

/-- What holds of a sender that goes on undisturbed. -/
structure Sending (config : Framer.Config) (c : Course) : Prop where
  config_eq : c.outline.config = config
  length_le : ∀ a ∈ c.accepted, a.content.length ≤ config.maxPacket
  script_eq : c.outline.board.InMemory →
    c.issued ++ c.outline.script = c.accepted.flatMap (Acceptance.blobs config)
  busy : c.outline.flight = .idle → c.outline.waiting = []
  undisturbed : c.outline.board.Undisturbed

theorem Sending.settle (h : c.Sending config) : c.settle.Sending config where
  config_eq := h.config_eq
  length_le := h.length_le
  script_eq hmem := by
    refine Eq.trans ?_ (h.script_eq hmem)
    show c.issued ++ c.outline.writes ++ ([] ++ _) = c.issued ++ (c.outline.writes ++ _)
    rw [List.nil_append, List.append_assoc]
    rfl
  busy := h.busy
  undisturbed := h.undisturbed

/-- A step of the outline that keeps to the script. -/
theorem Sending.ends (h : c.Sending config) (hends : c.outline.Ends reports o)
    (hscript : o.board.InMemory → o.script = c.outline.script)
    (hbusy : o.flight = .idle → o.waiting = [])
    (hreports : ∀ ticket error, .sendFailed ticket error ∈ reports → error = .outOfMemory) :
    Sending config { c with outline := o } where
  config_eq := hends.config_eq.trans h.config_eq
  length_le := h.length_le
  script_eq hmem := by
    have hmem' : o.board.InMemory := hmem
    show c.issued ++ o.script = _
    rw [hscript hmem', h.script_eq (hmem'.before hends.gains)]
  busy := hbusy
  undisturbed := h.undisturbed.gains hends.gains hreports

theorem Sending.spares (h : c.Sending config) (hends : c.outline.Ends reports o)
    (hnone : reports.filterMap Report.ticket? = []) (hspares : c.outline.Spares o) :
    Sending config { c with outline := o } := by
  refine h.ends hends (fun _ => ?_) (fun hidle => ?_) (Board.no_failure_of_filterMap_ticket? hnone)
  · rw [Outline.script, Outline.script, hspares.writes_eq, hspares.flight_eq, hspares.waiting_eq,
      hends.config_eq]
  · rw [hspares.waiting_eq]
    exact h.busy (hspares.flight_eq ▸ hidle)

theorem Sending.accept (h : c.Sending config) {a : Acceptance}
    (hlength : a.content.length ≤ c.outline.config.maxPacket) (misses : Nat) :
    Sending config { c with
      outline := (c.outline.accept (a.parcel c.outline.config).stream).fill misses
      accepted := c.accepted ++ [a] } := by
  obtain ⟨missed, hends⟩ := Outline.ends_fill misses
    (c.outline.accept (a.parcel c.outline.config).stream)
  refine ⟨hends.config_eq.trans h.config_eq, ?_, ?_, Outline.waiting_fill misses _,
    h.undisturbed.gains hends.gains fun _ _ => Report.eq_of_mem_failed⟩
  · intro b hb
    rcases List.mem_append.1 hb with hb | hb
    · exact h.length_le b hb
    · obtain rfl := List.mem_singleton.1 hb
      exact h.config_eq ▸ hlength
  · intro hmem
    have hold := h.script_eq (Board.InMemory.before hmem hends.gains)
    show c.issued ++ (Outline.fill misses _).script = (c.accepted ++ [a]).flatMap _
    rw [Outline.script_fill misses hmem, Outline.script_accept, ← List.append_assoc, hold,
      List.flatMap_append, List.flatMap_singleton, h.config_eq]
    rfl

/-- A sender that goes on undisturbed keeps to its script. -/
theorem Step.sending (hstep : Step c a c') (hgoes : c.GoesOn a) (h : c.Sending config) :
    c'.Sending config := by
  cases hstep with
  | enable => exact h.spares (Outline.ends_enable _) rfl (Outline.spares_enable _)
  | disable => exact hgoes.elim
  | accept misses enabled ticket length_le => exact (h.accept length_le misses).settle
  | receive enabled takes =>
      obtain ⟨reports, hnone, hends⟩ := Outline.ends_absorb c.outline _ _
      exact h.spares hends hnone ⟨rfl, rfl, rfl⟩
  | transactionEnd =>
      obtain ⟨reports, hnone, hends⟩ := Outline.ends_transactionEnd c.outline
      exact h.spares hends hnone (Outline.spares_transactionEnd _)
  | pop next => exact ⟨h.config_eq, h.length_le, h.script_eq, h.busy, h.undisturbed⟩
  | complete misses result busy =>
      obtain ⟨reports, hends, -, hreports⟩ := Outline.ends_complete misses c.outline result
      exact (h.ends hends (Outline.script_complete misses hgoes)
        (Outline.waiting_complete misses c.outline result) (hreports hgoes)).settle
  | deaf => exact h
  | stay => exact h

end Course

end DockLink
