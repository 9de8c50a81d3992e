import DockLink.Proofs.Transfer.Script
import DockLink.Proofs.Transfer.Unpacking

/-!
# What a receiver reports

A receiver that hears packets with their content types, and finds memory for them, reports each as it
was sent. What it sends meanwhile does not matter.
-/

namespace DockLink

open Decoder

namespace Decoder.Seen

/-- What is reported of a packet that was read. -/
def report? (config : Framer.Config) : Seen → Option Report
  | .packet content => (Board.unpack config content).map fun tagged => .received tagged.1 tagged.2
  | _ => none

/-- No fault, and no packet without its content type. -/
def Clean (config : Framer.Config) : Seen → Prop
  | .blob => True
  | .packet content => ∃ tagged, Board.unpack config content = some tagged
  | .fault _ => False

theorem isReception_of_report? {config : Framer.Config} {x : Seen} {r : Report}
    (h : x.report? config = some r) : r.isReception := by
  cases x with
  | blob => cases h
  | fault error => cases h
  | packet content =>
      obtain ⟨tagged, -, rfl⟩ := Option.map_eq_some_iff.1 h
      rfl

end Decoder.Seen

/-- What a receiver may do of its own accord, besides closing. -/
def Action.isOwn : Action → Bool
  | .disable | .receive _ | .transactionEnd => false
  | _ => true

namespace Board

variable {config : Framer.Config}

theorem unpack_tagBytes (contentType : ContentType) (content : Bytes) :
    unpack config (config.tagBytes contentType ++ content) =
      some (if config.tagged then contentType else {}, content) := by
  cases htag : config.tagged with
  | true =>
      have hbytes : config.tagBytes contentType ++ content =
          contentType.code.toUInt8 :: (contentType.code >>> 8).toUInt8 :: content := by
        rw [Framer.Config.tagBytes, if_pos htag]
        rfl
      rw [hbytes, unpack, if_pos htag, readTag, Bytes.word16_ofWord16]
      rfl
  | false => simp [unpack, Framer.Config.tagBytes, htag]

theorem gains_absorb_clean {x : Seen} (hx : x.Clean config) (b : Board) :
    b.Gains (x.report? config).toList (b.absorb config x) := by
  cases x with
  | blob => exact gains_nil rfl rfl
  | fault error => exact hx.elim
  | packet content =>
      obtain ⟨tagged, hunpack⟩ := hx
      simp only [Seen.report?, absorb, hunpack]
      exact (gains_nil rfl rfl).trans (gains_emit _ _)

theorem gains_absorbAll_clean {seen : List Seen} (hseen : ∀ x ∈ seen, x.Clean config) (b : Board) :
    b.Gains (seen.filterMap (Seen.report? config)) (seen.foldl (Board.absorb config) b) := by
  induction seen generalizing b with
  | nil => exact gains_nil rfl rfl
  | cons x rest ih =>
      rw [List.forall_mem_cons] at hseen
      have hboth := (gains_absorb_clean hseen.1 b).trans (ih hseen.2 (b.absorb config x))
      cases hx : x.report? config with
      | none =>
          rw [hx] at hboth
          rw [List.filterMap_cons_none hx]
          exact hboth
      | some report =>
          rw [hx] at hboth
          rw [List.filterMap_cons_some hx]
          exact hboth

/-- Want of memory is reported, and nothing else is reported so. -/
theorem inMemory_absorb (b : Board) (x : Seen) :
    (b.absorb config x).InMemory ↔ b.InMemory ∧ x ≠ .fault .outOfMemory := by
  cases x with
  | blob => exact (and_iff_left (by simp)).symm
  | fault error =>
      obtain ⟨consecutive, hgains⟩ := b.gains_receiveFailed error
      rw [absorb, hgains.inMemory_iff, List.forall_mem_singleton]
      refine and_congr Iff.rfl ?_
      simp [Report.bare, LinkEvent.error?]
  | packet content =>
      simp only [absorb]
      split
      · obtain ⟨consecutive, hgains⟩ := b.gains_receiveFailed .lengthOutOfRange
        rw [hgains.inMemory_iff, List.forall_mem_singleton]
        refine and_congr Iff.rfl ?_
        simp [Report.bare, LinkEvent.error?]
      · rename_i contentType content' _
        have hgains := gains_emit (b.count fun s => { s with packetsReceived := s.packetsReceived + 1 })
          (.received contentType content')
        rw [hgains.inMemory_iff, List.forall_mem_singleton]
        refine and_congr Iff.rfl ?_
        simp [Report.bare, LinkEvent.error?]

/-- A receiver that is in want of memory says so. -/
theorem inMemory_absorbAll (seen : List Seen) (b : Board) :
    (seen.foldl (Board.absorb config) b).InMemory ↔ b.InMemory ∧ .fault .outOfMemory ∉ seen := by
  induction seen generalizing b with
  | nil => exact (and_iff_left List.not_mem_nil).symm
  | cons x rest ih =>
      rw [List.foldl_cons, ih, inMemory_absorb, List.mem_cons, not_or, and_assoc, ne_comm]

end Board

/-- The report of a packet that came through. -/
def Acceptance.report (config : Framer.Config) (a : Acceptance) : Report :=
  .received (if config.tagged then a.contentType else {}) a.content

/-- What is read of a packet that was accepted. -/
def Acceptance.seen (config : Framer.Config) (a : Acceptance) : List Seen :=
  seenOf (a.blobs config).length (a.parcel config).stream

namespace Acceptance

variable {config : Framer.Config} {a : Acceptance}

theorem clean_seen (config : Framer.Config) (a : Acceptance) : ∀ x ∈ a.seen config, x.Clean config := by
  intro x hx
  rcases List.mem_append.1 hx with hx | hx
  · obtain rfl := List.eq_of_mem_replicate hx
    trivial
  · obtain rfl := List.mem_singleton.1 hx
    exact ⟨_, Board.unpack_tagBytes a.contentType a.content⟩

theorem report?_seen (config : Framer.Config) (a : Acceptance) :
    (a.seen config).filterMap (Seen.report? config) = [a.report config] := by
  have hblobs : ∀ n, (List.replicate n Seen.blob).filterMap (Seen.report? config) = [] := by
    intro n
    exact List.filterMap_replicate_of_none rfl
  rw [seen, seenOf, List.filterMap_append, hblobs, List.nil_append]
  simp [Seen.report?, parcel, Board.unpack_tagBytes, report]

theorem clean_flatMap_seen {accepted : List Acceptance} :
    ∀ x ∈ accepted.flatMap (Acceptance.seen config), x.Clean config := by
  intro x hx
  obtain ⟨a, -, hxa⟩ := List.mem_flatMap.1 hx
  exact clean_seen config a x hxa

theorem report?_flatMap_seen {accepted : List Acceptance} :
    (accepted.flatMap (Acceptance.seen config)).filterMap (Seen.report? config) =
      accepted.map (Acceptance.report config) := by
  induction accepted with
  | nil => rfl
  | cons a rest ih =>
      rw [List.flatMap_cons, List.filterMap_append, report?_seen, ih]
      rfl

/-- The blobs of a packet that was accepted give the packet back. -/
theorem whole_blobs {pool : Pool} (hcheck : config.check pool = .ok ())
    (hlength : a.content.length ≤ config.maxPacket) :
    Whole { maxPayload := config.maxPayload, maxLength := config.maxStream } {} (a.blobs config)
      (a.seen config) {} := by
  obtain ⟨hpayload, -, -, hpieces⟩ := Framer.Config.of_check hcheck
  have hstream : (a.parcel config).stream.length ≤ config.maxStream := by
    show (config.tagBytes a.contentType ++ a.content).length ≤ config.maxPacket + config.tagLength
    rw [List.length_append, Framer.Config.length_tagBytes]
    omega
  have hcut := hstream.trans (le_mul_of_ceilDiv_le hpayload.1 hpieces)
  have hlen : ({} : Partial).content.length + (a.parcel config).stream.length ≤ config.maxStream := by
    rw [show ({} : Partial).content.length = 0 from rfl, Nat.zero_add]
    exact hstream
  exact whole_cut hpayload.2 hpayload.1 Packet.maxChunks hlen (Nat.zero_add _) hcut

end Acceptance

namespace Outline

variable {o : Outline}

/-- A step that leaves alone what is read. -/
structure Ignores (o o' : Outline) : Prop where
  enabled_eq : o'.enabled = o.enabled
  reading_eq : o'.reading = o.reading

/-- The end of a transaction between two blobs does not show. -/
theorem transactionEnd_of_expect {p : Partial} (h : o.reading = .expect p []) :
    o.transactionEnd = o := by
  obtain ⟨config, enabled, nextTicket, waiting, flight, reading, board, writes⟩ := o
  obtain rfl : reading = .expect p [] := h
  rfl

theorem ignores_start (o : Outline) (p : Parcel) : o.Ignores (o.start p) := by
  unfold start
  split
  · exact ⟨rfl, rfl⟩
  · exact ⟨rfl, rfl⟩

theorem ignores_fill (misses : Nat) (o : Outline) : o.Ignores (o.fill misses) := by
  by_cases hidle : o.flight = .idle
  · cases hwaiting : o.waiting with
    | nil => exact ⟨by rw [fill_of_empty hwaiting], by rw [fill_of_empty hwaiting]⟩
    | cons p rest =>
        cases misses with
        | zero =>
            rw [fill_zero_cons hidle hwaiting]
            obtain ⟨henabled, hreading⟩ := ignores_start { o with waiting := rest } p
            exact ⟨henabled, hreading⟩
        | succ misses =>
            rw [fill_succ_cons hidle hwaiting]
            obtain ⟨henabled, hreading⟩ := ignores_fill misses ({ o with waiting := rest }.miss p)
            exact ⟨henabled, hreading⟩
  · exact ⟨by rw [fill_of_busy hidle], by rw [fill_of_busy hidle]⟩

theorem ignores_land (o : Outline) (result : WriteResult) : o.Ignores (o.land result) := by
  unfold land
  split
  · split
    · split
      · exact ⟨rfl, rfl⟩
      · exact ⟨rfl, rfl⟩
    · exact ⟨rfl, rfl⟩
  · exact ⟨rfl, rfl⟩

theorem ignores_complete (misses : Nat) (o : Outline) (result : WriteResult) :
    o.Ignores (o.complete misses result) := by
  obtain ⟨henabled, hreading⟩ := ignores_fill misses (o.land result)
  obtain ⟨henabled', hreading'⟩ := ignores_land o result
  rw [complete_eq_fill]
  exact ⟨henabled.trans henabled', hreading.trans hreading'⟩

end Outline

namespace Course

variable {config : Framer.Config} {c c' : Course} {a : Action} {o : Outline} {told : List Report}
  {heard data : Bytes}

/-- No event found the queue full. -/
def AllTold (c : Course) : Prop := c.reports.length = c.outline.board.record.length

/-- If no event is dropped in the end, none was dropped before. -/
theorem Accounted.allTold_before (h : c.Accounted) (hgains : c.outline.board.Gains told o.board)
    (hall : AllTold { c with outline := o }) :
    c.AllTold ∧ o.board.ring = c.outline.board.ring ++ told := by
  obtain ⟨kept, hkept, hrecord, hring⟩ := hgains
  have hle := h.told.length_le
  have hkeptle := hkept.length_le
  have hall' : (c.popped ++ o.board.ring).length = o.board.record.length := hall
  have hreports : c.reports.length = c.popped.length + c.outline.board.ring.length :=
    List.length_append
  rw [hrecord, hring] at hall'
  simp only [List.length_append, List.length_reverse, List.length_map] at hall' hle
  -- The reports are never more than the events, so equality in the end leaves no room for a drop.
  obtain rfl := hkept.eq_of_length (by omega)
  exact ⟨by rw [AllTold]; omega, hring⟩

/-- What holds of an open receiver that was told of some bytes. -/
structure Receiving (config : Framer.Config) (heard : Bytes) (c : Course) : Prop where
  config_eq : c.outline.config = config
  enabled : c.outline.enabled
  reads : ∃ seen, (State.expect {} []).push c.outline.limits heard = (seen, c.outline.reading) ∧
    ((∀ x ∈ seen, x.Clean config) → c.AllTold →
      c.reports.filter Report.isReception = seen.filterMap (Seen.report? config))

/-- A step that has to do with sending only. -/
theorem Receiving.ignores (h : c.Receiving config heard) (haccounted : c.Accounted)
    (hconfig : o.config = c.outline.config) (hgains : c.outline.board.Gains told o.board)
    (htold : ∀ r ∈ told, r.isReception = false) (hignores : c.outline.Ignores o)
    (accepted : List Acceptance) : Receiving config heard { c with outline := o, accepted } := by
  obtain ⟨seen, hpush, hreports⟩ := h.reads
  refine ⟨hconfig.trans h.config_eq, hignores.enabled_eq.trans h.enabled, seen, ?_, ?_⟩
  · show State.push o.limits _ _ = (seen, o.reading)
    rw [hignores.reading_eq, Outline.limits, hconfig]
    exact hpush
  · intro hclean hall
    obtain ⟨hbefore, hring⟩ := haccounted.allTold_before hgains hall
    have hnone : told.filter Report.isReception = [] := List.filter_eq_nil_iff.2 (by simpa using htold)
    show (c.popped ++ o.board.ring).filter _ = _
    rw [hring, ← List.append_assoc, List.filter_append, hnone, List.append_nil]
    exact hreports hclean hbefore

theorem Receiving.receive (h : c.Receiving config heard) (haccounted : c.Accounted) {seen : List Seen}
    {reading : State} (htakes : c.outline.reading.Takes c.outline.limits data seen reading)
    (hmem : (c.outline.absorb seen reading).board.InMemory) :
    Receiving config (heard ++ data) { c with outline := c.outline.absorb seen reading } := by
  obtain ⟨before, hpush, hreports⟩ := h.reads
  have hpush' := htakes.push_eq ((Board.inMemory_absorbAll seen _).1 hmem).2
  refine ⟨h.config_eq, h.enabled, before ++ seen, ?_, ?_⟩
  · show (State.expect {} []).push c.outline.limits (heard ++ data) = (before ++ seen, reading)
    rw [State.push_append, hpush, hpush']
  · intro hclean hall
    rw [List.forall_mem_append] at hclean
    have hconfig : ∀ x ∈ seen, x.Clean c.outline.config := h.config_eq ▸ hclean.2
    obtain ⟨hbefore, hring⟩ := haccounted.allTold_before
      (Board.gains_absorbAll_clean hconfig c.outline.board) hall
    show (c.popped ++ (c.outline.absorb seen reading).board.ring).filter _ = _
    rw [hring, ← List.append_assoc, List.filter_append, List.filterMap_append, h.config_eq]
    refine congrArg₂ (· ++ ·) (hreports hclean.1 hbefore) ?_
    refine List.filter_eq_self.2 ?_
    intro r hr
    obtain ⟨x, -, hreport⟩ := List.mem_filterMap.1 hr
    exact Seen.isReception_of_report? hreport

theorem Receiving.settle (h : c.Receiving config heard) : c.settle.Receiving config heard :=
  ⟨h.config_eq, h.enabled, h.reads⟩

/-- A receiver goes on reading whatever it does of its own accord. -/
theorem Step.receiving (hstep : Step c a c') (hown : a.isOwn) (haccounted : c.Accounted)
    (h : c.Receiving config heard) : c'.Receiving config heard := by
  cases hstep with
  | enable =>
      have houtline : c.outline.enable = c.outline := if_pos h.enabled
      rw [houtline]
      exact h
  | disable => cases hown
  | @accept sent packet misses enabled ticket length_le =>
      obtain ⟨missed, hends⟩ := Outline.ends_fill misses
        (c.outline.accept (sent.parcel c.outline.config).stream)
      obtain ⟨henabled, hreading⟩ := Outline.ignores_fill misses
        (c.outline.accept (sent.parcel c.outline.config).stream)
      exact (h.ignores haccounted hends.config_eq hends.gains (Report.failed_not_reception _ _)
        ⟨henabled, hreading⟩ _).settle
  | receive enabled takes => cases hown
  | transactionEnd => cases hown
  | pop next =>
      obtain ⟨seen, hpush, hreports⟩ := h.reads
      refine ⟨h.config_eq, h.enabled, seen, hpush, ?_⟩
      rw [AllTold, reports, reports_pop next]
      exact hreports
  | complete misses result busy =>
      obtain ⟨told, hends, htold, -⟩ := Outline.ends_complete misses c.outline result
      exact (h.ignores haccounted hends.config_eq hends.gains htold
        (Outline.ignores_complete misses c.outline result) c.accepted).settle
  | deaf => exact h
  | stay => exact h

/-- Memory that suffices in the end sufficed before. -/
theorem Step.inMemory_before (hstep : Step c a c') (h : c'.outline.board.InMemory) :
    c.outline.board.InMemory := by
  cases hstep with
  | enable => exact h.before (Outline.ends_enable _).gains
  | disable =>
      obtain ⟨told, hends⟩ := Outline.ends_disable c.outline
      exact h.before hends.gains
  | accept misses enabled ticket length_le =>
      obtain ⟨missed, hends⟩ := Outline.ends_fill misses (c.outline.accept _)
      exact Board.InMemory.before h hends.gains
  | receive enabled takes =>
      obtain ⟨told, -, hends⟩ := Outline.ends_absorb c.outline _ _
      exact h.before hends.gains
  | transactionEnd =>
      obtain ⟨told, -, hends⟩ := Outline.ends_transactionEnd c.outline
      exact h.before hends.gains
  | pop next => exact h
  | complete misses result busy =>
      obtain ⟨told, hends, -⟩ := Outline.ends_complete misses c.outline result
      exact Board.InMemory.before h hends.gains
  | deaf => exact h
  | stay => exact h

end Course

end DockLink
