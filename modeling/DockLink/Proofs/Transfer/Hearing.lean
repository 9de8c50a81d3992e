import DockLink.Proofs.Transfer.Delivery
import DockLink.Proofs.Transfer.Splicing

/-!
# What a receiver reports of what it hears

Over a channel that loses blobs a receiver may read packets that were never sent, and have faults.
With memory enough it reports packets that it reads, and no others.
-/

namespace DockLink

open Decoder

/-- The packet that a report tells of, with its content type. -/
def Report.packet? : Report → Option (ContentType × Bytes)
  | .received contentType content => some (contentType, content)
  | _ => none

theorem Report.packet?_of_not_reception {r : Report} (h : r.isReception = false) :
    r.packet? = none := by
  cases r with
  | received contentType content => cases h
  | sent ticket => rfl
  | sendFailed ticket error => rfl
  | receiveFailed error consecutive => rfl

namespace Board

variable {config : Framer.Config} {b b' : Board} {reports : List Report}

theorem Gains.packets (h : b.Gains reports b') :
    ∃ kept, b'.ring = b.ring ++ kept ∧
      (kept.filterMap Report.packet?).Sublist (reports.filterMap Report.packet?) := by
  obtain ⟨kept, hkept, -, hring⟩ := h
  exact ⟨kept, hring, hkept.filterMap Report.packet?⟩

/-- What is reported of an output is the packet, if it is one that can be unpacked. -/
theorem gains_absorb_packet (config : Framer.Config) (b : Board) (x : Seen) :
    ∃ reports, b.Gains reports (b.absorb config x) ∧
      reports.filterMap Report.packet? = (packets [x]).filterMap (unpack config) := by
  cases x with
  | blob => exact ⟨[], gains_nil rfl rfl, rfl⟩
  | fault error =>
      obtain ⟨consecutive, h⟩ := b.gains_receiveFailed error
      exact ⟨_, h, rfl⟩
  | packet content =>
      cases hunpack : unpack config content with
      | none =>
          obtain ⟨consecutive, h⟩ := b.gains_receiveFailed .lengthOutOfRange
          refine ⟨[.receiveFailed .lengthOutOfRange consecutive], ?_,
            (List.filterMap_cons_none (l := []) hunpack).symm⟩
          simpa only [absorb, hunpack] using h
      | some tagged =>
          refine ⟨[.received tagged.1 tagged.2], ?_,
            (List.filterMap_cons_some (l := []) hunpack).symm⟩
          simp only [absorb, hunpack]
          exact (gains_nil rfl rfl).trans (gains_emit _ _)

theorem gains_absorbAll_packets (config : Framer.Config) (seen : List Seen) (b : Board) :
    ∃ reports, b.Gains reports (seen.foldl (Board.absorb config) b) ∧
      reports.filterMap Report.packet? = (packets seen).filterMap (unpack config) := by
  induction seen generalizing b with
  | nil => exact ⟨[], gains_nil rfl rfl, rfl⟩
  | cons x rest ih =>
      obtain ⟨reports₁, h₁, heq₁⟩ := b.gains_absorb_packet config x
      obtain ⟨reports₂, h₂, heq₂⟩ := ih (b.absorb config x)
      refine ⟨reports₁ ++ reports₂, h₁.trans h₂, ?_⟩
      rw [List.filterMap_append, heq₁, heq₂, ← List.filterMap_append, ← packets_append]
      rfl

theorem tagBytes_of_unpack {bytes content : Bytes} {contentType : ContentType}
    (h : unpack config bytes = some (contentType, content)) :
    config.tagBytes contentType ++ content = bytes := by
  unfold unpack at h
  split at h
  · rename_i htag
    unfold readTag at h
    split at h
    · cases h
      rw [Framer.Config.tagBytes, if_pos htag, Bytes.ofWord16_word16]
      rfl
    · cases h
  · rename_i htag
    cases h
    rw [Framer.Config.tagBytes, if_neg htag]
    rfl

end Board

namespace Outline

theorem hears_transactionEnd (o : Outline) :
    o.transactionEnd.config = o.config ∧ o.transactionEnd.enabled = o.enabled ∧
      o.transactionEnd.reading = .expect o.reading.finish.2 [] ∧
      ∃ reports, o.board.Gains reports o.transactionEnd.board ∧
        reports.filterMap Report.packet? = [] := by
  unfold transactionEnd
  split
  · rename_i hfinish
    rw [hfinish]
    exact ⟨rfl, rfl, rfl, [], Board.gains_nil rfl rfl, rfl⟩
  · rename_i hfinish
    rw [hfinish]
    split
    · obtain ⟨consecutive, h⟩ := o.board.gains_receiveFailed .channelAborted
      exact ⟨rfl, rfl, rfl, _, h, rfl⟩
    · exact ⟨rfl, rfl, rfl, [], Board.gains_nil rfl rfl, rfl⟩

end Outline

namespace Course

variable {config : Framer.Config} {c c' : Course} {a : Action} {o : Outline} {told : List Report}
  {heard more : List Signal}

/-- What holds of an open receiver that was told of some signals. -/
structure Hearing (config : Framer.Config) (heard : List Signal) (c : Course) : Prop where
  config_eq : c.outline.config = config
  enabled : c.outline.enabled
  reads : ∃ seen, (State.expect {} []).listen config.limits heard = (seen, c.outline.reading) ∧
    (c.reports.filterMap Report.packet?).Sublist ((packets seen).filterMap (Board.unpack config))

theorem Hearing.hears (h : c.Hearing config heard) {seen : List Seen}
    (hconfig : o.config = c.outline.config) (henabled : o.enabled = c.outline.enabled)
    (hlisten : c.outline.reading.listen config.limits more = (seen, o.reading))
    (hgains : c.outline.board.Gains told o.board)
    (htold : told.filterMap Report.packet? = (packets seen).filterMap (Board.unpack config))
    (accepted : List Acceptance) :
    Hearing config (heard ++ more) { c with outline := o, accepted } := by
  obtain ⟨before, hbefore, hreports⟩ := h.reads
  obtain ⟨kept, hring, hkept⟩ := hgains.packets
  refine ⟨hconfig.trans h.config_eq, henabled.trans h.enabled, before ++ seen, ?_, ?_⟩
  · rw [State.listen_append, hbefore, hlisten]
  · show ((c.popped ++ o.board.ring).filterMap _).Sublist _
    rw [hring, ← List.append_assoc, List.filterMap_append, packets_append,
      List.filterMap_append (l := packets before)]
    exact hreports.append (htold ▸ hkept)

theorem Hearing.ignores (h : c.Hearing config heard) (hconfig : o.config = c.outline.config)
    (hgains : c.outline.board.Gains told o.board) (htold : ∀ r ∈ told, r.isReception = false)
    (hignores : c.outline.Ignores o) (accepted : List Acceptance) :
    Hearing config heard { c with outline := o, accepted } := by
  have hnone : told.filterMap Report.packet? = [] :=
    List.filterMap_eq_nil_iff.2 fun r hr => Report.packet?_of_not_reception (htold r hr)
  have hlisten : c.outline.reading.listen config.limits [] = ([], o.reading) :=
    congrArg (Prod.mk []) hignores.reading_eq.symm
  have hhears := h.hears hconfig hignores.enabled_eq hlisten hgains hnone accepted
  rwa [List.append_nil] at hhears

theorem Hearing.settle (h : c.Hearing config heard) : c.settle.Hearing config heard :=
  ⟨h.config_eq, h.enabled, h.reads⟩

theorem Step.hearing (hstep : Step c a c') (hown : a.isOwn) (h : c.Hearing config heard) :
    c'.Hearing config heard := by
  cases hstep with
  | enable =>
      have houtline : c.outline.enable = c.outline := if_pos h.enabled
      rw [houtline]
      exact h
  | disable => cases hown
  | @accept sent packet misses enabled ticket length_le =>
      obtain ⟨missed, hends⟩ := Outline.ends_fill misses
        (c.outline.accept (sent.parcel c.outline.config).stream)
      obtain ⟨henabled, hreading⟩ := Outline.ignores_fill misses
        (c.outline.accept (sent.parcel c.outline.config).stream)
      exact (h.ignores hends.config_eq hends.gains (Report.failed_not_reception _ _)
        ⟨henabled, hreading⟩ _).settle
  | receive enabled takes => cases hown
  | transactionEnd => cases hown
  | pop next =>
      obtain ⟨seen, hlisten, hreports⟩ := h.reads
      refine ⟨h.config_eq, h.enabled, seen, hlisten, ?_⟩
      rw [reports, reports_pop next]
      exact hreports
  | complete misses result busy =>
      obtain ⟨told, hends, htold, -⟩ := Outline.ends_complete misses c.outline result
      exact (h.ignores hends.config_eq hends.gains htold
        (Outline.ignores_complete misses c.outline result) c.accepted).settle
  | deaf => exact h
  | stay => exact h

theorem Hearing.settled (h : c.Hearing config heard) : c.outline.reading.Settled config.limits := by
  obtain ⟨seen, hlisten, -⟩ := h.reads
  have hsettled : ((State.expect {} []).listen config.limits heard).2.Settled config.limits :=
    State.settled_listen (State.settled_expect {}) heard
  rwa [hlisten] at hsettled

theorem Hearing.limits_eq (h : c.Hearing config heard) : c.outline.limits = config.limits := by
  rw [← h.config_eq]
  rfl

theorem Step.hearing_receive {data : Bytes} (hstep : Step c (.receive data) c')
    (h : c.Hearing config heard) (hmem : c'.outline.board.InMemory) :
    c'.Hearing config (heard ++ data.map .byte) := by
  cases hstep with
  | @receive _ seen reading enabled takes =>
      obtain ⟨told, hgains, htold⟩ :=
        Board.gains_absorbAll_packets c.outline.config seen c.outline.board
      rw [h.config_eq] at htold
      have hlisten := takes.push_eq ((Board.inMemory_absorbAll seen _).1 hmem).2
      rw [h.limits_eq, ← State.listen_bytes h.settled] at hlisten
      exact h.hears (o := c.outline.absorb seen reading) rfl rfl hlisten hgains htold c.accepted
  | deaf data closed => exact absurd h.enabled (by rw [closed]; nofun)
  | stay optional => cases optional

theorem Step.hearing_transactionEnd (hstep : Step c .transactionEnd c')
    (h : c.Hearing config heard) : c'.Hearing config (heard ++ [.transactionEnd]) := by
  cases hstep with
  | transactionEnd =>
      obtain ⟨hconfig, henabled, hreading, told, hgains, htold⟩ := c.outline.hears_transactionEnd
      have hlisten : c.outline.reading.listen config.limits [.transactionEnd] =
          (c.outline.reading.finish.1, c.outline.transactionEnd.reading) := by
        rw [State.listen, State.listen, List.append_nil, hreading]
        rfl
      refine h.hears hconfig henabled hlisten hgains ?_ c.accepted
      rw [htold, packets_finish]
      rfl
  | stay optional => cases optional

end Course

end DockLink
