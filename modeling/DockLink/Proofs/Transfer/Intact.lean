import DockLink.Proofs.Memory.Restoring
import DockLink.Proofs.Transfer.Slicing

/-!
# What a framer keeps in any hands

A pool counts some handles, whoever has them, as long as none is given back that is not there. No
operation of a framer breaks this, and its receiver always waits for the rest of a header or of a
blob. Who asks, and with which packets and blocks, does not matter.
-/

namespace DockLink

open Reassembly

/-! ## Pools -/

namespace Pool

variable {p q : Pool} {b : Block}

/-- The pool counts the handles to its blocks, whoever has them, as long as none was given back that
was not there. -/
def Counts (p : Pool) : Prop := p.fault? = none → ∃ handles, p.Sound handles

theorem Sound.counts {handles : Multiset Block} (h : p.Sound handles) : p.Counts :=
  fun _ => ⟨handles, h⟩

theorem Counts.split (h : p.Counts) (hp : p.fault? = none) (hlive : p.refCount b ≠ 0) :
    ∃ handles, p.Sound (b ::ₘ handles) := by
  obtain ⟨handles, hs⟩ := h hp
  have hpos : 0 < handles.count b := by
    rw [← hs.refCount_eq]
    exact Nat.pos_of_ne_zero fun hzero => hlive (UInt8.toNat_inj.1 hzero)
  exact ⟨handles.erase b, hs.cast (Multiset.cons_erase (Multiset.count_pos.1 hpos)).symm⟩

theorem Counts.allocate (h : p.Counts) {size : Nat} (ha : p.allocate size = .ok (b, q)) :
    q.Counts := by
  intro hq
  obtain ⟨handles, hs⟩ := h (fault?_of_allocate ha ▸ hq)
  exact ⟨_, (hs.allocate ha).2.1⟩

theorem Counts.retain (h : p.Counts) (hlive : p.refCount b ≠ 0) (hr : p.retain b = .ok q) :
    q.Counts := by
  intro hq
  obtain ⟨handles, hs⟩ := h.split (fault?_of_retain hr ▸ hq) hlive
  obtain ⟨q', hr', hsound, -⟩ := hs.retain (hs.count_lt_of_retain hr)
  cases hr.symm.trans hr'
  exact ⟨_, hsound⟩

theorem Counts.write (h : p.Counts) {offset : Nat} {data : Bytes}
    (hw : p.write b offset data = .ok q) : q.Counts := by
  have hone : p.refCount b = 1 := by
    by_contra hne
    rw [Pool.write, if_pos hne] at hw
    cases hw
  intro hq
  obtain ⟨handles, hs⟩ := h.split (b := b) (fault?_of_write hw ▸ hq) (by rw [hone]; decide)
  obtain ⟨hb, hfits⟩ := hs.of_write hw
  obtain ⟨q', hw', hsound, -⟩ := hs.write hb hfits
  cases hw.symm.trans hw'
  exact ⟨_, hsound⟩

theorem Counts.release (h : p.Counts) (b : Block) : (p.release b).Counts := by
  intro hq
  obtain ⟨hp, hlive | hsame⟩ := of_fault?_release hq
  · obtain ⟨handles, hs⟩ := h.split hp hlive
    exact ⟨_, hs.release.1⟩
  · rw [hsame]
    exact h hp

theorem Counts.releaseAll (blocks : List Block) {p : Pool} (h : p.Counts) :
    (p.releaseAll blocks).Counts := by
  induction blocks generalizing p with
  | nil => exact h
  | cons b rest ih => exact ih (h.release b)

end Pool

variable {pool q : Pool}

theorem Packet.counts_release (h : pool.Counts) (p : Packet) : (p.release pool).Counts :=
  h.releaseAll _

theorem Packet.counts_of_push {p p' : Packet} {c : Chunk} (h : pool.Counts)
    (hp : p.push pool c = .ok (p', q)) : q.Counts := by
  unfold push add at hp
  split at hp
  · cases hp
    exact h.release c.block
  · split at hp
    · cases hp
      exact h
    · cases hp

theorem Packet.counts_of_dropBytes {chunks chunks' : List Chunk} {count : Nat} {pool : Pool}
    (h : pool.Counts) (hd : Packet.dropBytes pool chunks count = .ok (chunks', q)) : q.Counts := by
  induction chunks generalizing pool count with
  | nil =>
      cases count with
      | zero =>
          cases hd
          exact h
      | succ n => cases hd
  | cons c rest ih =>
      cases count with
      | zero =>
          cases hd
          exact h
      | succ n =>
          simp only [dropBytes] at hd
          split at hd
          · exact ih (h.release c.block) hd
          · cases hd
            exact h

theorem Packet.counts_of_advance {p p' : Packet} {count : Nat} (h : pool.Counts)
    (ha : p.advance pool count = .ok (p', q)) : q.Counts := by
  unfold advance at ha
  split at ha
  · obtain ⟨⟨chunks, q'⟩, hdrop, heq⟩ := exists_of_map_eq_ok ha
    cases heq
    exact counts_of_dropBytes h hdrop
  · cases ha

theorem Segments.counts_of_next {s : Segments} {packet : Packet} {buffer : Block}
    {answer : Option (Nat × Segments)} (h : pool.Counts)
    (hn : s.next pool packet buffer = .ok (answer, q)) : q.Counts := by
  by_cases hone : pool.refCount buffer = 1
  · cases hf : s.finished with
    | true =>
        rw [next_of_finished hone hf] at hn
        cases hn
        exact h
    | false =>
        rw [next_of_unfinished hone hf] at hn
        obtain ⟨⟨length, bytes⟩, -, hn⟩ := exists_of_bind_eq_ok hn
        obtain ⟨q', hwrite, heq⟩ := exists_of_map_eq_ok hn
        cases heq
        exact h.write hwrite
  · rw [next_of_shared hone] at hn
    cases hn

/-! ## Reports -/

namespace Reporter

variable {depth : Nat}

theorem counts_emit (h : pool.Counts) (r : Reporter depth) (event : LinkEvent) :
    (r.emit pool event).2.Counts := by
  unfold emit
  simp only
  split
  · exact h
  · cases event with
    | received contentType packet => exact Packet.counts_release h packet
    | sent ticket => exact h
    | sendFailed ticket error => exact h
    | receiveFailed error consecutive => exact h

theorem counts_of_emit {r r' : Reporter depth} {event : LinkEvent} (h : pool.Counts)
    (he : r.emit pool event = (r', q)) : q.Counts := by
  have hemit := counts_emit h r event
  rwa [he] at hemit

end Reporter

/-! ## Receiving -/

namespace Receiver

variable {r r' : Receiver} {outputs : List Output}

theorem counts_releasePacket (h : pool.Counts) (r : Receiver) : (r.releasePacket pool).Counts := by
  unfold releasePacket
  cases r.packet with
  | none => exact h
  | some packet => exact Packet.counts_release h packet

theorem counts_releaseBlob (h : pool.Counts) (r : Receiver) : (r.releaseBlob pool).Counts := by
  unfold releaseBlob
  split
  · exact h.release _
  · exact h

theorem counts_reset (h : pool.Counts) (r : Receiver) : (r.reset pool).2.Counts :=
  counts_releasePacket (counts_releaseBlob h r) r

theorem counts_of_fail {error : LinkError} (h : pool.Counts)
    (hf : r.fail pool error = (r', q, outputs)) : q.Counts := by
  cases hf
  exact counts_releasePacket h r

theorem counts_of_startBlob {header : Header} (h : pool.Counts)
    (hs : r.startBlob pool header = .ok (r', q, outputs)) : q.Counts := by
  unfold startBlob at hs
  split at hs
  · exact counts_of_fail h (Except.ok.inj hs)
  · split at hs
    · exact counts_of_fail h (Except.ok.inj hs)
    · rename_i block q₁ hallocate
      obtain ⟨q₂, hwrite, heq⟩ := exists_of_bind_eq_ok hs
      cases heq
      exact (h.allocate hallocate).write hwrite

theorem counts_of_acceptBlob {block : Block} {header : Header} (h : pool.Counts)
    (ha : r.acceptBlob pool block header = .ok (r', q, outputs)) : q.Counts := by
  unfold acceptBlob at ha
  simp only at ha
  split at ha
  · cases ha
    exact (counts_releasePacket h _).release block
  · obtain ⟨chunk, -, ha⟩ := exists_of_bind_eq_ok ha
    split at ha
    · exact counts_of_fail (h.release _) (Except.ok.inj ha)
    · rename_i packet' q₁ hpush
      split at ha
      · cases ha
        exact Packet.counts_of_push h hpush
      · cases ha
        exact Packet.counts_of_push h hpush

theorem counts_of_finishBlob {block : Block} {header : Header} (h : pool.Counts)
    (hf : r.finishBlob pool block header = .ok (r', q, outputs)) : q.Counts := by
  unfold finishBlob at hf
  obtain ⟨good, -, hf⟩ := exists_of_bind_eq_ok hf
  split at hf
  · exact counts_of_acceptBlob h hf
  · cases hf
    exact (counts_releasePacket h r).release block

theorem counts_of_take {run : Bytes} (h : pool.Counts)
    (ht : r.take pool run = .ok (r', q, outputs)) : q.Counts := by
  obtain ⟨maxPayload, maxLength, phase, packet⟩ := r
  cases phase with
  | header received =>
      unfold take takeHeader at ht
      simp only at ht
      split at ht
      · exact counts_of_startBlob h ht
      · cases ht
        exact h
  | payload block header filled =>
      obtain ⟨q₁, hwrite, ht⟩ := exists_of_bind_eq_ok ht
      simp only at ht
      split at ht
      · exact counts_of_finishBlob (h.write hwrite) ht
      · cases ht
        exact h.write hwrite
  | discard =>
      cases ht
      exact h

section Push

variable {σ : Type} {deliver : σ → Pool → Output → Except Fault (σ × Pool)} {s s' : σ}
  (hdeliver : ∀ {s s' pool q output}, pool.Counts → deliver s pool output = .ok (s', q) →
    q.Counts)

include hdeliver

theorem counts_of_deliverAll (h : pool.Counts)
    (hd : deliverAll deliver s pool outputs = .ok (s', q)) : q.Counts := by
  induction outputs generalizing s pool with
  | nil =>
      cases hd
      exact h
  | cons output rest ih =>
      obtain ⟨⟨s₁, q₁⟩, hone, hd⟩ := exists_of_bind_eq_ok hd
      exact ih (hdeliver h hone) hd

theorem counts_of_pushRuns (n : Nat) {r : Receiver} {s : σ} {pool : Pool} {data : Bytes}
    (h : pool.Counts) (hr : r.Unfilled) (hp : pushRuns deliver n r pool s data = .ok (r', q, s')) :
    q.Counts ∧ r'.Unfilled := by
  induction n generalizing r pool s data with
  | zero =>
      cases hp
      exact ⟨h, hr⟩
  | succ n ih =>
      rw [pushRuns] at hp
      split at hp
      · cases hp
        exact ⟨h, hr⟩
      · obtain ⟨⟨r₁, q₁, outputs⟩, htake, hp⟩ := exists_of_bind_eq_ok hp
        obtain ⟨⟨s₁, q₂⟩, hall, hp⟩ := exists_of_bind_eq_ok hp
        exact ih (counts_of_deliverAll hdeliver (counts_of_take h htake) hall)
          (hr.take (length_run_le r data) htake) hp

end Push

end Receiver

namespace Framer

variable {queueDepth eventDepth : Nat} {f f' f₁ : Framer queueDepth eventDepth}

theorem counts_of_untag {config : Config} {packet : Packet}
    {answer : Option (ContentType × Packet)} (h : pool.Counts)
    (hu : untag config pool packet = .ok (answer, q)) : q.Counts := by
  unfold untag at hu
  split at hu
  · cases hu
    exact h
  · split at hu
    · cases hu
      exact Packet.counts_release h packet
    · obtain ⟨code, -, hu⟩ := exists_of_bind_eq_ok hu
      obtain ⟨⟨packet', q₁⟩, hadvance, hu⟩ := exists_of_bind_eq_ok hu
      cases hu
      exact Packet.counts_of_advance h hadvance

theorem counts_of_deliver {config : Config} {reporter reporter' : Reporter eventDepth}
    {pool q : Pool} {output : Output} (h : pool.Counts)
    (hd : deliver config reporter pool output = .ok (reporter', q)) : q.Counts := by
  cases output with
  | blob =>
      cases hd
      exact h
  | fault error => exact Reporter.counts_of_emit h (Except.ok.inj hd)
  | packet packet =>
      obtain ⟨⟨answer, q₁⟩, huntag, hd⟩ := exists_of_bind_eq_ok hd
      have hcounts := counts_of_untag h huntag
      cases answer with
      | none => exact Reporter.counts_of_emit hcounts (Except.ok.inj hd)
      | some content => exact Reporter.counts_of_emit hcounts (Except.ok.inj hd)

/-- What holds of a framer whatever is done to it. -/
structure Intact (f : Framer queueDepth eventDepth) : Prop where
  counts : f.pool.Counts
  unfilled : f.receiver.Unfilled

theorem Intact.received (h : f.Intact) {data : Bytes} (hr : f.received data = .ok f') :
    f'.Intact := by
  unfold Framer.received at hr
  split at hr
  · obtain ⟨⟨receiver, q, reporter⟩, hpush, hr⟩ := exists_of_bind_eq_ok hr
    cases hr
    obtain ⟨hcounts, hunfilled⟩ :=
      Receiver.counts_of_pushRuns counts_of_deliver _ h.counts h.unfilled hpush
    exact ⟨hcounts, hunfilled⟩
  · cases hr
    exact h

theorem Intact.transactionEnd (h : f.Intact) : f.transactionEnd.Intact := by
  have hidle : ∀ r : Receiver, { r with phase := .idle }.Unfilled := fun _ => Nat.zero_lt_two
  unfold Framer.transactionEnd Receiver.transactionEnd
  by_cases hcut : f.receiver.isCut
  · have hreset := Receiver.counts_reset h.counts f.receiver
    simp only [hcut, ↓reduceIte]
    split
    · exact ⟨Reporter.counts_emit hreset _ _, hidle { f.receiver with packet := none }⟩
    · exact ⟨hreset, hidle { f.receiver with packet := none }⟩
  · simp only [hcut]
    exact ⟨h.counts, hidle f.receiver⟩

theorem Intact.resetReceiver (h : f.Intact) : f.resetReceiver.Intact :=
  ⟨Receiver.counts_reset h.counts f.receiver, Nat.zero_lt_two⟩

theorem Intact.enable (h : f.Intact) : f.enable.Intact := by
  unfold Framer.enable
  split
  · exact h
  · exact ⟨h.resetReceiver.counts, h.resetReceiver.unfilled⟩

/-! ## Sending -/

theorem counts_giveUp (h : f.pool.Counts) (o : Outgoing) (error : LinkError) :
    (f.giveUp o error).pool.Counts := by
  have hemit := Reporter.counts_emit h
    (f.reporter.count fun s => { s with sendFailures := s.sendFailures + 1 })
    (.sendFailed o.ticket error)
  exact Packet.counts_release hemit o.packet

theorem counts_of_start {o : Outgoing} (h : f.pool.Counts) (hs : f.start o = .ok f₁) :
    f₁.pool.Counts := by
  unfold start at hs
  simp only at hs
  split at hs
  · cases hs
    exact counts_giveUp (f := f.count fun s =>
      { s with allocationFailures := s.allocationFailures + 1 }) h o .outOfMemory
  · rename_i block q hallocate
    obtain ⟨⟨next, q₁⟩, hnext, hs⟩ := exists_of_bind_eq_ok hs
    have hcounts := Segments.counts_of_next (h.allocate hallocate) hnext
    cases next with
    | none => cases hs
    | some next =>
        cases hs
        exact hcounts

theorem counts_of_startUpTo (n : Nat) {f : Framer queueDepth eventDepth} (h : f.pool.Counts)
    (hs : startUpTo n f = .ok f₁) : f₁.pool.Counts := by
  induction n generalizing f with
  | zero =>
      cases hs
      exact h
  | succ n ih =>
      simp only [startUpTo] at hs
      split at hs
      · rename_i o queue _ _
        obtain ⟨f₂, hstart, hs⟩ := exists_of_bind_eq_ok hs
        exact ih (counts_of_start (f := { f with queue }) h hstart) hs
      · cases hs
        exact h

theorem counts_takeBack (h : f.pool.Counts) (block : Block) :
    (f.takeBack block).1.pool.Counts := by
  have hrelease : (f.releaseBlock block).pool.Counts := h.release block
  unfold takeBack
  simp only
  split
  · rename_i hnext
    exact counts_of_startUpTo _ hrelease hnext
  · exact hrelease

theorem counts_proceed (h : f.pool.Counts) (o : Outgoing) (segments : Segments) (block : Block) :
    (f.proceed o segments block).1.pool.Counts := by
  unfold proceed
  simp only
  split
  · exact (Packet.counts_release h o.packet).release block
  · rename_i hnext
    exact Segments.counts_of_next h hnext
  · rename_i q hnext
    have hemit := Reporter.counts_emit (Segments.counts_of_next h hnext)
      (((f.count fun s => { s with blobsSent := s.blobsSent + 1 }).count fun s =>
        { s with packetsSent := s.packetsSent + 1 }).reporter) (.sent o.ticket)
    exact counts_takeBack (Packet.counts_release hemit o.packet) block

theorem counts_writeComplete (h : f.pool.Counts) (block : Block) (result : WriteResult) :
    (f.writeComplete block result).1.pool.Counts := by
  let idle := { f with transmission := .idle }
  have hidle : idle.pool.Counts := h
  unfold writeComplete
  simp only
  split
  · rename_i o segments expected _
    split
    · exact counts_proceed hidle o segments block
    · have hgive := counts_giveUp (f := idle.count fun s => { s with aborts := s.aborts + 1 }) hidle
        o .channelAborted
      exact counts_takeBack hgive block
  · exact counts_takeBack hidle block

theorem counts_of_tag {config : Config} {contentType : ContentType} {packet : Packet}
    {answer : Except SendError Packet} (h : pool.Counts)
    (ht : tag config pool contentType packet = .ok (answer, q)) : q.Counts := by
  unfold tag at ht
  split at ht
  · cases ht
    exact h
  · rename_i hne
    split at ht
    · cases ht
      exact h
    · rename_i block q₀ hallocate
      obtain ⟨q₁, hwrite, ht⟩ := exists_of_bind_eq_ok ht
      obtain ⟨chunk, hchunk, ht⟩ := exists_of_bind_eq_ok ht
      obtain rfl := Chunk.eq_of_of_eq_ok hchunk
      have hcounts := (h.allocate hallocate).write hwrite
      split at ht
      · cases ht
        exact hcounts.release _
      · rename_i hpush
        have hlength : (⟨block, 0, config.tagLength⟩ : Chunk).length ≠ 0 := hne
        obtain ⟨-, hsame⟩ := Packet.eq_of_pushFront_ok hlength hpush
        cases ht
        rwa [hsame]

theorem counts_of_send {contentType : ContentType} {packet : Packet}
    {answer : Except (SendError × Packet) Ticket} (h : f.pool.Counts)
    (hs : f.send contentType packet = .ok (answer, f₁)) : f₁.pool.Counts := by
  unfold send at hs
  split at hs
  · cases hs
    exact h
  · split at hs
    · cases hs
      exact h
    · obtain ⟨⟨tagged, q⟩, htag, hs⟩ := exists_of_bind_eq_ok hs
      have hcounts := counts_of_tag h htag
      cases tagged with
      | error e =>
          cases hs
          exact hcounts
      | ok tagged =>
          obtain ⟨packet', q', hadvance, -, rfl⟩ | ⟨queue, -, hnext, -⟩ := enqueue_cases hs
          · exact Packet.counts_of_advance hcounts hadvance
          · exact counts_of_startUpTo _ hcounts hnext

theorem counts_cancel (h : f.pool.Counts) : f.cancel.pool.Counts := by
  unfold cancel
  split
  · exact counts_giveUp h _ _
  · exact h

theorem counts_flushUpTo (n : Nat) {f : Framer queueDepth eventDepth} (h : f.pool.Counts) :
    (flushUpTo n f).pool.Counts := by
  induction n generalizing f with
  | zero => exact h
  | succ n ih =>
      unfold flushUpTo
      split
      · exact h
      · exact ih (counts_giveUp h _ _)

theorem Intact.of_sends (h : f.Intact) (hcounts : f₁.pool.Counts) (hsends : f.Sends f₁) :
    f₁.Intact :=
  ⟨hcounts, hsends.receiver_eq ▸ h.unfilled⟩

theorem Intact.disable (h : f.Intact) : f.disable.Intact := by
  unfold Framer.disable
  split
  · let g := ((({ f with enabled := false }.order .abortRx).order .abortTx).order .disable)
    have hreset : g.resetReceiver.Intact := Intact.resetReceiver ⟨h.counts, h.unfilled⟩
    exact hreset.of_sends (counts_flushUpTo _ (counts_cancel hreset.counts))
      ((sends_cancel g.resetReceiver).trans (sends_flushUpTo _ _))
  · exact h

end Framer

end DockLink
