import DockLink.Proofs.Memory.Packing
import DockLink.Proofs.Transfer.Listening
import DockLink.Proofs.Transfer.Safety
import DockLink.Proofs.Transfer.Slicing

/-!
# How much a receiver holds

A receiver keeps no more of a packet than it may become, in no more chunks than a packet has room
for, and one block for the blob in progress. So a sender of many small blobs takes nine blocks at
most. A header or a blob that is complete is not left lying: each look at the input that is left
takes at least one byte of it.
-/

namespace DockLink

open Reassembly

variable {pool q : Pool} {others : Multiset Block} {limits : Decoder.Limits}

theorem Packet.length_of_push {p p' : Packet} {c : Chunk} (h : p.push pool c = .ok (p', q)) :
    p'.length = p.length + c.length := by
  unfold push add at h
  split at h
  · rename_i hempty
    cases h
    rw [hempty, Nat.add_zero]
  · split at h
    · cases h
      rfl
    · cases h

theorem Packet.card_handles (p : Packet) : p.handles.card = p.chunks.length := by
  rw [handles, Multiset.coe_card, List.length_map]

namespace Receiver

variable {σ V : Type} {deliver : σ → Pool → Output → Except Fault (σ × Pool)} {r r' : Receiver}
  {s s' : σ} {data left run : Bytes} {outputs : List Output} {header : Header} {block : Block}

/-! ## The packet under reassembly -/

/-- There is a packet only once there are bytes for it, and never more than it may have. -/
structure Frugal (limits : Decoder.Limits) (r : Receiver) : Prop where
  limits_eq : r.limits = limits
  packet : ∀ p, r.packet = some p → p.chunks ≠ [] ∧ p.length ≤ limits.maxLength

theorem Frugal.of_none (hlimits : r.limits = limits) (hnone : r.packet = none) :
    r.Frugal limits where
  limits_eq := hlimits
  packet p hp := by cases hnone.symm.trans hp

theorem Frugal.of_fail {error : LinkError} (hlimits : r.limits = limits)
    (h : r.fail pool error = (r', q, outputs)) : r'.Frugal limits := by
  cases h
  exact .of_none hlimits rfl

/-- What is done about the current blob is without effect on the packet. -/
theorem Frugal.withPhase (hr : r.Frugal limits) (phase : Phase) :
    { r with phase }.Frugal limits where
  limits_eq := hr.limits_eq
  packet := hr.packet

theorem Frugal.startBlob (hr : r.Frugal limits)
    (h : r.startBlob pool header = .ok (r', q, outputs)) : r'.Frugal limits := by
  unfold Receiver.startBlob at h
  split at h
  · exact .of_fail hr.limits_eq (Except.ok.inj h)
  · split at h
    · exact .of_fail hr.limits_eq (Except.ok.inj h)
    · obtain ⟨q₁, -, heq⟩ := exists_of_bind_eq_ok h
      cases heq
      exact hr.withPhase _

/-- A blob that another one follows has bytes to add, and the packet has room for them. -/
theorem Frugal.acceptBlob (hr : r.Frugal limits) (hmore : header.more → header.length ≠ 0)
    (h : r.acceptBlob pool block header = .ok (r', q, outputs)) : r'.Frugal limits := by
  unfold Receiver.acceptBlob at h
  simp only at h
  split at h
  · cases h
    exact .of_none hr.limits_eq rfl
  · rename_i hfits
    obtain ⟨chunk, hchunk, h⟩ := exists_of_bind_eq_ok h
    have hlength : chunk.length = header.length := by
      rw [Chunk.eq_of_of_eq_ok hchunk]
      exact Nat.add_sub_cancel_left _ _
    split at h
    · refine .of_fail ?_ (Except.ok.inj h)
      exact hr.limits_eq
    · rename_i packet q₁ hpush
      split at h
      · rename_i hheader
        cases h
        refine ⟨hr.limits_eq, ?_⟩
        rintro p ⟨⟩
        have hchunks := Packet.chunks_of_push (hlength ▸ hmore hheader) hpush
        have hmax : r.maxLength = limits.maxLength :=
          congrArg Decoder.Limits.maxLength hr.limits_eq
        refine ⟨hchunks ▸ List.append_ne_nil_of_right_ne_nil _ (List.cons_ne_nil _ _), ?_⟩
        rw [Packet.length_of_push hpush, hlength, ← hmax]
        exact Nat.not_lt.1 hfits
      · cases h
        exact .of_none hr.limits_eq rfl

theorem Frugal.finishBlob (hr : r.Frugal limits) (hmore : header.more → header.length ≠ 0)
    (h : r.finishBlob pool block header = .ok (r', q, outputs)) : r'.Frugal limits := by
  unfold Receiver.finishBlob at h
  obtain ⟨good, -, h⟩ := exists_of_bind_eq_ok h
  split at h
  · exact hr.acceptBlob hmore h
  · cases h
    exact .of_none hr.limits_eq rfl

theorem Frugal.take (hv : r.Valid pool) (hr : r.Frugal limits)
    (h : r.take pool run = .ok (r', q, outputs)) : r'.Frugal limits := by
  unfold Receiver.take at h
  split at h
  · cases h
    exact hr
  · unfold takeHeader at h
    split at h
    · exact hr.startBlob h
    · cases h
      exact hr.withPhase _
  · rename_i block header filled hphase
    obtain ⟨q₁, -, h⟩ := exists_of_bind_eq_ok h
    simp only at h
    split at h
    · have hvalid := hv.phase
      rw [hphase] at hvalid
      exact hr.finishBlob hvalid.1.2 h
    · cases h
      exact hr.withPhase _

/-! ## Bounds -/

/-- What a receiver holds is within its limits, and what it lacks is not nothing. -/
structure WithinLimits (limits : Decoder.Limits) (r : Receiver) (pool : Pool) : Prop where
  header : ∀ received, r.phase = .header received → received.length < 2
  blob : ∀ block header filled, r.phase = .payload block header filled →
    header.blobLength ≤ 6 + limits.maxPayload ∧ header.blobLength ≤ pool.capacity block ∧
      pool.refCount block = 1 ∧ 2 ≤ filled ∧ filled < header.blobLength
  state_ne : r.state ≠ .expectPayload 0
  packet : ∀ p, r.packet = some p → 1 ≤ p.chunks.length ∧ p.chunks.length ≤ Packet.maxChunks ∧
    (p.content pool).length = p.length ∧ p.length ≤ limits.maxLength
  discarded : r.phase = .discard → r.packet = none
  card_handles_le : r.handles.card ≤ Packet.maxChunks + 1

theorem Valid.card_handles_le (hv : r.Valid pool) : r.handles.card ≤ Packet.maxChunks + 1 := by
  have hphase : r.phase.handles.card ≤ 1 := by
    cases r.phase with
    | payload block header filled => exact (Multiset.card_singleton block).le
    | _ => exact Nat.zero_le 1
  rw [handles, Multiset.card_add, Packet.card_handles, Nat.add_comm]
  exact Nat.add_le_add hv.assembled.chunks_le hphase

theorem Unfilled.state_ne (hr : r.Unfilled) : r.state ≠ .expectPayload 0 := by
  unfold Unfilled at hr
  unfold state
  cases hphase : r.phase with
  | header received => nofun
  | payload block header filled =>
      rw [hphase] at hr
      exact fun h => Nat.sub_ne_zero_of_lt hr (RxState.expectPayload.inj h)
  | discard => nofun

theorem Frugal.withinLimits (hr : r.Frugal limits) (hv : r.Valid pool) :
    r.WithinLimits limits pool where
  header received hphase := by
    have hvalid := hv.phase
    rw [hphase] at hvalid
    exact hvalid
  blob block header filled hphase := by
    have hvalid := hv.phase
    rw [hphase] at hvalid
    obtain ⟨⟨hlength, -⟩, hlow, hhigh, hcapacity, hunshared, -⟩ := hvalid
    have hmax : r.maxPayload = limits.maxPayload :=
      congrArg Decoder.Limits.maxPayload hr.limits_eq
    refine ⟨?_, hcapacity, hunshared, hlow, hhigh⟩
    rw [← hmax]
    exact Nat.add_le_add_left hlength 6
  state_ne := hv.unfilled.state_ne
  packet p hp := by
    obtain ⟨hchunks, hlength⟩ := hr.packet p hp
    have hvalid : p.Valid pool := by
      have hassembled := hv.assembled
      rwa [assembled, hp] at hassembled
    exact ⟨List.length_pos_of_ne_nil hchunks, hvalid.chunks_le, hvalid.length_content, hlength⟩
  discarded := hv.discarded
  card_handles_le := hv.card_handles_le

/-! ## Progress -/

/-- A push goes on until no byte is left. -/
theorem Unfilled.visits_of_push (hr : r.Unfilled)
    (h : r.push pool deliver s data = .ok (r', q, s')) : Visits deliver r pool s data r' q [] := by
  induction hn : data.length using Nat.strong_induction_on generalizing r pool s data with
  | _ n ih =>
      by_cases hdata : data = []
      · subst hdata
        cases h
        exact .here _ _ _ _
      · rw [push_eq_run hr hdata] at h
        obtain ⟨⟨r₁, q₁, outputs⟩, htake, h⟩ := exists_of_bind_eq_ok h
        obtain ⟨⟨s₁, q₂⟩, hdeliver, h⟩ := exists_of_bind_eq_ok h
        have hunfilled := hr.take (length_run_le r data) htake
        exact .later hdata htake hdeliver
          (ih _ (hn ▸ hr.length_drop_lt hdata) hunfilled h rfl)

end Receiver

namespace Listener

variable {t : Listener} (keep : List Decoder.Seen → Bool)

/-- What happens to a receiver, and what its application does in between. -/
inductive Action where
  | receive (slice : Slice)
  | transactionEnd
  | reset

def reset (t : Listener) : Listener :=
  let (receiver, pool) := t.receiver.reset t.pool
  { t with receiver, pool }

def act (t : Listener) : Action → Except Fault Listener
  | .receive slice => t.receive keep slice
  | .transactionEnd => .ok t.transactionEnd
  | .reset => .ok t.reset

def actAll (t : Listener) : List Action → Except Fault Listener
  | [] => .ok t
  | action :: rest => do actAll (← t.act keep action) rest

/-- A receiver within its limits: as it is, and at each moment of what it is pushed next, when it
looks at the input that is left. Each look takes some of the input, so the push comes to its end. -/
structure Bounded (limits : Decoder.Limits) (t : Listener) : Prop where
  within : t.receiver.WithinLimits limits t.pool
  visits : ∀ data r q left,
    t.receiver.Visits (Inbox.take keep) t.pool t.inbox data r q left →
      r.WithinLimits limits q ∧ (left ≠ [] → (left.drop (r.wanted left)).length < left.length)
  ends : ∀ data, ∃ r q inbox,
    t.receiver.push t.pool (Inbox.take keep) t.inbox data = .ok (r, q, inbox) ∧
      t.receiver.Visits (Inbox.take keep) t.pool t.inbox data r q []

theorem Sound.bounded (h : t.Sound) (hr : t.receiver.Frugal limits) : t.Bounded keep limits where
  within := hr.withinLimits h.receiver
  visits data r q left hvisits := by
    obtain ⟨hvalid, hfrugal⟩ := hvisits.preserves (Inbox.sink keep) h.receiver trivial
      (h.forSink keep) hr Receiver.Frugal.take
    exact ⟨hfrugal.withinLimits hvalid, hvalid.unfilled.length_drop_lt⟩
  ends data := by
    obtain ⟨r, q, inbox, hpush, -⟩ :=
      Receiver.push_spec (Inbox.sink keep) data h.receiver trivial (h.forSink keep)
    exact ⟨r, q, inbox, hpush, h.receiver.unfilled.visits_of_push hpush⟩

/-- Each action keeps the receiver sound and within its limits. -/
theorem Sound.act (h : t.Sound) (hr : t.receiver.Frugal limits) (action : Action) :
    ∃ t', t.act keep action = .ok t' ∧ t'.Sound ∧ t'.receiver.Frugal limits := by
  cases action with
  | receive slice =>
      obtain ⟨t', hreceive, hsound, -⟩ := receive_spec keep h slice
      refine ⟨t', hreceive, hsound, ?_⟩
      obtain ⟨⟨r, q, inbox⟩, hpush, heq⟩ := exists_of_bind_eq_ok hreceive
      cases heq
      exact ((h.receiver.unfilled.visits_of_push hpush).preserves (Inbox.sink keep) h.receiver
        trivial (h.forSink keep) hr Receiver.Frugal.take).2
  | transactionEnd =>
      refine ⟨_, rfl, (transactionEnd_spec h).1, ?_⟩
      simp only [transactionEnd, Receiver.transactionEnd]
      split
      · exact .of_none hr.limits_eq rfl
      · exact hr.withPhase _
  | reset =>
      obtain ⟨hsound, -, heq⟩ := Receiver.reset_spec h.pool
      have hidle : t.reset.receiver = { t.receiver with phase := .idle, packet := none } := heq
      refine ⟨_, rfl, ⟨?_, ?_⟩, ?_⟩
      · rw [hidle]
        exact Receiver.Valid.idle t.receiver.limits _
      · refine hsound.cast ?_
        rw [hidle]
        exact (zero_add _).symm
      · rw [hidle]
        exact .of_none hr.limits_eq rfl

theorem Sound.actAll (actions : List Action) {t : Listener} (h : t.Sound)
    (hr : t.receiver.Frugal limits) :
    ∃ t', t.actAll keep actions = .ok t' ∧ t'.Sound ∧ t'.receiver.Frugal limits := by
  induction actions generalizing t with
  | nil => exact ⟨t, rfl, h, hr⟩
  | cons action rest ih =>
      obtain ⟨t₁, hact, h₁, hr₁⟩ := h.act keep hr action
      obtain ⟨t', hrest, h', hr'⟩ := ih h₁ hr₁
      refine ⟨t', ?_, h', hr'⟩
      rw [Listener.actAll, hact]
      exact hrest

/-- Whatever comes in, wherever transactions end and whenever the receiver is reset, it stays within
its limits. -/
theorem actAll_fresh_bounded (limits : Decoder.Limits) {classes : List (Nat × Nat)} {pool : Pool}
    (hpool : Pool.ofClasses classes = .ok pool) (hclasses : ∀ c ∈ classes, 1 ≤ c.1 ∧ c.2 ≤ 255)
    (actions : List Action) :
    ∃ t, (fresh limits pool).actAll keep actions = .ok t ∧ t.Bounded keep limits := by
  have hsound : (fresh limits pool).Sound := sound_fresh (Pool.sound_of_ofClasses hpool hclasses)
  obtain ⟨t, hrun, ht, hr⟩ := hsound.actAll keep actions (.of_none rfl rfl)
  exact ⟨t, hrun, ht.bounded keep hr⟩

/-- Eight blobs of one byte each that do not end their packet, and the beginning of a ninth one,
after a blob that a reset cuts. -/
def tinyBlobs : List Action :=
  [.receive { data := (Blob.encode [1, 2] true).take 5 }, .reset,
    .receive { data := (List.replicate 8 (Blob.encode [7] true)).flatten }, .transactionEnd,
    .receive { data := (Blob.encode [7] true).take 3 }]

theorem tinyBlobs_bounded : ∃ t,
    (fresh { maxPayload := 4, maxLength := 64 } ⟨#[.fresh 16 12]⟩).actAll (fun _ => false)
        tinyBlobs = .ok t ∧
      t.Bounded (fun _ => false) { maxPayload := 4, maxLength := 64 } ∧
      t.receiver.assembled.chunks.length = Packet.maxChunks ∧
      t.receiver.handles.card = Packet.maxChunks + 1 := by
  have hpool : Pool.ofClasses [(16, 12)] = .ok ⟨#[.fresh 16 12]⟩ := rfl
  obtain ⟨t, hrun, hbounded⟩ := actAll_fresh_bounded (fun _ => false)
    { maxPayload := 4, maxLength := 64 } hpool (by decide) tinyBlobs
  have hvalue : ((fresh { maxPayload := 4, maxLength := 64 } ⟨#[.fresh 16 12]⟩).actAll
      (fun _ => false) tinyBlobs).toOption.map (fun t =>
        decide (t.receiver.assembled.chunks.length = Packet.maxChunks ∧
          t.receiver.handles.card = Packet.maxChunks + 1)) = some true := by
    decide +kernel
  rw [hrun] at hvalue
  exact ⟨t, hrun, hbounded, of_decide_eq_true (Option.some.inj hvalue)⟩

end Listener

end DockLink
