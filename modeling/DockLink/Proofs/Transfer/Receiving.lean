import DockLink.Proofs.Memory.Contents
import DockLink.Proofs.Transfer.Decoder

/-!
# The receiver reads as the decoder does

A receiver holds one block for the blob in progress and the packet under reassembly. `reading` is
what these stand for: the packet so far and the bytes of the blob, as the decoder has them. Taking a
run of bytes never faults, accounts for every handle, and either meets a missing block or reads what
the decoder reads (`take_reads`).
-/

namespace DockLink

open Reassembly

variable {pool q : Pool} {others : Multiset Block}

namespace Reassembly

def Phase.handles : Phase → Multiset Block
  | .payload block _ _ => {block}
  | _ => 0

/-- A blob in progress has a block of its own that holds its header. -/
def Phase.Valid (maxPayload : Nat) (pool : Pool) : Phase → Prop
  | .header received => received.length < Header.byteLength
  | .payload block h filled =>
    (h.length ≤ maxPayload ∧ (h.more → h.length ≠ 0)) ∧ Header.byteLength ≤ filled ∧
      filled < h.blobLength ∧ h.blobLength ≤ pool.capacity block ∧ pool.refCount block = 1 ∧
      (pool.bytes block).take Header.byteLength = h.toBytes
  | .discard => True

/-- The bytes of the blob in progress. -/
def Phase.pending (pool : Pool) : Phase → Bytes
  | .header received => received
  | .payload block _ filled => (pool.bytes block).take filled
  | .discard => []

def Output.handles : Output → Multiset Block
  | .packet p => p.handles
  | _ => 0

def Output.Valid (pool : Pool) : Output → Prop
  | .packet p => p.Valid pool
  | _ => True

def Output.seen (pool : Pool) : Output → Decoder.Seen
  | .blob => .blob
  | .packet p => .packet (p.content pool)
  | .fault error => .fault error

/-- The handles that go out with outputs. -/
def outgoing (outputs : List Output) : Multiset Block := (outputs.map Output.handles).sum

end Reassembly

namespace Receiver

variable {r : Receiver}

/-- The packet under reassembly. -/
def assembled (r : Receiver) : Packet := r.packet.getD .empty

def handles (r : Receiver) : Multiset Block := r.phase.handles + r.assembled.handles

structure Valid (r : Receiver) (pool : Pool) : Prop where
  phase : r.phase.Valid r.maxPayload pool
  assembled : r.assembled.Valid pool
  discarded : r.phase = .discard → r.packet = none

def limits (r : Receiver) : Decoder.Limits := { maxPayload := r.maxPayload, maxLength := r.maxLength }

def soFar (r : Receiver) (pool : Pool) : Decoder.Partial :=
  { content := r.assembled.content pool, pieces := r.assembled.chunks.length }

/-- The decoder's state that a receiver stands for. -/
def reading (r : Receiver) (pool : Pool) : Decoder.State :=
  match r.phase with
  | .discard => .discard
  | phase => .expect (r.soFar pool) (phase.pending pool)

/-- What a step of the receiver does: it accounts for every handle and keeps what the other handles
show. If no block is missing, it puts out and stands for what is expected. -/
structure Reads (limits : Decoder.Limits) (pool : Pool) (others : Multiset Block)
    (expected : List Decoder.Seen × Decoder.State) (r' : Receiver) (q : Pool)
    (outputs : List Output) : Prop where
  limits_eq : r'.limits = limits
  sound : q.Sound (r'.handles + outgoing outputs + others)
  keeps : pool.Keeps q others
  valid : r'.Valid q
  valid_outputs : ∀ o ∈ outputs, o.Valid q
  read : expected = (outputs.map (Output.seen q), r'.reading q) ∨
    Decoder.GivesOut expected (outputs.map (Output.seen q)) (r'.reading q)

theorem Reads.of_keeps {limits : Decoder.Limits} {pool' : Pool}
    {expected : List Decoder.Seen × Decoder.State} {r' : Receiver} {outputs : List Output}
    (h : Reads limits pool' others expected r' q outputs) (hk : pool.Keeps pool' others) :
    Reads limits pool others expected r' q outputs :=
  { h with keeps := hk.trans h.keeps }

theorem Valid.phase_keeps {maxPayload : Nat} {phase : Phase} (h : phase.Valid maxPayload pool)
    (hk : pool.Keeps q (phase.handles + others)) : phase.Valid maxPayload q := by
  cases phase with
  | header received => exact h
  | discard => trivial
  | payload block header filled =>
      have hmem : block ∈ Phase.handles (.payload block header filled) + others :=
        Multiset.mem_add.2 (Or.inl (Multiset.mem_singleton_self block))
      obtain ⟨hhead, hlow, hhigh, hcap, h1, hbytes⟩ := h
      exact ⟨hhead, hlow, hhigh, (hk.capacity_eq block).symm ▸ hcap, hk.unshared block hmem h1,
        (hk.bytes_eq block hmem).symm ▸ hbytes⟩

theorem Valid.keeps (h : r.Valid pool) (hk : pool.Keeps q (r.handles + others)) : r.Valid q :=
  ⟨Valid.phase_keeps h.phase (hk.cast (add_assoc _ _ _)), h.assembled.keeps hk, h.discarded⟩

theorem soFar_keeps (hk : pool.Keeps q (r.assembled.handles + others)) :
    r.soFar q = r.soFar pool := by
  have := Packet.content_keeps hk fun b hb => Multiset.mem_add.2 (Or.inl hb)
  rw [soFar, soFar, this]

theorem reading_keeps (hk : pool.Keeps q (r.handles + others)) : r.reading q = r.reading pool := by
  have hassembled : pool.Keeps q (r.assembled.handles + (r.phase.handles + others)) :=
    hk.cast (by rw [handles, add_comm r.phase.handles, add_assoc])
  have hpacket := soFar_keeps hassembled
  obtain ⟨maxPayload, maxLength, phase, packet⟩ := r
  cases phase with
  | header received => exact congrArg (Decoder.State.expect · received) hpacket
  | discard => rfl
  | payload block h filled =>
      have hmem : block ∈ Phase.handles (.payload block h filled) := Multiset.mem_singleton_self block
      have hbytes : q.bytes block = pool.bytes block := hk.bytes_eq block
        (Multiset.mem_add.2 (Or.inl (Multiset.mem_add.2 (Or.inl hmem))))
      show Decoder.State.expect _ ((q.bytes block).take filled) = _
      rw [hbytes]
      exact congrArg (Decoder.State.expect · _) hpacket

theorem releasePacket_eq (r : Receiver) (pool : Pool) :
    r.releasePacket pool = r.assembled.release pool := by
  unfold releasePacket assembled
  cases r.packet with
  | none => rfl
  | some p => rfl

/-! ## Giving up -/

/-- A fault gives back what the packet holds. -/
theorem fail_reads (hs : pool.Sound (r.assembled.handles + others)) (error : LinkError) :
    Reads r.limits pool others ([.fault error], .discard) (r.fail pool error).1 (r.fail pool error).2.1
      (r.fail pool error).2.2 := by
  obtain ⟨hsound, hkeeps⟩ := Packet.sound_release hs
  rw [← releasePacket_eq] at hsound hkeeps
  exact {
    limits_eq := rfl
    sound := hsound.cast (by simp [handles, fail, Phase.handles, assembled, outgoing, Output.handles])
    keeps := hkeeps
    valid := ⟨trivial, Packet.Valid.empty _, fun _ => rfl⟩
    valid_outputs := by simp [fail, Output.Valid]
    read := Or.inl rfl }

/-- As `fail_reads`, when a block is given back after the packet. -/
theorem fail_reads_release {block : Block}
    (hs : pool.Sound (r.assembled.handles + block ::ₘ others)) (error : LinkError) :
    Reads r.limits pool others ([.fault error], .discard) (r.fail pool error).1
      ((r.fail pool error).2.1.release block) (r.fail pool error).2.2 := by
  have h := fail_reads hs error
  have hs' : (r.fail pool error).2.1.Sound (block ::ₘ others) :=
    h.sound.cast (by simp [handles, fail, Phase.handles, assembled, outgoing, Output.handles])
  obtain ⟨hsound, hkeeps⟩ := hs'.release
  exact {
    limits_eq := rfl
    sound := hsound.cast (by simp [handles, fail, Phase.handles, assembled, outgoing, Output.handles])
    keeps := (h.keeps.mono fun b hb => Multiset.mem_cons_of_mem hb).trans hkeeps
    valid := ⟨trivial, Packet.Valid.empty _, fun _ => rfl⟩
    valid_outputs := by simp [fail, Output.Valid]
    read := Or.inl rfl }

/-! ## Beginning a blob -/

/-- A header in parts is kept as it is. -/
theorem header_reads (hv : r.assembled.Valid pool)
    (hs : pool.Sound (r.assembled.handles + others)) {received : Bytes}
    (hlen : received.length < Header.byteLength) :
    Reads r.limits pool others (Decoder.scan r.limits (r.soFar pool) received)
      { r with phase := .header received } pool [] := by
  have hshort : Decoder.readBlob r.limits.maxPayload received = .short := by
    match received, hlen with
    | [], _ => rfl
    | [_], _ => rfl
  rw [Decoder.scan_of_short hshort]
  exact {
    limits_eq := rfl
    sound := hs.cast (by simp [handles, Phase.handles, assembled, outgoing])
    keeps := Pool.Keeps.refl _ _
    valid := ⟨hlen, hv, nofun⟩
    valid_outputs := nofun
    read := Or.inl rfl }

theorem startBlob_reads (hv : r.assembled.Valid pool)
    (hs : pool.Sound (r.assembled.handles + others)) (h : Header) :
    ∃ r' q outputs, r.startBlob pool h = .ok (r', q, outputs) ∧
      Reads r.limits pool others (Decoder.scan r.limits (r.soFar pool) h.toBytes) r' q outputs := by
  by_cases hhead : h.length > r.maxPayload ∨ (h.more ∧ h.length = 0)
  · have hbad : Decoder.readBlob r.limits.maxPayload h.toBytes = .bad .lengthOutOfRange := by
      rw [← List.append_nil h.toBytes, Decoder.readBlob_toBytes]
      exact Decoder.readBody_of_rejected hhead []
    rw [Decoder.scan_of_bad hbad]
    exact ⟨_, _, _, by rw [startBlob, if_pos hhead], fail_reads hs _⟩
  · have hshort : Decoder.readBlob r.limits.maxPayload h.toBytes = .short := by
      rw [← List.append_nil h.toBytes, Decoder.readBlob_toBytes]
      exact Decoder.readBody_of_short hhead (Nat.succ_pos _)
    rw [Decoder.scan_of_short hshort]
    cases ha : pool.allocate h.blobLength with
    | error e =>
        refine ⟨_, _, _, by rw [startBlob, if_neg hhead, ha], ?_⟩
        exact { fail_reads hs .outOfMemory with
          read := Or.inr ⟨fun h => (by cases h), rfl, rfl⟩ }
    | ok found =>
        obtain ⟨block, q⟩ := found
        obtain ⟨hnew, hq, hkeep, hcap⟩ := hs.allocate ha
        have hlen : 0 + h.toBytes.length ≤ q.capacity block := by
          simp only [Header.length_toBytes, Header.blobLength_eq, Header.covered] at hcap ⊢
          omega
        obtain ⟨q', hw, hq', hkeep', hbytes⟩ := hq.write hnew hlen
        have hkeeps := hkeep.trans hkeep'
        have hpre : (q'.bytes block).take Header.byteLength = h.toBytes := by
          rw [hbytes, List.take_zero, List.nil_append]
          exact List.take_left' h.length_toBytes
        refine ⟨{ r with phase := .payload block h Header.byteLength }, q', [], ?_, ?_⟩
        · rw [startBlob, if_neg hhead, ha]
          simp only [hw]
          rfl
        · exact {
            limits_eq := rfl
            sound := hq'.cast (by
              simp [handles, Phase.handles, assembled, outgoing, Multiset.singleton_add])
            keeps := hkeeps.mono fun b hb => Multiset.mem_add.2 (Or.inr hb)
            valid := by
              refine ⟨⟨?_, le_refl _, ?_, ?_, hq'.unshared_iff.2 hnew, hpre⟩, hv.keeps hkeeps,
                fun h => by cases h⟩
              · rw [not_or, not_and] at hhead
                exact ⟨Nat.not_lt.1 hhead.1, hhead.2⟩
              · simp only [Header.blobLength, Header.overhead, Header.byteLength, Header.crcLength]
                omega
              · rwa [hkeep'.capacity_eq]
            valid_outputs := fun _ h => absurd h List.not_mem_nil
            read := Or.inl (by
              rw [← hpre, ← soFar_keeps hkeeps]
              rfl) }

/-! ## Ending a blob -/

/-- The packet with the blob's payload is kept, or put out after the last blob. -/
theorem accepted_reads {p : Packet} {whole : Decoder.Partial} (hp : p.Valid q)
    (hq : q.Sound (p.handles + others)) (hk : pool.Keeps q others)
    (hwhole : whole = { content := p.content q, pieces := p.chunks.length }) (more : Bool) :
    ∃ r' outputs,
      (if more then pure ({ r with phase := .idle, packet := some p }, q, [.blob])
        else pure ({ r with phase := .idle, packet := none }, q, [.blob, .packet p]) : Result) =
          .ok (r', q, outputs) ∧
      Reads r.limits pool others
        (if more then ([.blob], .expect whole [])
          else ([.blob, .packet whole.content], .expect {} [])) r' q outputs := by
  subst hwhole
  cases more with
  | true =>
      refine ⟨_, _, rfl, ?_⟩
      exact {
        limits_eq := rfl
        sound := hq.cast (by
          simp [handles, Phase.idle, Phase.handles, assembled, outgoing, Output.handles])
        keeps := hk
        valid := ⟨Nat.succ_pos _, hp, nofun⟩
        valid_outputs := by simp [Output.Valid]
        read := Or.inl rfl }
  | false =>
      refine ⟨_, _, rfl, ?_⟩
      exact {
        limits_eq := rfl
        sound := hq.cast (by
          simp [handles, Phase.idle, Phase.handles, assembled, outgoing, Output.handles])
        keeps := hk
        valid := ⟨Nat.succ_pos _, Packet.Valid.empty q, nofun⟩
        valid_outputs := by simp [Output.Valid, hp]
        read := Or.inl rfl }

theorem acceptBlob_of_long {block : Block} {h : Header}
    (hlong : r.assembled.length + h.length > r.maxLength) :
    r.acceptBlob pool block h =
      .ok (({ r with packet := some r.assembled }.fail pool .lengthOutOfRange).1,
        ({ r with packet := some r.assembled }.fail pool .lengthOutOfRange).2.1.release block,
        ({ r with packet := some r.assembled }.fail pool .lengthOutOfRange).2.2) :=
  if_pos hlong

theorem acceptBlob_of_fits {block : Block} {h : Header}
    (hfits : ¬r.assembled.length + h.length > r.maxLength) (hcap : h.covered ≤ pool.capacity block) :
    r.acceptBlob pool block h =
      match r.assembled.push pool ⟨block, Header.byteLength, h.covered⟩ with
      | .error chunk =>
        pure ({ r with packet := some r.assembled }.fail (pool.release chunk.block) .lengthOutOfRange)
      | .ok (packet, pool) =>
        if h.more then pure ({ r with phase := .idle, packet := some packet }, pool, [.blob])
        else pure ({ r with phase := .idle, packet := none }, pool, [.blob, .packet packet]) := by
  refine (if_neg hfits).trans ?_
  have hof : Chunk.of pool block Header.byteLength h.covered =
      .ok ⟨block, Header.byteLength, h.covered⟩ := if_pos ⟨Nat.le_add_right _ _, hcap⟩
  rw [hof]
  rfl

theorem acceptBlob_reads (hv : r.assembled.Valid pool) {block : Block} {h : Header}
    (hs : pool.Sound (r.assembled.handles + block ::ₘ others))
    (hcap : h.covered ≤ pool.capacity block) :
    ∃ r' q outputs, r.acceptBlob pool block h = .ok (r', q, outputs) ∧
      Reads r.limits pool others
        (Decoder.accept r.limits (r.soFar pool)
          (((pool.bytes block).take h.covered).drop Header.byteLength) h.more) r' q outputs := by
  have hcontent := hv.length_content
  have hcovered : h.covered = Header.byteLength + h.length := rfl
  have hpayload : (((pool.bytes block).take h.covered).drop Header.byteLength).length = h.length := by
    rw [List.length_drop, List.length_take, Pool.length_bytes]
    omega
  generalize hpay : ((pool.bytes block).take h.covered).drop Header.byteLength = payload at *
  have hs' : pool.Sound (block ::ₘ (r.assembled.handles + others)) :=
    hs.cast (Multiset.add_cons _ _ _)
  have hlength : (r.soFar pool).content.length = r.assembled.length := hcontent
  have hpieces : (r.soFar pool).pieces = r.assembled.chunks.length := rfl
  by_cases hlong : r.assembled.length + h.length > r.maxLength
  · have hadd : (r.soFar pool).add r.limits payload = none := by
      rw [Decoder.Partial.add, hlength, hpayload]
      exact if_pos hlong
    rw [acceptBlob_of_long hlong, Decoder.accept, hadd]
    exact ⟨_, _, _, rfl, fail_reads_release (r := { r with packet := some r.assembled }) hs _⟩
  · rw [acceptBlob_of_fits hlong hcap, Decoder.accept]
    have hadd : (r.soFar pool).add r.limits payload =
        if payload.isEmpty then some (r.soFar pool)
        else if (r.soFar pool).pieces < Packet.maxChunks then
          some { content := (r.soFar pool).content ++ payload, pieces := (r.soFar pool).pieces + 1 }
        else none := by
      rw [Decoder.Partial.add, hlength, hpayload]
      exact if_neg hlong
    rw [hadd]
    have hlen : (Chunk.mk block Header.byteLength h.covered).length = h.length :=
      Nat.add_sub_cancel_left _ _
    by_cases hzero : h.length = 0
    · have hempty : payload.isEmpty := List.isEmpty_iff_length_eq_zero.2 (hpayload.trans hzero)
      obtain ⟨hsound, hkeeps⟩ := hs'.release
      rw [Packet.push_of_length_zero (hlen.trans hzero), if_pos hempty]
      obtain ⟨r', outputs, hok, hreads⟩ := accepted_reads (r := r) (hv.keeps hkeeps) hsound
        (hkeeps.mono fun b hb => Multiset.mem_add.2 (Or.inr hb)) (soFar_keeps hkeeps).symm h.more
      exact ⟨r', _, outputs, hok, hreads⟩
    · have hnonempty : ¬payload.isEmpty := by
        rw [List.isEmpty_iff_length_eq_zero]
        omega
      rw [if_neg hnonempty]
      have hchunk : Chunk.Valid pool ⟨block, Header.byteLength, h.covered⟩ :=
        ⟨by simp only [hcovered]; omega, hcap⟩
      have hbytes : Chunk.bytes pool ⟨block, Header.byteLength, h.covered⟩ = payload := by
        rw [Chunk.bytes_eq, hpay]
      by_cases hroom : r.assembled.chunks.length < Packet.maxChunks
      · obtain ⟨p, hpush, hp, hhandles, hcontent', -, hchunks⟩ := hv.push hchunk hroom
        rw [hpush, if_pos (hpieces ▸ hroom)]
        have hsound : pool.Sound (p.handles + others) :=
          hs'.cast (by rw [hhandles, Multiset.cons_add])
        have hwhole : Decoder.Partial.mk ((r.soFar pool).content ++ payload)
            ((r.soFar pool).pieces + 1) = { content := p.content pool, pieces := p.chunks.length } := by
          rw [hcontent', hchunks, hbytes]
          rfl
        obtain ⟨r', outputs, hok, hreads⟩ := accepted_reads (r := r) hp hsound (Pool.Keeps.refl _ _)
          hwhole h.more
        exact ⟨r', _, outputs, hok, hreads⟩
      · obtain ⟨hsound, hkeeps⟩ := hs'.release
        rw [Packet.push_eq_error (hlen.trans_ne hzero) (Nat.not_lt.1 hroom),
          if_neg (hpieces ▸ hroom)]
        have hreads := fail_reads (r := { r with packet := some r.assembled }) hsound
          .lengthOutOfRange
        exact ⟨_, _, _, rfl, { hreads with
          keeps := (hkeeps.mono fun b hb => Multiset.mem_add.2 (Or.inr hb)).trans hreads.keeps }⟩

/-- A whole blob is read as its bytes are. -/
theorem finishBlob_reads (hv : r.assembled.Valid pool) {block : Block} {h : Header}
    (hs : pool.Sound (r.assembled.handles + block ::ₘ others))
    (hhead : ¬(h.length > r.maxPayload ∨ (h.more ∧ h.length = 0)))
    (hcap : h.blobLength ≤ pool.capacity block)
    (hpre : (pool.bytes block).take Header.byteLength = h.toBytes) :
    ∃ r' q outputs, r.finishBlob pool block h = .ok (r', q, outputs) ∧
      Reads r.limits pool others
        (Decoder.scan r.limits (r.soFar pool) ((pool.bytes block).take h.blobLength))
        r' q outputs := by
  have hblob := h.blobLength_eq
  have hlow : Header.byteLength ≤ h.blobLength := by
    rw [hblob, Header.covered]
    omega
  have hlen : ((pool.bytes block).take h.blobLength).length = h.blobLength := by
    rw [List.length_take, Pool.length_bytes, Nat.min_eq_left hcap]
  have htake : ((pool.bytes block).take h.blobLength).take h.covered =
      (pool.bytes block).take h.covered := by
    rw [List.take_take, Nat.min_eq_left (by omega)]
  have hread := Decoder.readBlob_whole (m := r.limits.maxPayload) hlen hhead
    (by rw [List.take_take, Nat.min_eq_left hlow, hpre])
  have hverify : Blob.verify (pool.read block 0 h.blobLength) h = .ok
      (((pool.bytes block).take h.blobLength).drop h.covered ==
        Bytes.ofWord32 (Crc.ofBytes ((pool.bytes block).take h.covered))) := by
    rw [Pool.read_eq, List.drop_zero, Blob.verify_eq hlen, htake]
  rw [htake] at hread
  rw [finishBlob, hverify]
  by_cases hcrc : ((pool.bytes block).take h.blobLength).drop h.covered =
      Bytes.ofWord32 (Crc.ofBytes ((pool.bytes block).take h.covered))
  · rw [if_pos hcrc] at hread
    rw [Decoder.scan_eq_accept hread, hcrc, beq_self_eq_true]
    exact acceptBlob_reads hv hs (by omega)
  · rw [if_neg hcrc] at hread
    rw [Decoder.scan_of_bad hread, beq_false_of_ne hcrc]
    exact ⟨_, _, _, rfl, fail_reads_release hs _⟩

/-! ## Taking a run of bytes -/

theorem takeHeader_reads (hv : r.assembled.Valid pool)
    (hs : pool.Sound (r.assembled.handles + others)) {received : Bytes}
    (hlen : received.length ≤ Header.byteLength) :
    ∃ r' q outputs, r.takeHeader pool received = .ok (r', q, outputs) ∧
      Reads r.limits pool others (Decoder.scan r.limits (r.soFar pool) received) r' q outputs := by
  match received, hlen with
  | [b₀, b₁], _ =>
      have hreads := startBlob_reads hv hs (.ofBytes b₀ b₁)
      rwa [Header.toBytes_ofBytes] at hreads
  | [], _ =>
      refine ⟨_, _, _, rfl, ?_⟩
      exact header_reads hv hs (Nat.succ_pos _)
  | [b₀], _ =>
      refine ⟨_, _, _, rfl, ?_⟩
      exact header_reads hv hs (Nat.lt_succ_self _)

theorem takePayload_reads (hv : r.assembled.Valid pool) {block : Block} {h : Header} {filled : Nat}
    (hphase : (Phase.payload block h filled).Valid r.maxPayload pool)
    (hs : pool.Sound (block ::ₘ (r.assembled.handles + others))) {run : Bytes}
    (hlen : filled + run.length ≤ h.blobLength) :
    ∃ r' q outputs, r.takePayload pool block h filled run = .ok (r', q, outputs) ∧
      Reads r.limits pool others
        (Decoder.scan r.limits (r.soFar pool) ((pool.bytes block).take filled ++ run))
        r' q outputs := by
  obtain ⟨hok, hlow, hhigh, hcap, h1, hpre⟩ := hphase
  have hhead : ¬(h.length > r.maxPayload ∨ (h.more ∧ h.length = 0)) := by
    rintro (hlong | ⟨hmore, hzero⟩)
    · exact absurd hok.1 (Nat.not_le.2 hlong)
    · exact hok.2 hmore hzero
  have hnot := hs.unshared_iff.1 h1
  obtain ⟨q, hw, hq, hkeep, hbytes⟩ := hs.write hnot (hlen.trans hcap)
  have hothers : pool.Keeps q others := hkeep.mono fun b hb => Multiset.mem_add.2 (Or.inr hb)
  have hcap' : h.blobLength ≤ q.capacity block := (hkeep.capacity_eq block).symm ▸ hcap
  have hfilled : ((pool.bytes block).take filled).length = filled := by
    rw [List.length_take, Pool.length_bytes]
    omega
  have hnow : (q.bytes block).take (filled + run.length) =
      (pool.bytes block).take filled ++ run := by
    rw [hbytes]
    exact List.take_left' (by rw [List.length_append, hfilled])
  have hpre' : (q.bytes block).take Header.byteLength = h.toBytes := by
    rw [← hpre, hbytes, List.append_assoc,
      List.take_append_of_le_length (by rw [hfilled]; exact hlow), List.take_take,
      Nat.min_eq_left hlow]
  rw [← hnow, ← soFar_keeps hkeep, takePayload, hw]
  by_cases hdone : filled + run.length = h.blobLength
  · obtain ⟨r', q', outputs, hfinish, hreads⟩ := finishBlob_reads (hv.keeps hkeep)
      (hq.cast (Multiset.add_cons _ _ _).symm) hhead hcap' hpre'
    have hreads' := hreads.of_keeps hothers
    rw [← hdone] at hreads'
    exact ⟨r', q', outputs, (if_pos hdone).trans hfinish, hreads'⟩
  · have hlt : filled + run.length < h.blobLength := Nat.lt_of_le_of_ne hlen hdone
    have hshort : Decoder.readBlob r.limits.maxPayload ((q.bytes block).take (filled + run.length)) =
        .short := by
      refine Decoder.readBlob_part ?_ hhead ?_
      · rw [List.length_take, Pool.length_bytes]
        omega
      · rw [List.take_take, Nat.min_eq_left (Nat.le_add_right_of_le hlow), hpre']
    rw [Decoder.scan_of_short hshort]
    refine ⟨{ r with phase := .payload block h (filled + run.length) }, q, [], if_neg hdone, ?_⟩
    exact {
      limits_eq := rfl
      sound := hq.cast (by
        simp [handles, Phase.handles, assembled, outgoing, Multiset.singleton_add])
      keeps := hothers
      valid := ⟨⟨hok, Nat.le_add_right_of_le hlow, hlt, hcap', hq.unshared_iff.2 hnot, hpre'⟩,
        hv.keeps hkeep, nofun⟩
      valid_outputs := nofun
      read := Or.inl rfl }

/-- A run of bytes, no longer than wanted, is read as the decoder reads it. -/
theorem take_reads (hv : r.Valid pool) (hs : pool.Sound (r.handles + others)) {run : Bytes}
    (hrun : run.length ≤ r.wanted run) :
    ∃ r' q outputs, r.take pool run = .ok (r', q, outputs) ∧
      Reads r.limits pool others ((r.reading pool).push r.limits run) r' q outputs := by
  obtain ⟨maxPayload, maxLength, phase, packet⟩ := r
  cases phase with
  | header received =>
      have hlt : received.length < Header.byteLength := hv.phase
      refine takeHeader_reads hv.assembled (hs.cast ?_) ?_
      · simp [handles, Phase.handles, assembled]
      · simp only [wanted] at hrun
        rw [List.length_append]
        omega
  | payload block h filled =>
      have hhigh : filled < h.blobLength := hv.phase.2.2.1
      refine takePayload_reads hv.assembled hv.phase (hs.cast ?_) ?_
      · rw [handles, add_assoc]
        exact Multiset.singleton_add _ _
      · simp only [wanted] at hrun
        omega
  | discard =>
      refine ⟨_, _, _, rfl, ?_⟩
      exact {
        limits_eq := rfl
        sound := hs.cast (by simp [outgoing])
        keeps := Pool.Keeps.refl _ _
        valid := hv
        valid_outputs := nofun
        read := Or.inl rfl }

/-- Between two runs the input gives nothing to read. -/
theorem reading_settled (hv : r.Valid pool) :
    (r.reading pool).push r.limits [] = ([], r.reading pool) := by
  obtain ⟨maxPayload, maxLength, phase, packet⟩ := r
  cases phase with
  | header received =>
      simp only [reading, Decoder.State.push, Phase.pending, List.append_nil]
      refine Decoder.scan_of_short ?_
      have hshort : received.length < Header.byteLength := hv.phase
      cases received with
      | nil => rfl
      | cons b rest =>
          cases rest with
          | nil => rfl
          | cons c rest => exact absurd hshort (Nat.not_lt.2 (Nat.le_add_left _ _))
  | payload block h filled =>
      obtain ⟨hok, hlow, hhigh, hcap, -, hpre⟩ := hv.phase
      simp only [reading, Decoder.State.push, Phase.pending, List.append_nil]
      refine Decoder.scan_of_short (Decoder.readBlob_part (h := h) ?_ ?_ ?_)
      · rw [List.length_take, Pool.length_bytes]
        omega
      · rintro (hlong | ⟨hmore, hzero⟩)
        · exact absurd hok.1 (Nat.not_le.2 hlong)
        · exact hok.2 hmore hzero
      · rw [List.take_take, Nat.min_eq_left hlow, hpre]
  | discard => rfl

theorem wanted_pos (hv : r.Valid pool) {data : Bytes} (hdata : data ≠ []) : 0 < r.wanted data := by
  obtain ⟨maxPayload, maxLength, phase, packet⟩ := r
  cases phase with
  | header received => exact Nat.sub_pos_of_lt hv.phase
  | payload block h filled => exact Nat.sub_pos_of_lt hv.phase.2.2.1
  | discard => exact List.length_pos_of_ne_nil hdata

/-! ## Ending a transaction -/

/-- Gives back what is there of a blob and of a packet. -/
theorem reset_spec (hs : pool.Sound (r.handles + others)) :
    (r.reset pool).2.Sound others ∧ pool.Keeps (r.reset pool).2 others ∧
      (r.reset pool).1 = { r with phase := .idle, packet := none } := by
  have hblob : (r.releaseBlob pool).Sound (r.assembled.handles + others) ∧
      pool.Keeps (r.releaseBlob pool) (r.assembled.handles + others) := by
    rw [handles, add_assoc] at hs
    obtain ⟨maxPayload, maxLength, phase, packet⟩ := r
    cases phase with
    | header received => exact ⟨hs.cast (zero_add _), Pool.Keeps.refl _ _⟩
    | discard => exact ⟨hs.cast (zero_add _), Pool.Keeps.refl _ _⟩
    | payload block h filled => exact (hs.cast (Multiset.singleton_add _ _)).release
  obtain ⟨hsound, hkeeps⟩ := Packet.sound_release hblob.1
  rw [← releasePacket_eq] at hsound hkeeps
  exact ⟨hsound, (hblob.2.mono fun b hb => Multiset.mem_add.2 (Or.inr hb)).trans hkeeps, rfl⟩

theorem Valid.idle (limits : Decoder.Limits) (pool : Pool) :
    Receiver.Valid { maxPayload := limits.maxPayload, maxLength := limits.maxLength } pool :=
  ⟨Nat.succ_pos _, Packet.Valid.empty pool, nofun⟩

theorem finish_of_cut (hv : r.Valid pool) (hcut : r.isCut) :
    (r.reading pool).finish = ([.fault .channelAborted], {}) := by
  obtain ⟨maxPayload, maxLength, phase, packet⟩ := r
  cases phase with
  | header received =>
      cases received with
      | nil => cases hcut
      | cons b rest => rfl
  | discard => cases hcut
  | payload block h filled =>
      obtain ⟨-, hlow, hhigh, hcap, -, -⟩ := hv.phase
      have hpos : 0 < ((pool.bytes block).take filled).length := by
        rw [List.length_take, Pool.length_bytes]
        exact Nat.lt_min.2 ⟨Nat.lt_of_lt_of_le (Nat.succ_pos _) hlow, by omega⟩
      simp only [reading, Phase.pending]
      cases hp : (pool.bytes block).take filled with
      | nil => rw [hp] at hpos; cases hpos
      | cons b rest => rfl

/-- The end of a transaction is read as the decoder reads it. -/
theorem transactionEnd_spec (hv : r.Valid pool) (hs : pool.Sound (r.handles + others)) :
    ∃ error r' q, r.transactionEnd pool = (error, r', q) ∧ q.Sound (r'.handles + others) ∧
      pool.Keeps q others ∧ r'.Valid q ∧ r'.limits = r.limits ∧
      (r.reading pool).finish = (error.toList.map .fault, r'.soFar q) ∧
      r'.reading q = .expect (r'.soFar q) [] := by
  cases hcut : r.isCut with
  | true =>
      obtain ⟨hsound, hkeeps, hr⟩ := reset_spec hs
      refine ⟨some .channelAborted, (r.reset pool).1, (r.reset pool).2, ?_, ?_, hkeeps, ?_, ?_, ?_, ?_⟩
      · rw [transactionEnd, if_pos hcut]
      · exact hsound.cast (by rw [hr]; simp [handles, Phase.idle, Phase.handles, assembled])
      · rw [hr]
        exact Valid.idle r.limits _
      · rw [hr]
        rfl
      · rw [finish_of_cut hv hcut, hr]
        rfl
      · rw [hr]
        rfl
  | false =>
      refine ⟨none, { r with phase := .idle }, pool, ?_, ?_, Pool.Keeps.refl _ _, ?_, rfl, ?_, rfl⟩
      · rw [transactionEnd, hcut]
        rfl
      · have hphase : r.phase.handles = 0 := by
          unfold isCut at hcut
          cases hp : r.phase with
          | header received => rfl
          | discard => rfl
          | payload block h filled => rw [hp] at hcut; cases hcut
        refine hs.cast ?_
        rw [handles, handles, hphase]
        rfl
      · exact ⟨Nat.succ_pos _, hv.assembled, nofun⟩
      · obtain ⟨maxPayload, maxLength, phase, packet⟩ := r
        cases phase with
        | header received =>
            cases received with
            | nil => rfl
            | cons b rest => cases hcut
        | payload block h filled => cases hcut
        | discard =>
            obtain rfl : packet = none := hv.discarded rfl
            rfl

end Receiver

end DockLink
