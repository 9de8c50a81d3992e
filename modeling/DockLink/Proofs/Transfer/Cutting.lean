import DockLink.Proofs.Memory.Contents
import DockLink.Proofs.Wire.Format
import DockLink.Transfer.Segments

/-!
# The blobs of a packet

`cut` is the list of blobs of a stream: full ones that announce another, and a last one that does
not. What `Segments` writes into its buffer, one blob at a time, is this list.
-/

namespace DockLink

variable {pool q : Pool} {others : Multiset Block}

/-- The blobs of a stream, first to last. -/
def Blob.cut (maxPayload : Nat) (stream : Bytes) : List Bytes :=
  if _h : stream.length ≤ maxPayload ∨ maxPayload = 0 then [Blob.encode stream false]
  else Blob.encode (stream.take maxPayload) true :: Blob.cut maxPayload (stream.drop maxPayload)
termination_by stream.length
decreasing_by
  rw [List.length_drop]
  omega

namespace Blob

variable {maxPayload : Nat} {stream : Bytes}

theorem cut_of_le (h : stream.length ≤ maxPayload) : cut maxPayload stream = [encode stream false] := by
  rw [cut, dif_pos (Or.inl h)]

theorem cut_of_gt (hpos : 0 < maxPayload) (h : maxPayload < stream.length) :
    cut maxPayload stream =
      encode (stream.take maxPayload) true :: cut maxPayload (stream.drop maxPayload) := by
  rw [cut, dif_neg (by omega)]

theorem cut_ne_nil (maxPayload : Nat) (stream : Bytes) : cut maxPayload stream ≠ [] := by
  rw [cut]
  split
  · nofun
  · nofun

end Blob

namespace Segments

variable {s : Segments} {packet : Packet}

/-- The blobs that are not cut off yet. -/
def left (s : Segments) (stream : Bytes) : List Bytes :=
  if s.finished then [] else Blob.cut s.maxPayload (stream.drop s.offset)

/-- A packet that is cut within its bounds, into blobs that a header can express. -/
structure Valid (s : Segments) (packet : Packet) : Prop where
  length_eq : s.length = packet.length
  offset_le : s.offset ≤ s.length
  maxPayload_pos : 0 < s.maxPayload
  maxPayload_le : s.maxPayload ≤ Header.maxPayload

theorem Valid.tail (h : s.Valid packet) : s.tail.Valid packet where
  length_eq := h.length_eq
  offset_le := by
    have := h.offset_le
    simp only [Segments.tail, payloadLength]
    omega
  maxPayload_pos := h.maxPayload_pos
  maxPayload_le := h.maxPayload_le

/-- The payload of the next blob. -/
def payload (s : Segments) (stream : Bytes) : Bytes := (stream.drop s.offset).take s.payloadLength

theorem Valid.length_payload (h : s.Valid packet) (hv : packet.Valid pool) :
    (s.payload (packet.content pool)).length = s.payloadLength := by
  have := h.offset_le
  rw [payload, List.length_take, List.length_drop, hv.length_content, ← h.length_eq]
  simp only [payloadLength]
  omega

theorem Valid.left_eq (h : s.Valid packet) (hv : packet.Valid pool) (hf : s.finished = false) :
    s.left (packet.content pool) =
      Blob.encode (s.payload (packet.content pool)) s.more ::
        s.tail.left (packet.content pool) := by
  have hoff := h.offset_le
  have hlen : ((packet.content pool).drop s.offset).length = s.length - s.offset := by
    rw [List.length_drop, hv.length_content, h.length_eq]
  simp only [left, hf, Bool.false_eq_true, if_false]
  by_cases hle : s.length - s.offset ≤ s.maxPayload
  · have hpay : s.payloadLength = s.length - s.offset := Nat.min_eq_left hle
    have hmore : s.more = false := by
      simp only [more, hpay, decide_eq_false_iff_not]
      omega
    rw [Blob.cut_of_le (hlen.trans_le hle), payload, hpay, ← hlen, List.take_length]
    simp [Segments.tail, hmore]
  · have hpay : s.payloadLength = s.maxPayload := Nat.min_eq_right (by omega)
    have hmore : s.more = true := by
      simp only [more, hpay, decide_eq_true_eq]
      omega
    rw [Blob.cut_of_gt h.maxPayload_pos (by omega), payload, hpay, List.drop_drop]
    simp [Segments.tail, hmore, hpay]

theorem Valid.blob_eq (h : s.Valid packet) (hv : packet.Valid pool) :
    s.blob pool packet = .ok (Header.overhead + s.payloadLength,
      Blob.encode (s.payload (packet.content pool)) s.more) := by
  have hlen := h.length_payload hv
  have hle : s.payloadLength ≤ Header.maxPayload :=
    (Nat.min_le_right _ _).trans h.maxPayload_le
  have hmax : (s.payload (packet.content pool)).length ≤ Header.maxPayload := by omega
  have hof := Blob.ofPayload_eq hmax s.more
  rw [hlen] at hof
  rw [blob, Header.ofLength_eq hle, hv.copy_eq]
  exact (if_pos hlen).trans hof

theorem next_of_finished {buffer : Block} (hbuffer : pool.refCount buffer = 1)
    (hf : s.finished = true) : s.next pool packet buffer = .ok (none, pool) := by
  simp [next, hbuffer, hf]
  rfl

theorem next_of_shared {buffer : Block}
    (hshared : pool.refCount buffer ≠ 1) : s.next pool packet buffer = .error .sharedBlock := by
  simp only [next, if_pos hshared]
  rfl

theorem next_of_unfinished {buffer : Block}
    (hbuffer : pool.refCount buffer = 1) (hf : s.finished = false) :
    s.next pool packet buffer = (s.blob pool packet).bind fun r =>
      (pool.write buffer 0 r.2).map fun q => (some (r.1, s.tail), q) := by
  simp only [next, if_neg (not_ne_iff.2 hbuffer), hf]
  cases s.blob pool packet with
  | error fault => rfl
  | ok r => rfl

/-- The end of a packet takes nothing from the pool. -/
theorem eq_of_next_none {buffer : Block} (h : s.next pool packet buffer = .ok (none, q)) :
    q = pool := by
  by_cases hone : pool.refCount buffer = 1
  · cases hf : s.finished with
    | true =>
        rw [next_of_finished hone hf] at h
        cases h
        rfl
    | false =>
        rw [next_of_unfinished hone hf] at h
        obtain ⟨⟨length, bytes⟩, -, h⟩ := exists_of_bind_eq_ok h
        obtain ⟨q', -, heq⟩ := exists_of_map_eq_ok h
        cases heq
  · rw [next_of_shared hone] at h
    cases h

theorem Valid.next_spec (h : s.Valid packet) (hv : packet.Valid pool) {buffer : Block}
    (hs : pool.Sound (buffer ::ₘ others)) (hbuffer : buffer ∉ others)
    (hcap : s.maxBlobLength ≤ pool.capacity buffer) (hf : s.finished = false) :
    ∃ q blob, s.next pool packet buffer = .ok (some (blob.length, s.tail), q) ∧
      q.Sound (buffer ::ₘ others) ∧ pool.Keeps q others ∧
      (q.bytes buffer).take blob.length = blob ∧
      s.left (packet.content pool) = blob :: s.tail.left (packet.content pool) := by
  have hlen : (Blob.encode (s.payload (packet.content pool)) s.more).length =
      Header.overhead + s.payloadLength := by
    rw [Blob.length_encode, h.length_payload hv]
  have hfits : 0 + (Blob.encode (s.payload (packet.content pool)) s.more).length ≤
      pool.capacity buffer := by
    rw [hlen]
    simp only [maxBlobLength, payloadLength] at hcap ⊢
    omega
  obtain ⟨q, hw, hq, hkeeps, hbytes⟩ := hs.write hbuffer hfits
  refine ⟨q, _, ?_, hq, hkeeps, ?_, h.left_eq hv hf⟩
  · rw [next, hs.unshared_iff.2 hbuffer, h.blob_eq hv, hf, hlen]
    simp only [bind, Except.bind, hw]
    rfl
  · rw [hbytes, List.take_zero, List.nil_append, List.take_left]

end Segments

end DockLink
