import DockLink.Transfer.Reassembly
import DockLink.Proofs.Wire.Format

/-!
# The decoder of whole transactions

What a receiver should make of its input, told without its phases and blocks: a transaction is read
at once, blob after blob, and only the packet in parts is carried over to the next one. `scan`
stops where the input ends, so that the same function tells what is known of a transaction that goes
on; reading in two parts is then reading at once (`scan_append`).
-/

namespace DockLink.Decoder

structure Limits where
  maxPayload : Nat
  maxLength : Nat

/-- The blobs of a packet that is not complete: their bytes, and the number of those with bytes. -/
structure Partial where
  content : Bytes := []
  pieces : Nat := 0
deriving DecidableEq

inductive Seen where
  | blob
  | packet (content : Bytes)
  | fault (error : LinkError)
deriving DecidableEq

/-- What stands at the front of the input. -/
inductive Front where
  | short
  | bad (error : LinkError)
  | good (payload : Bytes) (more : Bool) (rest : Bytes)
deriving DecidableEq

/-- Reads the payload and the checksum that a header calls for. -/
def readBody (maxPayload : Nat) (h : Header) (body : Bytes) : Front :=
  if h.length > maxPayload ∨ (h.more ∧ h.length = 0) then .bad .lengthOutOfRange
  else if body.length < h.length + Header.crcLength then .short
  else if (body.drop h.length).take Header.crcLength =
      Bytes.ofWord32 (Crc.ofBytes (h.toBytes ++ body.take h.length)) then
    .good (body.take h.length) h.more (body.drop (h.length + Header.crcLength))
  else .bad .crcMismatch

/-- Reads a blob. -/
def readBlob (maxPayload : Nat) : Bytes → Front
  | b₀ :: b₁ :: body => readBody maxPayload (.ofBytes b₀ b₁) body
  | _ => .short

/-- The packet with one more blob, if the limits allow it. -/
def Partial.add (limits : Limits) (p : Partial) (payload : Bytes) : Option Partial :=
  if p.content.length + payload.length > limits.maxLength then none
  else if payload.isEmpty then some p
  else if p.pieces < Packet.maxChunks then
    some { content := p.content ++ payload, pieces := p.pieces + 1 }
  else none

/-- How far a transaction is read. -/
inductive State where
  /-- The packet so far, and the bytes of the blob that is not complete. -/
  | expect (p : Partial) (rest : Bytes)
  | discard
deriving DecidableEq

theorem length_le_of_readBody {m : Nat} {h : Header} {body payload rest : Bytes} {more : Bool}
    (hr : readBody m h body = .good payload more rest) : rest.length ≤ body.length := by
  unfold readBody at hr
  split at hr
  · cases hr
  · split at hr
    · cases hr
    · split at hr
      · cases hr
        rw [List.length_drop]
        exact Nat.sub_le _ _
      · cases hr

theorem length_lt_of_readBlob {m : Nat} {bytes payload rest : Bytes} {more : Bool}
    (h : readBlob m bytes = .good payload more rest) : rest.length < bytes.length := by
  unfold readBlob at h
  split at h
  · have := length_le_of_readBody h
    simp only [List.length_cons]
    omega
  · cases h

/-- Reads blob after blob. -/
def scan (limits : Limits) (p : Partial) (bytes : Bytes) : List Seen × State :=
  match _h : readBlob limits.maxPayload bytes with
  | .short => ([], .expect p bytes)
  | .bad error => ([.fault error], .discard)
  | .good payload more rest =>
    match p.add limits payload with
    | none => ([.fault .lengthOutOfRange], .discard)
    | some whole =>
      if more then (.blob :: (scan limits whole rest).1, (scan limits whole rest).2)
      else
        (.blob :: .packet whole.content :: (scan limits {} rest).1, (scan limits {} rest).2)
termination_by bytes.length
decreasing_by all_goals exact length_lt_of_readBlob _h

/-- What the end of a transaction adds, and what is left for the next one. -/
def State.finish : State → List Seen × Partial
  | .expect p [] => ([], p)
  | .expect _ (_ :: _) => ([.fault .channelAborted], {})
  | .discard => ([], {})

/-- Reads a whole transaction. -/
def transaction (limits : Limits) (p : Partial) (bytes : Bytes) : List Seen × Partial :=
  let (seen, state) := scan limits p bytes
  let (last, p) := state.finish
  (seen ++ last, p)

/-- Reads transactions one after another. -/
def transactions (limits : Limits) : Partial → List Bytes → List Seen
  | _, [] => []
  | p, bytes :: rest =>
    let (seen, p) := transaction limits p bytes
    seen ++ transactions limits p rest

/-- Reads on. -/
def State.push (limits : Limits) : State → Bytes → List Seen × State
  | .expect p rest, data => scan limits p (rest ++ data)
  | .discard, _ => ([], .discard)

/-- A reading that ends in want of memory: what was expected, and then the fault. -/
def GivesOut (expected : List Seen × State) (seen : List Seen) (s : State) : Prop :=
  expected.2 ≠ .discard ∧ seen = expected.1 ++ [.fault .outOfMemory] ∧ s = .discard

/-- Reads on with memory that may run out at some point of the input. -/
def State.Takes (limits : Limits) (s : State) (data : Bytes) (seen : List Seen) (s' : State) :
    Prop :=
  s.push limits data = (seen, s') ∨
    ∃ k ≤ data.length, GivesOut (s.push limits (data.take k)) seen s'

variable {limits : Limits} {m : Nat}

/-! ## One blob -/

theorem readBody_of_rejected {h : Header} (hhead : h.length > m ∨ (h.more ∧ h.length = 0))
    (body : Bytes) : readBody m h body = .bad .lengthOutOfRange := if_pos hhead

theorem readBody_of_short {h : Header} {body : Bytes}
    (hhead : ¬(h.length > m ∨ (h.more ∧ h.length = 0)))
    (hlen : body.length < h.length + Header.crcLength) : readBody m h body = .short := by
  rw [readBody, if_neg hhead, if_pos hlen]

theorem readBlob_toBytes (h : Header) (body : Bytes) :
    readBlob m (h.toBytes ++ body) = readBody m h body :=
  congrArg (readBody m · body) h.ofBytes_toBytes

/-- A blob that is not whole. -/
theorem readBlob_part {buffer : Bytes} {h : Header} (hlen : buffer.length < h.blobLength)
    (hhead : ¬(h.length > m ∨ (h.more ∧ h.length = 0)))
    (hpre : buffer.take Header.byteLength = h.toBytes) : readBlob m buffer = .short := by
  obtain ⟨body, rfl⟩ : ∃ body, buffer = h.toBytes ++ body :=
    ⟨buffer.drop Header.byteLength, by rw [← hpre, List.take_append_drop]⟩
  rw [readBlob_toBytes]
  refine readBody_of_short hhead ?_
  have := h.blobLength_eq
  rw [List.length_append, h.length_toBytes] at hlen
  simp only [Header.covered] at this
  omega

/-- A blob with nothing behind it. -/
theorem readBlob_whole {buffer : Bytes} {h : Header} (hlen : buffer.length = h.blobLength)
    (hhead : ¬(h.length > m ∨ (h.more ∧ h.length = 0)))
    (hpre : buffer.take Header.byteLength = h.toBytes) :
    readBlob m buffer =
      if buffer.drop h.covered = Bytes.ofWord32 (Crc.ofBytes (buffer.take h.covered)) then
        .good ((buffer.take h.covered).drop Header.byteLength) h.more []
      else .bad .crcMismatch := by
  obtain ⟨body, rfl⟩ : ∃ body, buffer = h.toBytes ++ body :=
    ⟨buffer.drop Header.byteLength, by rw [← hpre, List.take_append_drop]⟩
  have hbody : body.length = h.length + Header.crcLength := by
    have := h.blobLength_eq
    rw [List.length_append, h.length_toBytes] at hlen
    simp only [Header.covered] at this
    omega
  have htake : (h.toBytes ++ body).take h.covered = h.toBytes ++ body.take h.length := by
    rw [Header.covered, ← h.length_toBytes, List.take_length_add_append]
  have hdrop : (h.toBytes ++ body).drop h.covered = body.drop h.length := by
    rw [Header.covered, ← h.length_toBytes, List.drop_length_add_append]
  have hcrc : (body.drop h.length).take Header.crcLength = body.drop h.length :=
    List.take_of_length_le (by rw [List.length_drop, hbody, Nat.add_sub_cancel_left])
  rw [readBlob_toBytes, readBody, if_neg hhead, if_neg (by omega), htake, hdrop, hcrc,
    List.drop_left' h.length_toBytes, List.drop_of_length_le (Nat.le_of_eq hbody)]

/-- What is read stays so when more input comes, unless there was too little. -/
theorem readBody_append {h : Header} {a : Bytes} (ha : readBody m h a ≠ .short) (b : Bytes) :
    readBody m h (a ++ b) = match readBody m h a with
      | .good payload more rest => .good payload more (rest ++ b)
      | front => front := by
  unfold readBody at *
  by_cases hhead : h.length > m ∨ (h.more ∧ h.length = 0)
  · rw [if_pos hhead, if_pos hhead]
  · rw [if_neg hhead] at *
    rw [if_neg hhead]
    by_cases hlen : a.length < h.length + Header.crcLength
    · exact absurd (if_pos hlen) ha
    · have hdrop : Header.crcLength ≤ (a.drop h.length).length := by
        rw [List.length_drop]; omega
      rw [if_neg hlen, if_neg (by rw [List.length_append]; omega),
        List.take_append_of_le_length (by omega), List.drop_append_of_le_length (by omega),
        List.drop_append_of_le_length (by omega), List.take_append_of_le_length hdrop]
      split
      · rfl
      · rfl

theorem readBlob_append {a : Bytes} (ha : readBlob m a ≠ .short) (b : Bytes) :
    readBlob m (a ++ b) = match readBlob m a with
      | .good payload more rest => .good payload more (rest ++ b)
      | front => front := by
  match a, ha with
  | [], ha => exact absurd rfl ha
  | [_], ha => exact absurd rfl ha
  | b₀ :: b₁ :: body, ha => exact readBody_append ha b

theorem readBlob_append_bad {a : Bytes} {error : LinkError} (h : readBlob m a = .bad error)
    (b : Bytes) : readBlob m (a ++ b) = .bad error := by
  rw [readBlob_append (by rw [h]; nofun), h]

theorem readBlob_append_good {a payload rest : Bytes} {more : Bool}
    (h : readBlob m a = .good payload more rest) (b : Bytes) :
    readBlob m (a ++ b) = .good payload more (rest ++ b) := by
  rw [readBlob_append (by rw [h]; nofun), h]

/-! ## Reading in parts -/

theorem scan_of_short {p : Partial} {bytes : Bytes}
    (h : readBlob limits.maxPayload bytes = .short) :
    scan limits p bytes = ([], .expect p bytes) := by
  rw [scan]
  split
  · rfl
  · rename_i h'; rw [h] at h'; cases h'
  · rename_i h'; rw [h] at h'; cases h'

theorem scan_of_bad {p : Partial} {bytes : Bytes} {error : LinkError}
    (h : readBlob limits.maxPayload bytes = .bad error) :
    scan limits p bytes = ([.fault error], .discard) := by
  rw [scan]
  split
  · rename_i h'; rw [h] at h'; cases h'
  · rename_i h'; rw [h] at h'; cases h'; rfl
  · rename_i h'; rw [h] at h'; cases h'

/-- What a good blob does to the reading of the rest. -/
theorem scan_of_good {p : Partial} {bytes payload rest : Bytes} {more : Bool}
    (h : readBlob limits.maxPayload bytes = .good payload more rest) :
    scan limits p bytes =
      match p.add limits payload with
      | none => ([.fault .lengthOutOfRange], .discard)
      | some whole =>
        if more then (.blob :: (scan limits whole rest).1, (scan limits whole rest).2)
        else
          (.blob :: .packet whole.content :: (scan limits {} rest).1, (scan limits {} rest).2) := by
  conv_lhs => rw [scan]
  split
  · rename_i h'; rw [h] at h'; cases h'
  · rename_i h'; rw [h] at h'; cases h'
  · rename_i h'; rw [h] at h'; cases h'; rfl

/-- What is read of a good blob with nothing behind it. -/
def accept (limits : Limits) (p : Partial) (payload : Bytes) (more : Bool) : List Seen × State :=
  match p.add limits payload with
  | none => ([.fault .lengthOutOfRange], .discard)
  | some whole =>
    if more then ([.blob], .expect whole []) else ([.blob, .packet whole.content], .expect {} [])

theorem scan_nil (p : Partial) : scan limits p [] = ([], .expect p []) := scan_of_short rfl

theorem scan_eq_accept {p : Partial} {bytes payload : Bytes} {more : Bool}
    (h : readBlob limits.maxPayload bytes = .good payload more []) :
    scan limits p bytes = accept limits p payload more := by
  rw [scan_of_good h, accept]
  simp only [scan_nil]

/-- Reading in two parts is reading at once. -/
theorem scan_append (p : Partial) (a b : Bytes) :
    scan limits p (a ++ b) =
      ((scan limits p a).1 ++ ((scan limits p a).2.push limits b).1,
        ((scan limits p a).2.push limits b).2) := by
  -- Each good blob makes the first part shorter; what is left of it goes before `b`.
  induction hn : a.length using Nat.strong_induction_on generalizing p a with
  | _ n ih =>
      cases ha : readBlob limits.maxPayload a with
      | short => rw [scan_of_short ha]; rfl
      | bad error =>
          rw [scan_of_bad ha, scan_of_bad (readBlob_append_bad ha b)]
          rfl
      | good payload more rest =>
          have hlt := length_lt_of_readBlob ha
          rw [scan_of_good ha, scan_of_good (readBlob_append_good ha b)]
          cases p.add limits payload with
          | none => rfl
          | some whole =>
              simp only
              cases more with
              | true =>
                  simp only [if_true]
                  rw [ih _ (hn ▸ hlt) whole rest rfl]
                  rfl
              | false =>
                  simp only [Bool.false_eq_true, if_false]
                  rw [ih _ (hn ▸ hlt) {} rest rfl]
                  rfl

theorem State.push_append (s : State) (a b : Bytes) :
    s.push limits (a ++ b) =
      ((s.push limits a).1 ++ ((s.push limits a).2.push limits b).1,
        ((s.push limits a).2.push limits b).2) := by
  cases s with
  | discard => rfl
  | expect p rest =>
      simp only [push]
      rw [← List.append_assoc, scan_append]
      rfl

theorem State.eq_channelAborted_of_finish {s : State} {error : LinkError} {p : Partial}
    (h : s.finish = ([.fault error], p)) : error = .channelAborted := by
  cases s with
  | discard => cases h
  | expect p' rest =>
      cases rest with
      | nil => cases h
      | cons b rest => cases h; rfl

/-- The end of a transaction takes no memory. -/
theorem State.spares_finish (s : State) : .fault .outOfMemory ∉ s.finish.1 := by
  cases s with
  | discard => exact List.not_mem_nil
  | expect p rest =>
      cases rest with
      | nil => exact List.not_mem_nil
      | cons b rest => simp [finish]

/-! ## Reading with memory that may run out -/

namespace State

variable {s s₁ s₂ : State} {a b : Bytes} {seen seen₁ seen₂ : List Seen}

/-- A reader in want of memory ignores the rest of the transaction. -/
theorem Takes.append (ha : s.Takes limits a seen₁ s₁) (hb : s₁.Takes limits b seen₂ s₂) :
    s.Takes limits (a ++ b) (seen₁ ++ seen₂) s₂ := by
  rcases ha with ha | ⟨k, hk, hgo, rfl, rfl⟩
  · rcases hb with hb | ⟨k, hk, hgo, rfl, rfl⟩
    · refine Or.inl ?_
      rw [push_append, ha, hb]
    · refine Or.inr ⟨a.length + k, by rw [List.length_append]; omega, ?_⟩
      rw [List.take_length_add_append, push_append, ha]
      exact ⟨hgo, (List.append_assoc _ _ _).symm, rfl⟩
  · rcases hb with hb | ⟨j, hj, hgo', -, -⟩
    · cases hb
      refine Or.inr ⟨k, by rw [List.length_append]; omega, ?_⟩
      rw [List.take_append_of_le_length hk, List.append_nil]
      exact ⟨hgo, rfl, rfl⟩
    · exact absurd rfl hgo'

/-- With memory enough, the reader reads what the decoder reads. -/
theorem Takes.push_eq (h : s.Takes limits a seen s₁) (hmem : .fault .outOfMemory ∉ seen) :
    s.push limits a = (seen, s₁) := by
  rcases h with h | ⟨k, -, -, rfl, -⟩
  · exact h
  · exact absurd (List.mem_append_right _ (List.mem_singleton_self _)) hmem

end State

end DockLink.Decoder
