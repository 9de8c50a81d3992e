import DockLink.Proofs.Transfer.Cutting
import DockLink.Proofs.Transfer.Decoder

/-!
# Reading the blobs of a packet

The blobs of a packet are read one by one, to their ends, and give the packet back. However many of
them are there, the reader then waits for a new blob, so a transaction may end.
-/

namespace DockLink.Decoder

variable {limits : Limits} {m : Nat}

/-- A blob is read as it was written, whatever comes behind it. -/
theorem readBlob_encode {payload : Bytes} {more : Bool} (hm : m ≤ Header.maxPayload)
    (hle : payload.length ≤ m) (hmore : more = true → payload ≠ []) (rest : Bytes) :
    readBlob m (Blob.encode payload more ++ rest) = .good payload more rest := by
  have hlen : (Header.announce payload.length more).length = payload.length :=
    Header.length_announce (hle.trans hm) more
  have hhead : ¬((Header.announce payload.length more).length > m ∨
      ((Header.announce payload.length more).more ∧
        (Header.announce payload.length more).length = 0)) := by
    rw [hlen, Header.more_announce (hle.trans hm)]
    rintro (hlong | ⟨htrue, hzero⟩)
    · omega
    · exact hmore htrue (List.eq_nil_of_length_eq_zero hzero)
  have hcrc : (Bytes.ofWord32 (Crc.ofBytes
      ((Header.announce payload.length more).toBytes ++ payload))).length = Header.crcLength := rfl
  have henough : ¬(payload ++ (Bytes.ofWord32 (Crc.ofBytes
      ((Header.announce payload.length more).toBytes ++ payload)) ++ rest)).length <
        payload.length + Header.crcLength := by
    rw [List.length_append, List.length_append, hcrc]
    omega
  rw [Blob.encode, List.append_assoc, List.append_assoc, readBlob_toBytes, readBody, if_neg hhead,
    hlen, if_neg henough, List.take_left, List.drop_left, List.take_left' hcrc, if_pos rfl,
    Header.more_announce (hle.trans hm), ← List.drop_drop, List.drop_left, List.drop_left' hcrc]

/-- Blobs that are read one by one, to their ends. -/
inductive Whole (limits : Limits) : Partial → List Bytes → List Seen → Partial → Prop where
  | nil (p : Partial) : Whole limits p [] [] p
  | cons {p p₁ p' : Partial} {blob : Bytes} {blobs : List Bytes} {seen₁ seen₂ : List Seen}
      (first : scan limits p blob = (seen₁, .expect p₁ [])) (others : Whole limits p₁ blobs seen₂ p') :
      Whole limits p (blob :: blobs) (seen₁ ++ seen₂) p'

namespace Whole

variable {p p₁ p' : Partial} {blobs blobs₁ blobs₂ : List Bytes} {seen seen₁ seen₂ : List Seen}

theorem one {blob : Bytes} (h : scan limits p blob = (seen, .expect p' [])) :
    Whole limits p [blob] seen p' := by
  rw [← List.append_nil seen]
  exact .cons h (.nil p')

theorem append (h₁ : Whole limits p blobs₁ seen₁ p₁) (h₂ : Whole limits p₁ blobs₂ seen₂ p') :
    Whole limits p (blobs₁ ++ blobs₂) (seen₁ ++ seen₂) p' := by
  induction h₁ with
  | nil => exact h₂
  | cons first others ih =>
      rw [List.cons_append, List.append_assoc]
      exact .cons first (ih h₂)

theorem of_append (h : Whole limits p (blobs₁ ++ blobs₂) seen p') :
    ∃ seen₁ p₁, Whole limits p blobs₁ seen₁ p₁ := by
  induction blobs₁ generalizing p seen with
  | nil => exact ⟨[], p, .nil p⟩
  | cons blob blobs ih =>
      cases h with
      | cons first others =>
          obtain ⟨seen₁, p₁, hwhole⟩ := ih others
          exact ⟨_, p₁, .cons first hwhole⟩

/-- The blobs may as well be read at once. -/
theorem scan_flatten (h : Whole limits p blobs seen p') :
    scan limits p blobs.flatten = (seen, .expect p' []) := by
  induction h with
  | nil p => exact scan_nil p
  | cons first others ih =>
      rw [List.flatten_cons, scan_append, first]
      show (_ ++ (scan limits _ ([] ++ _)).1, (scan limits _ ([] ++ _)).2) = _
      rw [List.nil_append, ih]

end Whole

theorem Partial.add_nil {p : Partial} (hlen : p.content.length ≤ limits.maxLength) :
    p.add limits [] = some p := by
  have hshort : ¬p.content.length + ([] : Bytes).length > limits.maxLength := Nat.not_lt.2 hlen
  rw [add, if_neg hshort]
  rfl

theorem Partial.add_of_ne_nil {p : Partial} {payload : Bytes}
    (hlen : p.content.length + payload.length ≤ limits.maxLength) (hpayload : payload ≠ [])
    (hpieces : p.pieces < Packet.maxChunks) :
    p.add limits payload = some { content := p.content ++ payload, pieces := p.pieces + 1 } := by
  rw [add, if_neg (Nat.not_lt.2 hlen), if_neg (by simpa using hpayload), if_pos hpieces]

theorem scan_encode {p : Partial} {payload : Bytes} {more : Bool}
    (hm : limits.maxPayload ≤ Header.maxPayload) (hle : payload.length ≤ limits.maxPayload)
    (hmore : more = true → payload ≠ []) :
    scan limits p (Blob.encode payload more) = accept limits p payload more := by
  have hread := readBlob_encode hm hle hmore []
  rw [List.append_nil] at hread
  exact scan_eq_accept hread

/-- The last blob of a packet, which may be empty, completes the packet. -/
theorem scan_encode_last {p : Partial} {payload : Bytes}
    (hm : limits.maxPayload ≤ Header.maxPayload) (hle : payload.length ≤ limits.maxPayload)
    (hlen : p.content.length + payload.length ≤ limits.maxLength)
    (hpieces : payload ≠ [] → p.pieces < Packet.maxChunks) :
    scan limits p (Blob.encode payload false) =
      ([.blob, .packet (p.content ++ payload)], .expect {} []) := by
  have hmore : false = true → payload ≠ [] := nofun
  rw [scan_encode hm hle hmore, accept]
  by_cases hpayload : payload = []
  · subst hpayload
    rw [Partial.add_nil hlen, List.append_nil]
    rfl
  · rw [Partial.add_of_ne_nil hlen hpayload (hpieces hpayload)]
    rfl

theorem scan_encode_more {p : Partial} {payload : Bytes}
    (hm : limits.maxPayload ≤ Header.maxPayload) (hle : payload.length ≤ limits.maxPayload)
    (hlen : p.content.length + payload.length ≤ limits.maxLength) (hpayload : payload ≠ [])
    (hpieces : p.pieces < Packet.maxChunks) :
    scan limits p (Blob.encode payload true) =
      ([.blob], .expect { content := p.content ++ payload, pieces := p.pieces + 1 } []) := by
  rw [scan_encode hm hle (fun _ => hpayload), accept, Partial.add_of_ne_nil hlen hpayload hpieces]
  rfl

/-- What is read of a packet that comes in the given number of blobs. -/
def seenOf (blobs : Nat) (content : Bytes) : List Seen :=
  List.replicate blobs .blob ++ [.packet content]

theorem seenOf_succ (blobs : Nat) (content : Bytes) :
    seenOf (blobs + 1) content = [.blob] ++ seenOf blobs content := rfl

/-- The blobs of a packet within the limits give the packet back. -/
theorem whole_cut (hm : limits.maxPayload ≤ Header.maxPayload) (hpos : 0 < limits.maxPayload)
    (pieces : Nat) {p : Partial} {stream : Bytes}
    (hlen : p.content.length + stream.length ≤ limits.maxLength)
    (hpieces : p.pieces + pieces = Packet.maxChunks)
    (hcut : stream.length ≤ pieces * limits.maxPayload) :
    Whole limits p (Blob.cut limits.maxPayload stream)
      (seenOf (Blob.cut limits.maxPayload stream).length (p.content ++ stream)) {} := by
  -- `pieces` is the room that is left in the packet; a full blob takes one of them.
  induction pieces generalizing p stream with
  | zero =>
      obtain rfl : stream = [] := List.eq_nil_of_length_eq_zero (by omega)
      rw [Blob.cut_of_le (Nat.zero_le _)]
      exact .one (scan_encode_last hm (Nat.zero_le _) hlen (fun h => absurd rfl h))
  | succ pieces ih =>
      by_cases hle : stream.length ≤ limits.maxPayload
      · rw [Blob.cut_of_le hle]
        exact .one (scan_encode_last hm hle hlen (fun _ => by omega))
      · have hgt : limits.maxPayload < stream.length := Nat.not_le.1 hle
        have htake : (stream.take limits.maxPayload).length = limits.maxPayload := by
          rw [List.length_take]
          omega
        have hfront : stream.take limits.maxPayload ≠ [] := by
          intro hnil
          rw [hnil, List.length_nil] at htake
          omega
        have hdrop : (stream.drop limits.maxPayload).length = stream.length - limits.maxPayload :=
          List.length_drop
        have hmul : (pieces + 1) * limits.maxPayload = pieces * limits.maxPayload + limits.maxPayload :=
          Nat.succ_mul _ _
        have hfirst := scan_encode_more (p := p) hm (Nat.le_of_eq htake) (by omega) hfront (by omega)
        let next : Partial :=
          { content := p.content ++ stream.take limits.maxPayload, pieces := p.pieces + 1 }
        have hlen' : next.content.length + (stream.drop limits.maxPayload).length ≤
            limits.maxLength := by
          rw [List.length_append]
          omega
        have hpieces' : next.pieces + pieces = Packet.maxChunks := by
          show p.pieces + 1 + pieces = _
          omega
        have hrest := ih hlen' hpieces' (by omega)
        have hcontent : p.content ++ stream.take limits.maxPayload ++ stream.drop limits.maxPayload =
            p.content ++ stream := by
          rw [List.append_assoc, List.take_append_drop]
        rw [hcontent] at hrest
        rw [Blob.cut_of_gt hpos hgt, List.length_cons, seenOf_succ]
        exact .cons hfirst hrest

end DockLink.Decoder
