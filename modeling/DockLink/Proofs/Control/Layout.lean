import DockLink.Control.Layout
import DockLink.Proofs.Memory.CopyingOut
import DockLink.Proofs.Wire.Format

/-!
# Layouts in place

A structure is written field by field, each field at a place of its own, and it is read field by
field from the same places. The fields take up each byte of their structure once. So its values
correspond to the strings of that many bytes, and nothing else in the buffer is touched.
-/

namespace DockLink

variable {length : Nat}

namespace Bytes

@[simp]
theorem length_ofWord16 (w : UInt16) : (ofWord16 w).length = 2 := rfl

/-- Data that follow on each other may be written one after the other. -/
theorem put_append (buffer : Bytes) (offset : Nat) (x y : Bytes) :
    buffer.put offset (x ++ y) =
      buffer.put offset x >>= fun b => b.put (offset + x.length) y := by
  by_cases hx : offset + x.length ≤ buffer.length
  · have hbehind : (buffer.take offset ++ x).length = offset + x.length := by
      rw [List.length_append, List.length_take_of_le (by omega)]
    have hwritten : (buffer.take offset ++ x ++ buffer.drop (offset + x.length)).length =
        buffer.length := by
      rw [List.length_append, hbehind, List.length_drop]
      omega
    have hfirst : buffer.put offset x =
        .ok (buffer.take offset ++ x ++ buffer.drop (offset + x.length)) := if_pos hx
    rw [hfirst]
    show _ = Bytes.put (buffer.take offset ++ x ++ buffer.drop (offset + x.length)) _ y
    by_cases hxy : offset + x.length + y.length ≤ buffer.length
    · have hroom : y.length ≤ (buffer.drop (offset + x.length)).length := by
        rw [List.length_drop]
        omega
      have hput := put_behind (buffer.take offset ++ x) (buffer.drop (offset + x.length)) hroom
      rw [hbehind] at hput
      rw [hput, put, if_pos (by rw [List.length_append]; omega), List.length_append,
        List.drop_drop]
      simp only [List.append_assoc, Nat.add_assoc]
    · rw [put, put, if_neg (by rw [List.length_append]; omega), hwritten, if_neg hxy]
  · rw [put, put, if_neg (by rw [List.length_append]; omega), if_neg hx]
    rfl

/-- Two bytes at the front are a number. -/
theorem exists_ofWord16 {b : Bytes} {n : Nat} (h : b.length = n + 2) :
    ∃ w rest, b = ofWord16 w ++ rest ∧ rest.length = n := by
  match b, h with
  | b₀ :: b₁ :: rest, h =>
      refine ⟨word16 b₀ b₁, rest, ?_, by simpa using h⟩
      rw [ofWord16_word16]
      rfl

/-- Two bytes at the front are a number in two's complement. -/
theorem exists_ofInt16 {b : Bytes} {n : Nat} (h : b.length = n + 2) :
    ∃ (x : Int16) (rest : Bytes), b = ofWord16 x.toUInt16 ++ rest ∧ rest.length = n := by
  obtain ⟨w, rest, hb, hrest⟩ := exists_ofWord16 h
  refine ⟨w.toInt16, rest, ?_, hrest⟩
  rw [UInt16.toUInt16_toInt16]
  exact hb

end Bytes

/-- Values of `length` bytes each are written at any place of a buffer and read from there. -/
structure RoundTrips {α : Type} (length : Nat) (toBytes : α → Bytes)
    (encode : α → Bytes → Nat → Except Fault Bytes) (ofBytes : Bytes → Except Fault α) : Prop where
  length_eq : ∀ v, (toBytes v).length = length
  bijective : Function.Bijective
    fun v => (⟨toBytes v, length_eq v⟩ : { b : Bytes // b.length = length })
  /-- The bytes of the value take the place of as many others, and the rest stays. -/
  encode_eq : ∀ v buffer offset, offset + length ≤ buffer.length →
    encode v buffer offset = .ok (buffer.take offset ++ toBytes v ++ buffer.drop (offset + length))
  ofBytes_encode : ∀ v buffer offset written, encode v buffer offset = .ok written →
    ofBytes (written.drop offset) = .ok v
  /-- What is read can be written back without a change. -/
  encode_ofBytes : ∀ buffer offset, offset + length ≤ buffer.length →
    ∃ v, ofBytes (buffer.drop offset) = .ok v ∧ encode v buffer offset = .ok buffer

/-- It is enough that the fields are written as one string of bytes, that they are read from its
front, and that any string of that length is one of theirs. -/
theorem RoundTrips.of_put {α : Type} {toBytes : α → Bytes}
    {encode : α → Bytes → Nat → Except Fault Bytes} {ofBytes : Bytes → Except Fault α}
    (hlength : ∀ v, (toBytes v).length = length)
    (hencode : ∀ v buffer offset, encode v buffer offset = buffer.put offset (toBytes v))
    (hread : ∀ v rest, ofBytes (toBytes v ++ rest) = .ok v)
    (hall : ∀ b : Bytes, b.length = length → ∃ v, toBytes v = b) :
    RoundTrips length toBytes encode ofBytes where
  length_eq := hlength
  bijective := by
    refine ⟨fun v w h => ?_, fun b => ?_⟩
    · have hbytes : toBytes v = toBytes w := congrArg Subtype.val h
      have hv := hread v []
      rw [hbytes, hread w []] at hv
      exact (Except.ok.inj hv).symm
    · obtain ⟨v, hv⟩ := hall b.1 b.2
      exact ⟨v, Subtype.ext hv⟩
  encode_eq v buffer offset hroom := by
    rw [hencode, Bytes.put, hlength, if_pos hroom]
  ofBytes_encode v buffer offset written h := by
    rw [hencode, Bytes.put] at h
    split at h
    · rename_i hroom
      cases h
      have hfront : (buffer.take offset).length = offset := List.length_take_of_le (by omega)
      rw [List.append_assoc, List.drop_left' hfront]
      exact hread v _
    · cases h
  encode_ofBytes buffer offset hroom := by
    obtain ⟨v, hv⟩ := hall ((buffer.drop offset).take length) (by
      rw [List.length_take, List.length_drop]
      omega)
    have hsplit : buffer.drop offset = toBytes v ++ buffer.drop (offset + length) := by
      rw [hv, ← List.drop_drop, List.take_append_drop]
    refine ⟨v, ?_, ?_⟩
    · rw [hsplit]
      exact hread v _
    · rw [hencode, Bytes.put, hlength, if_pos hroom, List.append_assoc, ← hsplit,
        List.take_append_drop]

/-- Two words that make up a value, one after the other. -/
theorem RoundTrips.of_words {α : Type} (make : UInt16 → UInt16 → α) (first second : α → UInt16)
    (hmake : ∀ v, make (first v) (second v) = v) (hfirst : ∀ x y, first (make x y) = x)
    (hsecond : ∀ x y, second (make x y) = y) :
    RoundTrips 4 (fun v => Bytes.ofWord16 (first v) ++ Bytes.ofWord16 (second v))
      (fun v buffer offset => do
        let buffer ← buffer.put16 offset (first v)
        buffer.put16 (offset + 2) (second v))
      (fun b => do return make (← b.get16 0) (← b.get16 2)) := by
  refine .of_put (fun _ => rfl) (fun v buffer offset => ?_) (fun v rest => ?_) (fun b h => ?_)
  · exact (Bytes.put_append buffer offset _ _).symm
  · simp only [Bytes.get16, Bytes.ofWord16, List.cons_append, List.nil_append, List.drop_zero,
      List.drop_succ_cons, Bytes.word16_ofWord16]
    exact congrArg Except.ok (hmake v)
  · obtain ⟨x, b₁, rfl, h₁⟩ := Bytes.exists_ofWord16 h
    obtain ⟨y, b₂, rfl, h₂⟩ := Bytes.exists_ofWord16 h₁
    refine ⟨make x y, ?_⟩
    rw [hfirst, hsecond, List.length_eq_zero_iff.1 h₂, List.append_nil]

/-! ## The layouts -/

theorem Version.roundTrips : RoundTrips byteLength toBytes encode ofBytes :=
  .of_words mk variant revision (fun _ => rfl) (fun _ _ => rfl) fun _ _ => rfl

theorem StatusRequest.roundTrips : RoundTrips byteLength toBytes encode ofBytes :=
  .of_words (fun flags mask => mk ⟨flags⟩ ⟨mask⟩) (fun r => r.flags.bits) (fun r => r.mask.bits)
    (fun _ => rfl) (fun _ _ => rfl) fun _ _ => rfl

theorem Envelope.roundTrips : RoundTrips byteLength toBytes encode ofBytes :=
  .of_words (fun contentType => mk ⟨contentType⟩) (fun e => e.contentType.code) length
    (fun _ => rfl) (fun _ _ => rfl) fun _ _ => rfl

namespace StatusResponse

/-- The fields in the order of their places. -/
theorem toBytes_eq (r : StatusResponse) :
    r.toBytes = Bytes.ofWord16 r.flags.bits ++ ([r.pendingSend] ++ ([r.pendingReceive] ++
      (Bytes.ofWord16 r.measurements.internalVoltage.toUInt16 ++
        (Bytes.ofWord16 r.measurements.internalCurrent.toUInt16 ++
          (Bytes.ofWord16 r.measurements.externalVoltage.toUInt16 ++
            (Bytes.ofWord16 r.measurements.externalCurrent.toUInt16 ++
              Bytes.ofWord16 r.measurements.distance)))))) := rfl

theorem encode_eq_put (r : StatusResponse) (buffer : Bytes) (offset : Nat) :
    r.encode buffer offset = buffer.put offset r.toBytes := by
  simp only [toBytes_eq, Bytes.put_append, Bytes.length_ofWord16, List.length_singleton,
    Nat.add_assoc]
  rfl

theorem ofBytes_toBytes_append (r : StatusResponse) (rest : Bytes) :
    ofBytes (r.toBytes ++ rest) = .ok r := by
  simp [toBytes_eq, ofBytes, Bytes.get16, Bytes.get8, Bytes.getInt16, Bytes.ofWord16, Except.map]
  rfl

theorem exists_toBytes {b : Bytes} (h : b.length = byteLength) :
    ∃ r : StatusResponse, r.toBytes = b := by
  obtain ⟨flags, b₁, rfl, h₁⟩ := Bytes.exists_ofWord16 h
  obtain ⟨pendingSend, b₂, rfl⟩ := List.exists_cons_of_length_eq_add_one h₁
  have h₂ := Nat.succ.inj h₁
  obtain ⟨pendingReceive, b₃, rfl⟩ := List.exists_cons_of_length_eq_add_one h₂
  have h₃ := Nat.succ.inj h₂
  obtain ⟨internalVoltage, b₄, rfl, h₄⟩ := Bytes.exists_ofInt16 h₃
  obtain ⟨internalCurrent, b₅, rfl, h₅⟩ := Bytes.exists_ofInt16 h₄
  obtain ⟨externalVoltage, b₆, rfl, h₆⟩ := Bytes.exists_ofInt16 h₅
  obtain ⟨externalCurrent, b₇, rfl, h₇⟩ := Bytes.exists_ofInt16 h₆
  obtain ⟨distance, b₈, rfl, h₈⟩ := Bytes.exists_ofWord16 h₇
  refine ⟨{
    flags := ⟨flags⟩, pendingSend, pendingReceive
    measurements :=
      { internalVoltage, internalCurrent, externalVoltage, externalCurrent, distance } }, ?_⟩
  rw [toBytes_eq, List.length_eq_zero_iff.1 h₈, List.append_nil]
  rfl

theorem roundTrips : RoundTrips byteLength toBytes encode ofBytes :=
  .of_put (fun _ => rfl) encode_eq_put ofBytes_toBytes_append fun _ => exists_toBytes

end StatusResponse

/-- Each structure that goes to or comes from the controller, with values of any size and sign and
at any offset, aligned or not, is written over its own bytes and read from there as it was. -/
theorem layouts_roundTrip :
    RoundTrips Version.byteLength Version.toBytes Version.encode Version.ofBytes ∧
      RoundTrips StatusRequest.byteLength StatusRequest.toBytes StatusRequest.encode
        StatusRequest.ofBytes ∧
      RoundTrips StatusResponse.byteLength StatusResponse.toBytes StatusResponse.encode
        StatusResponse.ofBytes ∧
      RoundTrips Envelope.byteLength Envelope.toBytes Envelope.encode Envelope.ofBytes :=
  ⟨Version.roundTrips, StatusRequest.roundTrips, StatusResponse.roundTrips, Envelope.roundTrips⟩

end DockLink
