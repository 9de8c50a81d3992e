import DockLink.Wire.Blob
import Mathlib.Data.Nat.Bitwise

/-!
# The bytes of a blob

`Blob.encode` is the blob of a payload, written out. The framer's blobs are of this form, and the
checksum of a whole blob is accepted exactly if its last four bytes are those that `encode` puts
there.
-/

namespace DockLink

/-! ## Words and their bytes -/

theorem or_shiftLeft_eq_add {a i : Nat} (b : Nat) (h : a < 2 ^ i) : a ||| b <<< i = a + b * 2 ^ i := by
  rw [Nat.or_comm, ← Nat.shiftLeft_add_eq_or_of_lt h, Nat.shiftLeft_eq, Nat.add_comm]

namespace Bytes

theorem toNat_word16 (b₀ b₁ : UInt8) : (word16 b₀ b₁).toNat = b₀.toNat + b₁.toNat * 2 ^ 8 := by
  have h₀ := b₀.toNat_lt
  have h₁ := b₁.toNat_lt
  have hshift : b₁.toNat <<< 8 % 2 ^ 16 = b₁.toNat <<< 8 :=
    Nat.mod_eq_of_lt (by rw [Nat.shiftLeft_eq]; omega)
  rw [← or_shiftLeft_eq_add b₁.toNat h₀, ← hshift]
  rfl

theorem toNat_word32 (b₀ b₁ b₂ b₃ : UInt8) : (word32 b₀ b₁ b₂ b₃).toNat =
    b₀.toNat + b₁.toNat * 2 ^ 8 + b₂.toNat * 2 ^ 16 + b₃.toNat * 2 ^ 24 := by
  have h₀ := b₀.toNat_lt
  have h₁ := b₁.toNat_lt
  have h₂ := b₂.toNat_lt
  have h₃ := b₃.toNat_lt
  have hshift : ∀ (b : UInt8) (i : Nat), i ≤ 24 → b.toNat <<< i % 2 ^ 32 = b.toNat <<< i := by
    intro b i hi
    refine Nat.mod_eq_of_lt ?_
    rw [Nat.shiftLeft_eq]
    calc b.toNat * 2 ^ i ≤ b.toNat * 2 ^ 24 :=
          Nat.mul_le_mul_left _ (Nat.pow_le_pow_right (by omega) hi)
      _ < 2 ^ 32 := by have := b.toNat_lt; omega
  have e₁ := or_shiftLeft_eq_add b₁.toNat h₀
  have e₂ := or_shiftLeft_eq_add (i := 16) b₂.toNat (a := b₀.toNat + b₁.toNat * 2 ^ 8) (by omega)
  have e₃ := or_shiftLeft_eq_add (i := 24) b₃.toNat
    (a := b₀.toNat + b₁.toNat * 2 ^ 8 + b₂.toNat * 2 ^ 16) (by omega)
  rw [← e₃, ← e₂, ← e₁, ← hshift b₁ 8 (by omega), ← hshift b₂ 16 (by omega),
    ← hshift b₃ 24 (by omega)]
  rfl

theorem toNat_byte (n i : Nat) : (n >>> i) % 2 ^ 8 = n / 2 ^ i % 2 ^ 8 := by
  rw [Nat.shiftRight_eq_div_pow]

@[simp]
theorem word16_ofWord16 (w : UInt16) : word16 w.toUInt8 (w >>> 8).toUInt8 = w := by
  apply UInt16.toNat_inj.1
  have hw := w.toNat_lt
  have h₁ : (w >>> 8).toUInt8.toNat = w.toNat / 2 ^ 8 % 2 ^ 8 := toNat_byte _ 8
  have h₀ : w.toUInt8.toNat = w.toNat % 2 ^ 8 := rfl
  rw [toNat_word16, h₀, h₁]
  omega

@[simp]
theorem word32_ofWord32 (w : UInt32) :
    word32 w.toUInt8 (w >>> 8).toUInt8 (w >>> 16).toUInt8 (w >>> 24).toUInt8 = w := by
  apply UInt32.toNat_inj.1
  have hw := w.toNat_lt
  have h₀ : w.toUInt8.toNat = w.toNat % 2 ^ 8 := rfl
  have h₁ : (w >>> 8).toUInt8.toNat = w.toNat / 2 ^ 8 % 2 ^ 8 := toNat_byte _ 8
  have h₂ : (w >>> 16).toUInt8.toNat = w.toNat / 2 ^ 16 % 2 ^ 8 := toNat_byte _ 16
  have h₃ : (w >>> 24).toUInt8.toNat = w.toNat / 2 ^ 24 % 2 ^ 8 := toNat_byte _ 24
  rw [toNat_word32, h₀, h₁, h₂, h₃]
  omega

theorem ofWord32_word32 (b₀ b₁ b₂ b₃ : UInt8) : ofWord32 (word32 b₀ b₁ b₂ b₃) = [b₀, b₁, b₂, b₃] := by
  have h₀ := b₀.toNat_lt
  have h₁ := b₁.toNat_lt
  have h₂ := b₂.toNat_lt
  have h₃ := b₃.toNat_lt
  have hw := toNat_word32 b₀ b₁ b₂ b₃
  have e : ∀ i (b : UInt8), (word32 b₀ b₁ b₂ b₃).toNat / 2 ^ i % 2 ^ 8 = b.toNat →
      UInt8.ofNat ((word32 b₀ b₁ b₂ b₃).toNat >>> i) = b := by
    intro i b hb
    apply UInt8.toNat_inj.1
    rw [← hb, ← toNat_byte]
    rfl
  have e₀ := e 0 b₀ (by omega)
  have e₁ := e 8 b₁ (by omega)
  have e₂ := e 16 b₂ (by omega)
  have e₃ := e 24 b₃ (by omega)
  rw [ofWord32]
  exact congrArg₂ _ e₀ (congrArg₂ _ e₁ (congrArg₂ _ e₂ (congrArg₂ _ e₃ rfl)))

theorem ofWord16_word16 (b₀ b₁ : UInt8) : ofWord16 (word16 b₀ b₁) = [b₀, b₁] := by
  have h₀ := b₀.toNat_lt
  have h₁ := b₁.toNat_lt
  have hw := toNat_word16 b₀ b₁
  have e : ∀ i (b : UInt8), (word16 b₀ b₁).toNat / 2 ^ i % 2 ^ 8 = b.toNat →
      UInt8.ofNat ((word16 b₀ b₁).toNat >>> i) = b := by
    intro i b hb
    apply UInt8.toNat_inj.1
    rw [← hb, ← toNat_byte]
    rfl
  have e₀ := e 0 b₀ (by omega)
  have e₁ := e 8 b₁ (by omega)
  rw [ofWord16]
  exact congrArg₂ _ e₀ (congrArg₂ _ e₁ rfl)

theorem ofWord32_inj {v w : UInt32} (h : ofWord32 v = ofWord32 w) : v = w := by
  simp only [ofWord32, List.cons.injEq] at h
  rw [← word32_ofWord32 v, ← word32_ofWord32 w, h.1, h.2.1, h.2.2.1, h.2.2.2.1]

end Bytes

/-! ## Headers -/

namespace Header

/-- The header of a payload of `n` bytes. -/
def announce (n : Nat) (more : Bool) : Header :=
  ⟨if more then UInt16.ofNat n ||| moreBit else UInt16.ofNat n⟩

theorem ofLength_eq {n : Nat} (h : n ≤ maxPayload) (more : Bool) :
    ofLength n more = .ok (announce n more) := by
  simp [ofLength, announce, h]

theorem toNat_word_announce {n : Nat} (h : n ≤ maxPayload) (more : Bool) :
    (announce n more).word.toNat = n + if more then 2 ^ 15 else 0 := by
  have hlt : n < 2 ^ 15 := Nat.lt_succ_of_le h
  cases more with
  | false =>
      show n % 2 ^ 16 = n + 0
      omega
  | true =>
      have hor : n ||| 1 <<< 15 = n + 1 * 2 ^ 15 := or_shiftLeft_eq_add 1 hlt
      show n % 2 ^ 16 ||| 2 ^ 15 = n + 2 ^ 15
      rw [Nat.mod_eq_of_lt (by omega)]
      exact hor

theorem length_eq_mod (h : Header) : h.length = h.word.toNat % 2 ^ 15 :=
  Nat.and_two_pow_sub_one_eq_mod h.word.toNat 15

theorem more_eq (h : Header) : h.more = h.word.toNat.testBit 15 := by
  have hand : (h.word &&& moreBit).toNat = (h.word.toNat.testBit 15).toNat * 2 ^ 15 :=
    Nat.and_two_pow h.word.toNat 15
  cases hbit : h.word.toNat.testBit 15 with
  | false =>
      have h0 : h.word &&& moreBit = 0 := UInt16.toNat_inj.1 (by rw [hand, hbit]; rfl)
      simp [more, h0]
  | true =>
      have hne : h.word &&& moreBit ≠ 0 := by
        intro e
        rw [e, hbit] at hand
        cases hand
      simp [more, hne]

@[simp]
theorem length_announce {n : Nat} (h : n ≤ maxPayload) (more : Bool) :
    (announce n more).length = n := by
  have hlt : n < 2 ^ 15 := Nat.lt_succ_of_le h
  rw [length_eq_mod, toNat_word_announce h]
  cases more with
  | false => exact Nat.mod_eq_of_lt hlt
  | true => rw [if_pos rfl, Nat.add_mod_right, Nat.mod_eq_of_lt hlt]

@[simp]
theorem more_announce {n : Nat} (h : n ≤ maxPayload) (more : Bool) :
    (announce n more).more = more := by
  have hlt : n < 2 ^ 15 := Nat.lt_succ_of_le h
  rw [more_eq, toNat_word_announce h]
  cases more with
  | false => exact Nat.testBit_lt_two_pow hlt
  | true => rw [if_pos rfl, Nat.add_comm, Nat.testBit_two_pow_add_eq, Nat.testBit_lt_two_pow hlt]; rfl

theorem toBytes_ofBytes (b₀ b₁ : UInt8) : (ofBytes b₀ b₁).toBytes = [b₀, b₁] :=
  Bytes.ofWord16_word16 b₀ b₁

theorem ofBytes_toBytes (h : Header) : ofBytes h.word.toUInt8 (h.word >>> 8).toUInt8 = h := by
  rw [ofBytes, Bytes.word16_ofWord16]

@[simp]
theorem length_toBytes (h : Header) : h.toBytes.length = byteLength := rfl

theorem blobLength_eq (h : Header) : h.blobLength = h.covered + crcLength := by
  simp only [blobLength, overhead, covered]
  omega

end Header

/-! ## Blobs -/

namespace Blob

/-- The bytes of a blob: header, payload, checksum. -/
def encode (payload : Bytes) (more : Bool) : Bytes :=
  let covered := (Header.announce payload.length more).toBytes ++ payload
  covered ++ Bytes.ofWord32 (Crc.ofBytes covered)

@[simp]
theorem length_encode (payload : Bytes) (more : Bool) :
    (encode payload more).length = Header.overhead + payload.length := by
  simp [encode, Bytes.ofWord32, Header.overhead, Header.byteLength, Header.crcLength]
  omega

theorem put32_append (covered rest : Bytes) (hrest : rest.length = Header.crcLength) (w : UInt32) :
    Bytes.put32 (covered ++ rest) covered.length w = .ok (covered ++ Bytes.ofWord32 w) := by
  have hw : (Bytes.ofWord32 w).length = Header.crcLength := rfl
  rw [Bytes.put32, Bytes.put, if_pos (by rw [List.length_append, hw, hrest]), List.take_left, hw,
    List.drop_of_length_le (by rw [List.length_append, hrest])]
  simp

theorem ofPayload_eq {payload : Bytes} (h : payload.length ≤ Header.maxPayload) (more : Bool) :
    ofPayload (Header.announce payload.length more) payload =
      .ok (Header.overhead + payload.length, encode payload more) := by
  have hcovered : (Header.announce payload.length more).covered =
      ((Header.announce payload.length more).toBytes ++ payload).length := by
    simp [Header.covered, h]
  rw [ofPayload, stamp, hcovered, if_pos (by simp), put32_append _ _ (by simp), List.take_left]
  simp [Except.map, encode, Header.overhead, Header.byteLength, Header.crcLength]
  omega

/-- The checksum of a whole blob is accepted if its last four bytes are the checksum of the rest. -/
theorem verify_eq {buffer : Bytes} {h : Header} (hlen : buffer.length = h.blobLength) :
    verify buffer h = .ok
      (buffer.drop h.covered == Bytes.ofWord32 (Crc.ofBytes (buffer.take h.covered))) := by
  have hb := h.blobLength_eq
  have hdrop : (buffer.drop h.covered).length = 4 := by
    rw [List.length_drop, hlen, hb]
    exact Nat.add_sub_cancel_left _ _
  match hd : buffer.drop h.covered, hdrop with
  | [b₀, b₁, b₂, b₃], _ =>
      rw [verify, if_pos (by omega), Bytes.get32, hd]
      have hbytes := Bytes.ofWord32_word32 b₀ b₁ b₂ b₃
      refine congrArg Except.ok ?_
      rw [Bool.eq_iff_iff, beq_iff_eq, beq_iff_eq, ← hbytes]
      constructor
      · intro e
        rw [e]
      · intro e
        exact (Bytes.ofWord32_inj e).symm

end Blob

end DockLink
