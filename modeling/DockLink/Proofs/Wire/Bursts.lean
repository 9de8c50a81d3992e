import DockLink.Proofs.Wire.Format

/-!
# Damage that a checksum finds

A shift of a remainder is linear in exclusive or, and only zero is shifted to zero. So the checksums
of two sequences of bytes differ by the remainder of the bits in which the sequences differ, and
that is not zero if these bits lie within the thirty-two that a remainder has room for: a burst is
found wherever it is, however long the sequences are.
-/

namespace DockLink

namespace Bytes

/-- The bits of a byte, the most significant one first. -/
def bitsOf (b : UInt8) : List Bool := (List.range 8).map b.toBitVec.getMsbD

def bits (bytes : Bytes) : List Bool := bytes.flatMap bitsOf

/-- Bytes that were damaged in bits of which the first and the last are less than thirty-two
apart. -/
structure Burst (good bad : Bytes) : Prop where
  length_eq : bad.length = good.length
  ne : bad ≠ good
  within : ∃ first, ∀ i, bad.bits[i]? ≠ good.bits[i]? → first ≤ i ∧ i < first + 32

variable {x y : Bytes}

theorem length_bits (bytes : Bytes) : bytes.bits.length = 8 * bytes.length := by
  simp [bits, bitsOf, List.map_const', Nat.mul_comm]

theorem bitsOf_inj {b b' : UInt8} (h : bitsOf b = bitsOf b') : b = b' := by
  apply UInt8.toBitVec_inj.1
  refine BitVec.eq_of_getMsbD_eq fun i hi => ?_
  exact List.map_inj_left.1 h i (List.mem_range.2 hi)

theorem bits_inj (h : x.bits = y.bits) : x = y := by
  induction x generalizing y with
  | nil =>
      have hlength := congrArg List.length h
      rw [length_bits, length_bits] at hlength
      exact (List.length_eq_zero_iff.1 (by simpa using hlength.symm)).symm
  | cons b x ih =>
      cases y with
      | nil => simp [bits, bitsOf] at h
      | cons b' y =>
          rw [bits, List.flatMap_cons, bits, List.flatMap_cons] at h
          obtain ⟨hfirst, hrest⟩ := List.append_inj h (by simp [bitsOf])
          rw [bitsOf_inj hfirst, ih hrest]

end Bytes

namespace Crc

variable {a b c : Crc} {u v w : List Bool}

/-! ## Shifts -/

/-- A word, if a bit is set. -/
def select (word : Crc) (bit : Bool) : Crc := if bit then word else 0

/-- A bit in the highest place. -/
def top (bit : Bool) : Crc := select 0x80000000 bit

theorem select_xor (word : Crc) (p q : Bool) :
    select word (p ^^ q) = select word p ^^^ select word q := by
  cases p <;> cases q <;> simp [select]

theorem getMsbD_top (bit : Bool) (i : Nat) :
    (top bit).toBitVec.getMsbD i = (decide (i = 0) && bit) := by
  cases bit with
  | false => simp [top, select]
  | true =>
      have htop : (top true).toBitVec = BitVec.twoPow 32 31 := rfl
      simp [htop, BitVec.getMsbD_twoPow]

theorem and_top_eq_zero_iff : c &&& 0x80000000 = 0 ↔ c.toBitVec.msb = false := by
  have hand : (c &&& 0x80000000).toBitVec = c.toBitVec &&& BitVec.twoPow 32 31 := rfl
  rw [← UInt32.toBitVec_inj, hand, BitVec.and_twoPow, BitVec.msb_eq_getLsbD_last]
  cases c.toBitVec.getLsbD 31 <;> simp

theorem shift_eq (c : Crc) : shift c = c <<< 1 ^^^ select polynomial c.toBitVec.msb := by
  simp only [shift, and_top_eq_zero_iff]
  cases c.toBitVec.msb <;> simp [select]

theorem shift_xor (a b : Crc) : shift (a ^^^ b) = shift a ^^^ shift b := by
  simp only [shift_eq, UInt32.shiftLeft_xor, UInt32.toBitVec_xor, BitVec.msb_xor, select_xor]
  ac_rfl

theorem eq_zero_of_shiftLeft (hmsb : c.toBitVec.msb = false) (h : c <<< 1 = 0) : c = 0 := by
  apply UInt32.toBitVec_inj.1
  refine BitVec.eq_of_getMsbD_eq fun i hi => ?_
  cases i with
  | zero => simpa [BitVec.msb_eq_getMsbD_zero] using hmsb
  | succ i =>
      have hbit := congrArg (fun x : UInt32 => x.toBitVec.getMsbD i) h
      simpa using hbit

/-- The polynomial is odd, so that a shift does not lose what moves out at the top. -/
theorem eq_zero_of_shift (h : shift c = 0) : c = 0 := by
  rw [shift_eq] at h
  cases hmsb : c.toBitVec.msb with
  | false => exact eq_zero_of_shiftLeft hmsb (by simpa [hmsb, select] using h)
  | true =>
      have hlowest := congrArg (fun x : UInt32 => x.toBitVec.getLsbD 0) h
      simp [hmsb, select, polynomial] at hlowest

theorem shift_zero : shift 0 = 0 := rfl

theorem shift_eq_zero_iff : shift c = 0 ↔ c = 0 :=
  ⟨eq_zero_of_shift, fun h => h ▸ shift_zero⟩

theorem shifts_eq_zero_iff (n : Nat) (c : Crc) : shifts n c = 0 ↔ c = 0 := by
  induction n generalizing c with
  | zero => rfl
  | succ n ih => rw [shifts, ih, shift_eq_zero_iff]

/-- A shift undoes a move to the right that loses nothing. -/
theorem shift_shiftRight (h : c.toBitVec.getMsbD 31 = false) : shift (c >>> 1) = c := by
  have hmsb : (c >>> 1).toBitVec.msb = false := by simp [BitVec.msb_ushiftRight]
  rw [shift_eq, hmsb]
  apply UInt32.toBitVec_inj.1
  refine BitVec.eq_of_getMsbD_eq fun i hi => ?_
  by_cases hlast : i = 31
  · simp [select, hlast, h]
  · have hlt : i + 1 < 32 := by omega
    simp [select, hlt]

/-! ## Bits -/

/-- Takes in one bit. -/
def feedBit (c : Crc) (bit : Bool) : Crc := shift (c ^^^ top bit)

/-- Up to thirty-two bits, the first one in the highest place. -/
def word : List Bool → Crc
  | [] => 0
  | bit :: rest => top bit ^^^ word rest >>> 1

theorem getMsbD_word (w : List Bool) {i : Nat} (hi : i < 32) :
    (word w).toBitVec.getMsbD i = w[i]?.getD false := by
  induction w generalizing i with
  | nil => simp [word]
  | cons bit rest ih =>
      cases i with
      | zero => simp [word, getMsbD_top]
      | succ i => simp [word, getMsbD_top, hi, ih (Nat.lt_of_succ_lt hi)]

theorem word_ne_zero {i : Nat} (hi : i < 32) (h : w[i]? = some true) : word w ≠ 0 := by
  intro hzero
  have hbit := getMsbD_word w hi
  simp [hzero, h] at hbit

/-- Bits that a remainder has room for are taken in as one word. -/
theorem foldl_feedBit (hw : w.length ≤ 32) (c : Crc) :
    w.foldl feedBit c = shifts w.length (c ^^^ word w) := by
  induction w generalizing c with
  | nil => simp [word, shifts]
  | cons bit rest ih =>
      have hrest : rest.length < 32 := hw
      have hlast : (word rest).toBitVec.getMsbD 31 = false := by
        rw [getMsbD_word rest (by decide), List.getElem?_eq_none (Nat.le_of_lt_succ hrest)]
        rfl
      calc (bit :: rest).foldl feedBit c
          = shifts rest.length (feedBit c bit ^^^ word rest) := ih hrest.le (feedBit c bit)
        _ = shifts rest.length (shift (c ^^^ word (bit :: rest))) := by
            rw [word, ← UInt32.xor_assoc, shift_xor, shift_shiftRight hlast]
            rfl

theorem word_bitsOf (b : UInt8) : word (Bytes.bitsOf b) = b.toUInt32 <<< 24 := by
  apply UInt32.toBitVec_inj.1
  refine BitVec.eq_of_getMsbD_eq fun i hi => ?_
  rw [getMsbD_word _ hi]
  by_cases hbyte : i < 8
  · simp [Bytes.bitsOf, hbyte]
  · have hnone : b.toBitVec.getMsbD i = false := BitVec.getMsbD_of_ge _ _ (Nat.not_lt.1 hbyte)
    simp [Bytes.bitsOf, hbyte, hnone]

theorem feed_eq (c : Crc) (b : UInt8) : c.feed b = (Bytes.bitsOf b).foldl feedBit c := by
  rw [foldl_feedBit (by simp [Bytes.bitsOf]), word_bitsOf]
  rfl

theorem feedAll_eq (c : Crc) (bytes : Bytes) : c.feedAll bytes = bytes.bits.foldl feedBit c := by
  rw [feedAll, Bytes.bits, List.foldl_flatMap]
  exact congrArg (bytes.foldl · c) (funext fun c => funext (feed_eq c))

/-! ## Differences -/

theorem feedBit_xor (a b : Crc) (p q : Bool) :
    feedBit a p ^^^ feedBit b q = feedBit (a ^^^ b) (p ^^ q) := by
  rw [feedBit, feedBit, feedBit, ← shift_xor, top, top, top, select_xor]
  ac_rfl

theorem foldl_feedBit_xor (h : u.length = v.length) (a b : Crc) :
    u.foldl feedBit a ^^^ v.foldl feedBit b = (u.zipWith xor v).foldl feedBit (a ^^^ b) := by
  induction u generalizing v a b with
  | nil =>
      obtain rfl := List.length_eq_zero_iff.1 h.symm
      rfl
  | cons p u ih =>
      cases v with
      | nil => cases h
      | cons q v =>
          rw [List.foldl_cons, List.foldl_cons, ih (Nat.succ.inj h), feedBit_xor]
          rfl

/-- Bits that are not set leave a remainder zero, or not zero. -/
theorem foldl_feedBit_of_clear (h : ∀ bit ∈ w, bit = false) (c : Crc) :
    w.foldl feedBit c = 0 ↔ c = 0 := by
  induction w generalizing c with
  | nil => rfl
  | cons bit rest ih =>
      rcases List.forall_mem_cons.1 h with ⟨rfl, hrest⟩
      rw [List.foldl_cons, ih hrest, feedBit, shift_eq_zero_iff]
      simp [top, select]

/-- A burst at the front. -/
theorem foldl_feedBit_of_front {i : Nat} (hi : w[i]? = some true)
    (hwithin : ∀ j, w[j]? = some true → j < 32) : w.foldl feedBit 0 ≠ 0 := by
  have hrest : ∀ bit ∈ w.drop 32, bit = false := by
    intro bit hbit
    rcases List.mem_iff_getElem?.1 hbit with ⟨j, hj⟩
    rw [List.getElem?_drop] at hj
    cases bit with
    | false => rfl
    | true => exact absurd (hwithin _ hj) (by omega)
  have hfront : (w.take 32)[i]? = some true := by
    rw [List.getElem?_take_of_lt (hwithin i hi), hi]
  rw [← List.take_append_drop 32 w, List.foldl_append, Ne, foldl_feedBit_of_clear hrest,
    foldl_feedBit (List.length_take_le _ _), shifts_eq_zero_iff, UInt32.zero_xor]
  exact word_ne_zero (hwithin i hi) hfront

theorem foldl_feedBit_of_burst (first : Nat) {i : Nat} (hi : w[i]? = some true)
    (hwithin : ∀ j, w[j]? = some true → first ≤ j ∧ j < first + 32) : w.foldl feedBit 0 ≠ 0 := by
  induction first generalizing w i with
  | zero => exact foldl_feedBit_of_front hi fun j hj => by simpa using (hwithin j hj).2
  | succ first ih =>
      cases w with
      | nil => simp at hi
      | cons bit rest =>
          -- The first bit is in front of the burst, and leaves the remainder zero.
          cases bit with
          | true => exact absurd (hwithin 0 rfl).1 (Nat.not_succ_le_zero _)
          | false =>
              cases i with
              | zero => cases hi
              | succ i =>
                  refine ih (w := rest) (i := i) hi fun j hj => ?_
                  have hnext := hwithin (j + 1) hj
                  omega

theorem ofBytes_ne_of_burst {good bad : Bytes} (h : Bytes.Burst good bad) :
    ofBytes bad ≠ ofBytes good := by
  have hlength : bad.bits.length = good.bits.length := by
    rw [Bytes.length_bits, Bytes.length_bits, h.length_eq]
  have hdiffers : ∀ i : Nat, (bad.bits.zipWith xor good.bits)[i]? = some true ↔
      bad.bits[i]? ≠ good.bits[i]? := by
    intro i
    rw [List.getElem?_zipWith]
    by_cases hi : i < bad.bits.length
    · rw [List.getElem?_eq_getElem hi, List.getElem?_eq_getElem (hlength ▸ hi)]
      simp
    · rw [List.getElem?_eq_none (Nat.not_lt.1 hi),
        List.getElem?_eq_none (hlength ▸ Nat.not_lt.1 hi)]
      simp
  rcases h.within with ⟨first, hwithin⟩
  obtain ⟨i, hi⟩ : ∃ i : Nat, bad.bits[i]? ≠ good.bits[i]? := by
    by_contra hnone
    exact h.ne (Bytes.bits_inj (List.ext_getElem? fun i => not_not.1 (not_exists.1 hnone i)))
  have hremainder := foldl_feedBit_of_burst first ((hdiffers i).2 hi)
    fun j hj => hwithin j ((hdiffers j).1 hj)
  intro hsame
  refine hremainder ?_
  rw [← UInt32.xor_self (a := initial), ← foldl_feedBit_xor hlength, ← feedAll_eq, ← feedAll_eq]
  exact UInt32.xor_eq_zero_iff.2 hsame

end Crc

namespace Blob

variable {buffer bytes : Bytes} {h : Header}

/-- The checksum that a buffer carries behind header and payload. -/
def carried (buffer : Bytes) (h : Header) : Bytes := (buffer.drop h.covered).take Header.crcLength

theorem length_of_verify {good : Bool} (hv : verify buffer h = .ok good) :
    h.blobLength ≤ buffer.length := by
  unfold verify at hv
  split at hv
  · obtain ⟨word, hget, -⟩ := exists_of_map_eq_ok hv
    unfold Bytes.get32 at hget
    split at hget
    · rename_i hdrop
      have hlength := congrArg List.length hdrop
      simp [h.blobLength_eq, Header.crcLength] at hlength ⊢
      omega
    · cases hget
  · cases hv

/-- What lies behind the blob does not matter. -/
theorem verify_take (hlen : h.blobLength ≤ buffer.length) :
    verify (buffer.take h.blobLength) h = verify buffer h := by
  have hcovered : h.covered ≤ h.blobLength := by simp [h.blobLength_eq]
  have hdrop : (buffer.take h.blobLength).drop h.covered = carried buffer h := by
    rw [List.drop_take, h.blobLength_eq, Nat.add_sub_cancel_left, carried]
  have hget : Bytes.get32 (buffer.take h.blobLength) h.covered = Bytes.get32 buffer h.covered := by
    rw [Bytes.get32, Bytes.get32, hdrop, carried]
    rcases buffer.drop h.covered with _ | ⟨_, _ | ⟨_, _ | ⟨_, _ | ⟨_, rest⟩⟩⟩⟩ <;> rfl
  rw [verify, verify, hget, List.take_take, Nat.min_eq_left hcovered, List.length_take,
    Nat.min_eq_left hlen, if_pos hcovered, if_pos (hcovered.trans hlen)]

theorem verify_eq_of_le (hlen : h.blobLength ≤ buffer.length) :
    verify buffer h =
      .ok (carried buffer h == Bytes.ofWord32 (Crc.ofBytes (buffer.take h.covered))) := by
  have hcovered : h.covered ≤ h.blobLength := by simp [h.blobLength_eq]
  rw [← verify_take hlen, verify_eq (List.length_take_of_le hlen), List.take_take,
    Nat.min_eq_left hcovered, List.drop_take, h.blobLength_eq, Nat.add_sub_cancel_left, carried]

theorem verify_eq_true_iff (hlen : h.blobLength ≤ buffer.length) :
    verify buffer h = .ok true ↔
      carried buffer h = Bytes.ofWord32 (Crc.ofBytes (buffer.take h.covered)) := by
  rw [verify_eq_of_le hlen, Except.ok.injEq, beq_iff_eq]

theorem verify_eq_false (hlen : h.blobLength ≤ buffer.length)
    (hne : carried buffer h ≠ Bytes.ofWord32 (Crc.ofBytes (buffer.take h.covered))) :
    verify buffer h = .ok false := by
  rw [verify_eq_of_le hlen, beq_eq_false_iff_ne.2 hne]

/-- Stamping replaces the four bytes of the checksum. -/
theorem stamp_eq (hlen : h.blobLength ≤ buffer.length) :
    stamp buffer h = .ok (h.blobLength, buffer.take h.covered ++
      Bytes.ofWord32 (Crc.ofBytes (buffer.take h.covered)) ++ buffer.drop h.blobLength) := by
  have hcovered : h.covered ≤ buffer.length := by
    rw [h.blobLength_eq] at hlen
    omega
  have hword : (Bytes.ofWord32 (Crc.ofBytes (buffer.take h.covered))).length = Header.crcLength := rfl
  rw [stamp, if_pos hcovered, Bytes.put32, Bytes.put, hword, ← h.blobLength_eq, if_pos hlen]
  rfl

theorem verify_of_burst {damaged : Bytes} (hgood : verify buffer h = .ok true)
    (hlength : damaged.length = buffer.length)
    (hburst : Bytes.Burst (buffer.take h.covered) (damaged.take h.covered))
    (hcarried : carried damaged h = carried buffer h) : verify damaged h = .ok false := by
  have hlen := length_of_verify hgood
  rw [verify_eq_true_iff hlen] at hgood
  refine verify_eq_false (hlength ▸ hlen) fun hsame => ?_
  rw [hcarried, hgood] at hsame
  exact Crc.ofBytes_ne_of_burst hburst (Bytes.ofWord32_inj hsame).symm

theorem verify_of_carried {damaged : Bytes} (hgood : verify buffer h = .ok true)
    (hlength : damaged.length = buffer.length)
    (hcovered : damaged.take h.covered = buffer.take h.covered)
    (hcarried : carried damaged h ≠ carried buffer h) : verify damaged h = .ok false := by
  have hlen := length_of_verify hgood
  rw [verify_eq_true_iff hlen] at hgood
  refine verify_eq_false (hlength ▸ hlen) fun hsame => hcarried ?_
  rw [hsame, hcovered, hgood]

/-- Any buffer that has room for a checksum can be given one, and nothing else of it changes. -/
theorem exists_stamp (hlen : h.blobLength ≤ buffer.length) : ∃ sealed : Bytes,
    stamp buffer h = .ok (h.blobLength, sealed) ∧ verify sealed h = .ok true ∧
      sealed.length = buffer.length ∧ sealed.take h.covered = buffer.take h.covered ∧
      sealed.drop h.blobLength = buffer.drop h.blobLength := by
  have hcovered : (buffer.take h.covered).length = h.covered := by
    rw [h.blobLength_eq] at hlen
    exact List.length_take_of_le (by omega)
  have hword : (Bytes.ofWord32 (Crc.ofBytes (buffer.take h.covered))).length =
      Header.crcLength := rfl
  have hblob : (buffer.take h.covered ++
      Bytes.ofWord32 (Crc.ofBytes (buffer.take h.covered))).length = h.blobLength := by
    rw [List.length_append, hcovered, hword, h.blobLength_eq]
  have htake : ∀ tail : Bytes, (buffer.take h.covered ++ tail).take h.covered =
      buffer.take h.covered := fun tail => List.take_left' hcovered
  refine ⟨_, stamp_eq hlen, (verify_eq_true_iff ?_).2 ?_, ?_, ?_, List.drop_left' hblob⟩
  · rw [List.length_append, hblob]
    exact Nat.le_add_right _ _
  · rw [List.append_assoc, htake, carried, List.drop_left' hcovered, List.take_left' hword]
  · rw [List.length_append, hblob, List.length_drop, Nat.add_sub_cancel' hlen]
  · rw [List.append_assoc, htake]

/-- A blob that carries its checksum is told from one that was damaged, in header and payload in
bits that lie within thirty-two, or in the checksum in any way. A checksum can be put wherever there
is room for it. -/
theorem verify_finds_damage (buffer : Bytes) (h : Header) :
    (verify buffer h = .ok true → ∀ damaged : Bytes, damaged.length = buffer.length →
      (Bytes.Burst (buffer.take h.covered) (damaged.take h.covered) →
        carried damaged h = carried buffer h → verify damaged h = .ok false) ∧
      (damaged.take h.covered = buffer.take h.covered →
        carried damaged h ≠ carried buffer h → verify damaged h = .ok false)) ∧
    (h.blobLength ≤ buffer.length → ∃ sealed : Bytes,
      stamp buffer h = .ok (h.blobLength, sealed) ∧ verify sealed h = .ok true ∧
      sealed.length = buffer.length ∧ sealed.take h.covered = buffer.take h.covered ∧
      sealed.drop h.blobLength = buffer.drop h.blobLength) :=
  ⟨fun hgood _ hlength => ⟨verify_of_burst hgood hlength, verify_of_carried hgood hlength⟩,
    exists_stamp⟩

/-- A blob of three bytes, and another byte behind it. Of its header and payload, bits are flipped
from the sixth one to the thirty-seventh; then its checksum is cleared. -/
theorem threeBytes_damage_found :
    let blob : Bytes := [3, 0, 97, 98, 99, 135, 42, 16, 176, 7]
    let damaged : Bytes := [7, 0, 158, 98, 107, 135, 42, 16, 176, 7]
    let cleared : Bytes := [3, 0, 97, 98, 99, 0, 0, 0, 0, 7]
    verify blob ⟨3⟩ = .ok true ∧ verify damaged ⟨3⟩ = .ok false ∧
      verify cleared ⟨3⟩ = .ok false ∧
      ∃ sealed, stamp cleared ⟨3⟩ = .ok (9, sealed) ∧ verify sealed ⟨3⟩ = .ok true ∧
        sealed = blob := by
  intro blob damaged cleared
  have hgood : verify blob ⟨3⟩ = .ok true := by decide +kernel
  have hlength : ∀ x : Bytes, x.length = 5 → x.bits.length = 40 := by
    intro x hx
    rw [Bytes.length_bits, hx]
  have hburst : Bytes.Burst (blob.take 5) (damaged.take 5) := by
    refine ⟨rfl, by decide, 5, fun i hi => ?_⟩
    have hall : ∀ i < 40, (Bytes.bits (damaged.take 5))[i]? ≠ (Bytes.bits (blob.take 5))[i]? →
        5 ≤ i ∧ i < 5 + 32 := by decide +kernel
    by_cases hlt : i < 40
    · exact hall i hlt hi
    · refine absurd ?_ hi
      rw [List.getElem?_eq_none, List.getElem?_eq_none]
      · exact (hlength _ rfl).trans_le (Nat.not_lt.1 hlt)
      · exact (hlength _ rfl).trans_le (Nat.not_lt.1 hlt)
  obtain ⟨hfinds, -⟩ := verify_finds_damage blob ⟨3⟩
  obtain ⟨-, hstamp⟩ := verify_finds_damage cleared ⟨3⟩
  obtain ⟨sealed, hsealed, hverify, -⟩ := hstamp (by decide)
  have hvalue : stamp cleared ⟨3⟩ = .ok (9, blob) := by decide +kernel
  refine ⟨hgood, (hfinds hgood damaged rfl).1 hburst rfl,
    (hfinds hgood cleared rfl).2 rfl (by decide), sealed, hsealed, hverify, ?_⟩
  rw [hvalue] at hsealed
  exact (Prod.mk.inj (Except.ok.inj hsealed)).2.symm

end Blob

end DockLink
